import Fluxion.Proofs.Literal.Written
import Mathlib.Data.List.Induction
import Mathlib.Data.Nat.Digits.Defs

/-!
# Whole numbers are read exactly

A text is read as a whole number if it is one or more decimal digits, perhaps behind a plus, and
their value fits into a word of 64 bits. Zeros in front of the digits do not count towards that.
-/

set_option autoImplicit false

namespace Fluxion.Text
open Literal (AllDigits)

/-- The value of decimal digits: the last one counts once, the one in front of it ten times. -/
def decimalValue (ds : List Char) : ℕ :=
  Nat.ofDigits 10 (ds.reverse.map fun d => d.toNat - '0'.toNat)

inductive WholeNumber : List Char → ℕ → Prop
  | digits {ds : List Char} (h : AllDigits ds) (hne : ds ≠ []) : WholeNumber ds (decimalValue ds)
  | plus {ds : List Char} (h : AllDigits ds) (hne : ds ≠ []) :
      WholeNumber ('+' :: ds) (decimalValue ds)

theorem WholeNumber.ne_nil {text : List Char} {n : ℕ} (h : WholeNumber text n) : text ≠ [] := by
  cases h with
  | digits _ hne => exact hne
  | plus _ _ => exact List.cons_ne_nil _ _

theorem decimalValue_concat (ds : List Char) (d : Char) :
    decimalValue (ds ++ [d]) = 10 * decimalValue ds + (d.toNat - '0'.toNat) := by
  rw [decimalValue, List.reverse_append, List.reverse_singleton, List.singleton_append,
    List.map_cons, Nat.ofDigits_cons, Nat.add_comm]
  rfl

theorem ofDigitChars_eq_decimalValue (ds : List Char) :
    Nat.ofDigitChars 10 ds 0 = decimalValue ds := by
  induction ds using List.reverseRecOn with
  | nil => rfl
  | append_singleton ds d ih =>
    rw [Nat.ofDigitChars_append, ih, decimalValue_concat, Nat.ofDigitChars_cons,
      Nat.ofDigitChars_nil]

theorem withoutPlus_of_ne {c : Char} (hc : c ≠ '+') (rest : List Char) :
    withoutPlus (c :: rest) = c :: rest := by
  unfold withoutPlus
  split
  · next h => exact absurd (List.cons.inj h).1 hc
  · rfl

theorem wholeNumber_iff {text : List Char} {n : ℕ} :
    WholeNumber text n ↔ withoutPlus text ≠ [] ∧ AllDigits (withoutPlus text) ∧
      decimalValue (withoutPlus text) = n := by
  constructor
  · intro h
    cases h with
    | digits h hne =>
      obtain ⟨c, rest, rfl, hc⟩ := h.head hne
      have hplus : c ≠ '+' := by
        rintro rfl
        cases hc
      rw [withoutPlus_of_ne hplus]
      exact ⟨hne, h, rfl⟩
    | plus h hne => exact ⟨hne, h, rfl⟩
  · rintro ⟨hne, h, rfl⟩
    cases text with
    | nil => exact absurd rfl hne
    | cons c rest =>
      by_cases hc : c = '+'
      · subst hc
        exact .plus h hne
      · rw [withoutPlus_of_ne hc] at hne h ⊢
        exact .digits h hne

theorem wholeNumber?_eq_some_iff {text : List Char} {n : ℕ} :
    wholeNumber? text = some n ↔ WholeNumber text n ∧ n < 2 ^ 64 := by
  have hpow : Nat.pow 2 64 = 2 ^ 64 := rfl
  rw [wholeNumber_iff, wholeNumber?, hpow, ofDigitChars_eq_decimalValue]
  dsimp only
  rw [Option.ite_none_right_eq_some, Option.ite_none_right_eq_some]
  constructor
  · rintro ⟨⟨hne, hdigits⟩, hlt, hn⟩
    obtain rfl := Option.some.inj hn
    exact ⟨⟨hne, List.all_eq_true.1 hdigits, rfl⟩, hlt⟩
  · rintro ⟨⟨hne, hdigits, rfl⟩, hlt⟩
    exact ⟨⟨hne, List.all_eq_true.2 hdigits⟩, hlt, rfl⟩

theorem wholeNumber?_eq_none_iff {text : List Char} :
    wholeNumber? text = none ↔ ∀ n < 2 ^ 64, ¬ WholeNumber text n := by
  constructor
  · intro h n hlt hn
    have hsome := wholeNumber?_eq_some_iff.2 ⟨hn, hlt⟩
    rw [h] at hsome
    cases hsome
  · intro h
    cases hw : wholeNumber? text with
    | none => rfl
    | some n =>
      obtain ⟨hn, hlt⟩ := wholeNumber?_eq_some_iff.1 hw
      exact absurd hn (h n hlt)

end Fluxion.Text
