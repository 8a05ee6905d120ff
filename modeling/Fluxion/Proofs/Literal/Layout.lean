import Fluxion.Expr.Outline
import Fluxion.Proofs.Binary64.Order
import Fluxion.Proofs.Literal.Pattern
import Fluxion.Proofs.Literal.ReadBack

/-!
# The two layouts of an outline

A value from `10^-3` up to below `10^7` shows all its digits around a point, and so does zero. Every
other finite value is one digit other than zero, a point, digits and an exponent. Both are literals
of the value.
-/

set_option autoImplicit false

namespace Fluxion.Literal
open Binary64

/-- This is `-?[0-9]+[.][0-9]+`. -/
def pointedPattern : RegularExpression Char :=
  optional (.char '-') * (digitsPattern * (.char '.' * digitsPattern))

/-- This is `-?[1-9][.][0-9]+E-?[0-9]+`. -/
def scientificPattern : RegularExpression Char :=
  optional (.char '-') * (oneOf ['1', '2', '3', '4', '5', '6', '7', '8', '9'] *
    (.char '.' * (digitsPattern * (.char 'E' * (optional (.char '-') * digitsPattern)))))

/-- Not too small and not too large to show all digits around a point. -/
def Plain (q : ℚ) : Prop := q = 0 ∨ 1 / 1000 ≤ |q| ∧ |q| < 10 ^ 7

def thousandth : ℕ := 0x3f50624dd2f1a9fb + 1

def tenMillion : ℕ := 0x416312d000000000

theorem thousandth_eq : (1e-3 : Float) = ofMagnitude false thousandth := by decide +kernel

theorem tenMillion_eq : (1e7 : Float) = ofMagnitude false tenMillion := by decide +kernel

theorem thousandth_le_iff {m : ℕ} : 1 / 1000 ≤ size m ↔ thousandth ≤ m := by
  have hbelow : units 0x3f50624dd2f1a9fb * 1000 < 2 ^ 1074 := by decide +kernel
  have hleast : ¬ units (0x3f50624dd2f1a9fb + 1) * 1000 < 2 ^ 1074 := by decide +kernel
  have hlow := (size_lt_one_div_iff (by decide)).2 hbelow
  have hhigh := le_of_not_gt (mt (size_lt_one_div_iff (by decide)).1 hleast)
  exact le_size_iff (by exact_mod_cast hlow) (by exact_mod_cast hhigh)

theorem lt_tenMillion_iff {m : ℕ} : size m < 10 ^ 7 ↔ m < tenMillion := by
  have hunits : units tenMillion = 10 ^ 7 * 2 ^ 1074 := by decide +kernel
  have hsize : size tenMillion = 10 ^ 7 :=
    (size_whole hunits).trans ((Nat.cast_pow 10 7).trans (congrArg (· ^ 7) (Nat.cast_ofNat)))
  rw [← hsize, size_strictMono.lt_iff_lt]

theorem layout_iff (negative : Bool) {m : ℕ} (hm : m < infinityBits) {q : ℚ}
    (hq : |q| = size m) :
    ((ofMagnitude negative m).abs == 0.0 ||
      (1e-3 ≤ (ofMagnitude negative m).abs && (ofMagnitude negative m).abs < 1e7)) = true ↔
        Plain q := by
  have hzero : (0.0 : Float) = ofMagnitude false 0 := rfl
  have hnull : q = 0 ↔ m = 0 := by
    rw [← abs_eq_zero, hq, ← size_zero, size_strictMono.injective.eq_iff]
  rw [abs_ofMagnitude hm, hzero, thousandth_eq, tenMillion_eq, Bool.or_eq_true, Bool.and_eq_true,
    decide_eq_true_iff, decide_eq_true_iff, ofMagnitude_beq_iff hm (by decide),
    ofMagnitude_le_iff (by decide) hm, ofMagnitude_lt_iff hm (by decide), Plain, hnull, hq,
    thousandth_le_iff, lt_tenMillion_iff]

theorem mem_signed {r : RegularExpression Char} {body : List Char} (h : body ∈ r.matches')
    (negative : Bool) : signed negative body ∈ (optional (.char '-') * r).matches' := by
  cases negative with
  | false => exact mem_both.2 ⟨[], mem_optional.2 (.inl rfl), body, h, rfl⟩
  | true => exact mem_both.2 ⟨['-'], mem_optional.2 (.inr (mem_char.2 rfl)), body, h, rfl⟩

theorem pointed_parts (d : Decimal) :
    ∃ ds fs, d.pointed = ds ++ '.' :: fs ∧ (AllDigits ds ∧ ds ≠ []) ∧ AllDigits fs ∧ fs ≠ [] := by
  obtain ⟨c, exponent⟩ := d
  cases exponent with
  | ofNat zeros =>
    exact ⟨_, ['0'], rfl, allDigits_toDigits_zeros c zeros, allDigits_zeros 1,
      List.cons_ne_nil _ _⟩
  | negSucc m =>
    obtain ⟨ds, fs, htext, hds, hfs, hlen, -⟩ := positional_negSucc c m
    exact ⟨ds, fs, htext, hds, hfs, List.ne_nil_of_length_pos (by omega)⟩

theorem mem_pointed (d : Decimal) (negative : Bool) :
    signed negative d.pointed ∈ pointedPattern.matches' := by
  obtain ⟨ds, fs, htext, hds, hfs⟩ := pointed_parts d
  have hbehind := mem_both.2 ⟨['.'], mem_char.2 rfl, fs, mem_digits.2 hfs, rfl⟩
  rw [htext]
  exact mem_signed (mem_both.2 ⟨ds, mem_digits.2 hds, _, hbehind, rfl⟩) negative

theorem leading_digit {n : ℕ} (hn : n ≠ 0) :
    ∃ x ∈ ['1', '2', '3', '4', '5', '6', '7', '8', '9'], ∃ fs, Nat.toDigits 10 n = x :: fs := by
  induction n using Nat.strongRecOn with
  | ind n ih =>
    rcases Nat.lt_or_ge n 10 with hlt | hge
    · have hall : ∀ k < 10, k ≠ 0 →
          Nat.digitChar k ∈ ['1', '2', '3', '4', '5', '6', '7', '8', '9'] := by decide
      exact ⟨_, hall n hlt hn, [], Nat.toDigits_of_lt_base hlt⟩
    · obtain ⟨x, hx, fs, hds⟩ := ih (n / 10) (by omega) (by omega)
      refine ⟨x, hx, fs ++ [Nat.digitChar (n % 10)], ?_⟩
      rw [Nat.toDigits_of_base_le (by decide) hge, hds, List.cons_append]

theorem mem_wholeText (n : ℤ) :
    Decimal.wholeText n ∈ (optional (.char '-') * digitsPattern).matches' := by
  have hds (k : ℕ) := mem_digits.2 ⟨allDigits_toDigits k, Nat.toDigits_ne_nil⟩
  cases n with
  | ofNat k => exact mem_signed (hds k) false
  | negSucc k => exact mem_signed (hds (k + 1)) true

theorem mem_fraction {fs : List Char} (h : AllDigits fs) :
    (if fs.isEmpty then ['0'] else fs) ∈ digitsPattern.matches' := by
  split
  · exact mem_digits.2 ⟨allDigits_zeros 1, List.cons_ne_nil _ _⟩
  · next hne => exact mem_digits.2 ⟨h, fun hnil => hne (List.isEmpty_iff.2 hnil)⟩

theorem mem_scientific {d : Decimal} (hd : d.coefficient ≠ 0) (negative : Bool) :
    signed negative d.scientific ∈ scientificPattern.matches' := by
  obtain ⟨c, e⟩ := d
  obtain ⟨x, hx, fs, hds⟩ := leading_digit hd
  have hfs : AllDigits fs := (hds ▸ allDigits_toDigits c : AllDigits (x :: fs)).drop 1
  have hmark := mem_both.2 ⟨['E'], mem_char.2 rfl, _, mem_wholeText (e + fs.length), rfl⟩
  have hbehind := mem_both.2 ⟨_, mem_fraction hfs, _, hmark, rfl⟩
  have hpoint := mem_both.2 ⟨['.'], mem_char.2 rfl, _, hbehind, rfl⟩
  rw [scientific_eq e hds]
  exact mem_signed (mem_both.2 ⟨[x], mem_oneOf.2 ⟨x, hx, rfl⟩, _, hpoint, rfl⟩) negative

theorem coefficient_shortest {m : ℕ} (hm : m < infinityBits) (hne : m ≠ 0) :
    (Decimal.shortest m).coefficient ≠ 0 := by
  intro hzero
  have hmag := Decimal.magnitude_shortest hm
  rw [Decimal.magnitude, if_pos hzero] at hmag
  exact hne hmag.symm

/-- Every value is read back from its text, in an outline and in a line. In an outline the text of a
finite value shows all digits around a point if the value is zero or from `10^-3` up to below
`10^7`, and otherwise one digit other than zero, a point, digits and an exponent. -/
theorem texts_read_back (v : Float) :
    ofText? (outlineText v) = some v ∧ ofText? (Expr.literal v).text = some v ∧
      ∀ q, rational? v = some q →
        (Plain q → outlineText v ∈ pointedPattern.matches') ∧
        (¬ Plain q → outlineText v ∈ scientificPattern.matches') := by
  refine ⟨ofText?_outlineText v, ofText?_text v, fun q hq => ?_⟩
  obtain ⟨negative, m, hv⟩ := finite_of_rational? hq
  obtain ⟨hm, hvalue⟩ := eq_ofMagnitude_of_ofFloat hv
  have hlayout := layout_iff negative hm (abs_rational? hv hq)
  rw [← hvalue] at hlayout
  have htext : outlineText v = signed negative
      (if v.abs == 0.0 || (1e-3 ≤ v.abs && v.abs < 1e7) then (Decimal.shortest m).pointed
        else (Decimal.shortest m).scientific) := by
    rw [outlineText, hv]
  rw [htext]
  constructor
  · intro hplain
    rw [if_pos (hlayout.2 hplain)]
    exact mem_pointed _ negative
  · intro hplain
    rw [if_neg (mt hlayout.1 hplain)]
    refine mem_scientific (coefficient_shortest hm fun hzero => hplain (.inl ?_)) negative
    rw [← abs_eq_zero, abs_rational? hv hq, hzero, size_zero]

/-- The layouts change at `10^7`. -/
example : outlineText 9999999.999999998 = "9999999.999999998".toList ∧
    outlineText 1e7 = "1.0E7".toList := by decide +kernel

end Fluxion.Literal
