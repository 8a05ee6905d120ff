import Fluxion.Proofs.Literal.Written
import Fluxion.Proofs.Scan.Split
import Fluxion.Text.Stripped

/-!
# How a literal is spelled

From the parts of a literal follows what a scan sees of it: no parenthesis, no operator, and a last
character that can end an operand.
-/

set_option autoImplicit false

namespace Fluxion.Literal

def marks : List Char :=
  ['+', '-', '.', 'e', 'E', 'N', 'a', 'I', 'n', 'f', 'i', 't', 'y']

def isLetter (c : Char) : Bool := c.isDigit || marks.contains c

theorem IsSign.letters {negative : Bool} {a : List Char} (h : IsSign negative a) :
    ∀ c ∈ a, isLetter c = true := by
  cases h with
  | absent => exact List.all_eq_true.1 rfl
  | plus => exact List.all_eq_true.1 rfl
  | minus => exact List.all_eq_true.1 rfl

theorem AllDigits.letters {a : List Char} (h : AllDigits a) : ∀ c ∈ a, isLetter c = true := by
  intro c hc
  rw [isLetter, h c hc, Bool.true_or]

theorem IsSignificand.letters {whole fraction a : List Char}
    (h : IsSignificand whole fraction a) :
    ∀ c ∈ a, isLetter c = true := by
  cases h with
  | whole h _ => exact h.letters
  | pointed hd hf _ =>
    intro c hc
    simp only [List.mem_append, List.mem_cons] at hc
    rcases hc with hc | rfl | hc
    · exact hd.letters c hc
    · rfl
    · exact hf.letters c hc

theorem IsExponent.letters {n : Int} {b : List Char} (h : IsExponent n b) :
    ∀ c ∈ b, isLetter c = true := by
  cases h with
  | absent => simp
  | written he hs hd _ =>
    intro c hc
    simp only [List.mem_append, List.mem_cons] at hc
    rcases hc with rfl | hc | hc
    · rcases he with rfl | rfl <;> rfl
    · exact hs.letters c hc
    · exact hd.letters c hc

theorem IsNumeral.letters {n : Numeral} {b : List Char} (h : IsNumeral n b) :
    ∀ c ∈ b, isLetter c = true := by
  obtain ⟨ha, hb⟩ := h
  intro c hc
  rcases List.mem_append.1 hc with hc | hc
  · exact ha.letters c hc
  · exact hb.letters c hc

theorem IsUnsigned.letters {negative : Bool} {l : Literal} {b : List Char}
    (h : IsUnsigned negative l b) : ∀ c ∈ b, isLetter c = true := by
  cases h with
  | decimal h => exact h.letters
  | nan => exact List.all_eq_true.1 rfl
  | infinity => exact List.all_eq_true.1 rfl

theorem letters_of_ofText? {text : List Char} {v : Float} (h : ofText? text = some v) :
    ∀ c ∈ text, isLetter c = true := by
  obtain ⟨l, ⟨hs, hb⟩, -⟩ := ofText?_iff.1 h
  intro c hc
  rcases List.mem_append.1 hc with hc | hc
  · exact hs.letters c hc
  · exact hb.letters c hc

theorem not_mem_of_any {p : Char → Bool} {c : Char} (hc : p c = true) {others : List Char}
    (ho : others.any p = false) : c ∉ others := by
  intro hm
  rw [List.any_eq_true.2 ⟨c, hm, hc⟩] at ho
  exact Bool.false_ne_true ho.symm

theorem isParen_of_isLetter {c : Char} (h : isLetter c = true) : Scan.isParen c = false := by
  have hn : c ∉ ['(', ')'] := not_mem_of_any h rfl
  simpa [Scan.isParen] using hn

theorem isBlank_of_isLetter {c : Char} (h : isLetter c = true) : Text.isBlank c = false := by
  rcases Bool.or_eq_true_iff.1 h with h | h
  · have hd := Char.isDigit_iff_toNat.1 h
    simp only [Char.reduceToNat] at hd
    simp only [Text.isBlank, Text.blankRanges, List.any_cons, List.any_nil, Bool.or_false,
      Bool.or_eq_false_iff, decide_eq_false_iff_not]
    omega
  · have hm : marks.any Text.isBlank = false := rfl
    exact Bool.eq_false_iff.2 fun hb => not_mem_of_any hb hm (List.contains_iff_mem.1 h)

theorem AllDigits.not_mem {a : List Char} (h : AllDigits a) {others : List Char}
    (ho : others.any Char.isDigit = false) : ∀ c ∈ a, c ∉ others :=
  fun c hc => not_mem_of_any (h c hc) ho

theorem AllDigits.endsOperand {a : List Char} (h : AllDigits a) :
    ∀ c ∈ a, Scan.endsOperand c = true :=
  fun c hc => decide_eq_true (h.not_mem rfl c hc)

theorem IsSignificand.endsOperand {whole fraction a : List Char}
    (h : IsSignificand whole fraction a) : Scan.EndsOperand a := by
  cases h with
  | whole h hne => exact Scan.endsOperand_of_forall hne h.endsOperand
  | pointed hd hf hne =>
    apply Scan.EndsOperand.append
    apply Scan.endsOperand_of_forall (by simp)
    intro c hc
    rcases List.mem_cons.1 hc with rfl | hc
    · decide
    · exact hf.endsOperand c hc

theorem IsNumeral.endsOperand {n : Numeral} {b : List Char} (h : IsNumeral n b) :
    Scan.EndsOperand b := by
  obtain ⟨ha, hb⟩ := h
  cases hb with
  | absent => simpa using ha.endsOperand
  | @written _ e s ds _ _ hd hne =>
    have hds := Scan.endsOperand_of_forall hne hd.endsOperand
    simpa using hds.append (_ ++ e :: s)

theorem IsUnsigned.endsOperand {negative : Bool} {l : Literal} {b : List Char}
    (h : IsUnsigned negative l b) : Scan.EndsOperand b := by
  cases h with
  | decimal h => exact h.endsOperand
  | nan => rfl
  | infinity => rfl

theorem endsOperand_of_ofText? {text : List Char} {v : Float} (h : ofText? text = some v) :
    Scan.EndsOperand text := by
  obtain ⟨l, ⟨_, hb⟩, -⟩ := ofText?_iff.1 h
  exact hb.endsOperand.append _

section
open Scan
variable {beyond met : Option Char}

theorem AllDigits.clear {a : List Char} (h : AllDigits a) :
    Clear .left ['+', '-'] beyond met a :=
  clear_of_forall fun c hc => ⟨isParen_of_isLetter (h.letters c hc), h.not_mem rfl c hc⟩

theorem IsSign.clear {negative : Bool} {a : List Char} (h : IsSign negative a)
    (hm : met.any endsOperand = false) : Clear .left ['+', '-'] beyond met a := by
  cases h with
  | absent => exact .nil
  | plus => exact .char rfl (by simp [isOperator, precedes, hm]) .nil
  | minus => exact .char rfl (by simp [isOperator, precedes, hm]) .nil

theorem IsSignificand.clear {whole fraction a : List Char}
    (h : IsSignificand whole fraction a) : Clear .left ['+', '-'] beyond met a := by
  cases h with
  | whole h _ => exact h.clear
  | pointed hd hf _ => exact hd.clear.append (.char rfl rfl hf.clear)

theorem IsExponent.clear {n : Int} {b : List Char} (h : IsExponent n b) :
    Clear .left ['+', '-'] beyond met b := by
  cases h with
  | absent => exact .nil
  | @written _ e s ds he hs hd _ =>
    have hsign : Clear .left ['+', '-'] (ds.head?.or beyond) (some e) s := by
      apply hs.clear
      rcases he with rfl | rfl <;> rfl
    rcases he with rfl | rfl
    · exact .char rfl rfl (hsign.append hd.clear)
    · exact .char rfl rfl (hsign.append hd.clear)

theorem IsUnsigned.clear {negative : Bool} {l : Literal} {b : List Char}
    (h : IsUnsigned negative l b) : Clear .left ['+', '-'] beyond met b := by
  cases h with
  | decimal h =>
    obtain ⟨ha, hb⟩ := h
    exact ha.clear.append hb.clear
  | nan => exact clear_of_all rfl
  | infinity => exact clear_of_all rfl

/-- A literal is clear of plus and minus where no operand ends: its sign is no operator, nor is the
sign of its exponent. -/
theorem clear_term_of_ofText? {text : List Char} {v : Float} (h : ofText? text = some v)
    (hm : met.any endsOperand = false) : Clear .left ['+', '-'] beyond met text := by
  obtain ⟨l, ⟨hs, hb⟩, -⟩ := ofText?_iff.1 h
  exact (hs.clear hm).append hb.clear

theorem clear_of_ofText? {text symbols : List Char} {v : Float} (h : ofText? text = some v)
    (hs : symbols.any isLetter = false) : Clear .left symbols beyond met text :=
  clear_of_forall fun c hc =>
    have hl := letters_of_ofText? h c hc
    ⟨isParen_of_isLetter hl, not_mem_of_any hl hs⟩

end

end Fluxion.Literal
