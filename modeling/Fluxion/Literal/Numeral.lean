import Fluxion.Decimal.Basic

/-!
# Unsigned numbers in text

A decimal is digits with at most one point among or around them, then perhaps an exponent. Each
reader takes the longest beginning of the text that it can and returns what is left. A whole number
is an optional plus and digits, for a value that fits into a 64-bit word.
-/

set_option autoImplicit false

namespace Fluxion

structure Numeral where
  whole : List Char
  fraction : List Char
  exponent : Int
  deriving DecidableEq, Repr

namespace Numeral

def decimal (n : Numeral) : Decimal :=
  ⟨Nat.ofDigitChars 10 (n.whole ++ n.fraction) 0, n.exponent - n.fraction.length⟩

/-- An optional sign; true for a minus. -/
def sign : List Char → Bool × List Char
  | '-' :: rest => (true, rest)
  | '+' :: rest => (false, rest)
  | rest => (false, rest)

theorem sign_length_le (text : List Char) : (sign text).2.length ≤ text.length := by
  unfold sign; split <;> simp

def significand? (text : List Char) : Option ((List Char × List Char) × List Char) :=
  let whole := text.takeWhile Char.isDigit
  match text.dropWhile Char.isDigit with
  | '.' :: rest =>
    let fraction := rest.takeWhile Char.isDigit
    if whole = [] ∧ fraction = [] then none
    else some ((whole, fraction), rest.dropWhile Char.isDigit)
  | rest => if whole = [] then none else some ((whole, []), rest)

theorem significand?_length_lt {text rest : List Char} {parts : List Char × List Char}
    (h : significand? text = some (parts, rest)) : rest.length < text.length := by
  have key := congrArg List.length (List.takeWhile_append_dropWhile (p := Char.isDigit) (l := text))
  rw [List.length_append] at key
  unfold significand? at h
  dsimp only at h
  split at h
  · next r hr =>
    have hd := (List.dropWhile_sublist Char.isDigit (l := r)).length_le
    rw [hr, List.length_cons] at key
    split at h
    · simp at h
    · simp only [Option.some.injEq, Prod.mk.injEq] at h
      rw [← h.2]; omega
  · split at h
    · simp at h
    · next hne =>
      simp only [Option.some.injEq, Prod.mk.injEq] at h
      have := List.length_pos_iff.2 hne
      rw [← h.2]; omega

/-- An exponent counts only with all of its parts: the letter, perhaps a sign, and a digit. -/
def exponentPart (text : List Char) : Int × List Char :=
  match text with
  | [] => (0, [])
  | c :: rest =>
    let s := sign rest
    let ds := s.2.takeWhile Char.isDigit
    if (c = 'e' ∨ c = 'E') ∧ ds ≠ [] then
      let size : Int := Nat.ofDigitChars 10 ds 0
      (if s.1 then -size else size, s.2.dropWhile Char.isDigit)
    else (0, text)

theorem exponentPart_length_le (text : List Char) :
    (exponentPart text).2.length ≤ text.length := by
  unfold exponentPart
  split
  · simp
  · next c rest =>
    have hs := sign_length_le rest
    have hd := (List.dropWhile_sublist Char.isDigit (l := (sign rest).2)).length_le
    dsimp only
    split <;> simp only [List.length_cons] <;> omega

def read (text : List Char) : Option (Numeral × List Char) :=
  match significand? text with
  | none => none
  | some ((whole, fraction), rest) =>
    let e := exponentPart rest
    some (⟨whole, fraction, e.1⟩, e.2)

theorem read_length_lt {text rest : List Char} {n : Numeral} (h : read text = some (n, rest)) :
    rest.length < text.length := by
  unfold read at h
  split at h
  · simp at h
  · next r hr =>
    simp only [Option.some.injEq, Prod.mk.injEq] at h
    have := exponentPart_length_le r
    have := significand?_length_lt hr
    rw [← h.2]; omega

end Numeral

end Fluxion

namespace Fluxion.Text

def withoutPlus : List Char → List Char
  | '+' :: rest => rest
  | text => text

def wholeNumber? (text : List Char) : Option Nat :=
  let digits := withoutPlus text
  if digits ≠ [] ∧ digits.all Char.isDigit then
    let n := Nat.ofDigitChars 10 digits 0
    if n < Nat.pow 2 64 then some n else none
  else none

end Fluxion.Text
