import Fluxion.Literal.Numeral

/-!
# Literals

A decimal, `NaN` or `Infinity`, each with an optional sign. `read` takes the longest literal at the
beginning of a text, so a text is a literal when nothing is left. `items` goes through a whole text:
where no literal begins it reports a mismatch and goes on behind it.

A finite value is written with the fewest digits that read back. In a line it is positional; in an
outline it always shows a point, and a value outside `[10^-3, 10^7)` is scientific.
-/

set_option autoImplicit false

namespace Fluxion

inductive Literal where
  | decimal (negative : Bool) (numeral : Numeral)
  | nan
  | infinity (negative : Bool)
  deriving DecidableEq, Repr

namespace Literal

def value : Literal → Float
  | .decimal negative numeral => Binary64.ofMagnitude negative numeral.decimal.magnitude
  | .nan => Binary64.nan
  | .infinity negative => Binary64.infinity negative

def read (text : List Char) : Option (Literal × List Char) :=
  let s := Numeral.sign text
  match s.2 with
  | 'N' :: 'a' :: 'N' :: rest => some (.nan, rest)
  | 'I' :: 'n' :: 'f' :: 'i' :: 'n' :: 'i' :: 't' :: 'y' :: rest => some (.infinity s.1, rest)
  | body =>
    match Numeral.read body with
    | none => none
    | some (numeral, rest) => some (.decimal s.1 numeral, rest)

theorem read_length_lt {text rest : List Char} {l : Literal} (h : read text = some (l, rest)) :
    rest.length < text.length := by
  have hs := Numeral.sign_length_le text
  unfold read at h
  dsimp only at h
  split at h
  · next r hr =>
    simp only [Option.some.injEq, Prod.mk.injEq] at h
    simp only [hr, List.length_cons] at hs
    rw [← h.2]; omega
  · next r hr =>
    simp only [Option.some.injEq, Prod.mk.injEq] at h
    simp only [hr, List.length_cons] at hs
    rw [← h.2]; omega
  · split at h
    · simp at h
    · next r hr =>
      simp only [Option.some.injEq, Prod.mk.injEq] at h
      have := Numeral.read_length_lt hr
      rw [← h.2]; omega

def ofText? (text : List Char) : Option Float :=
  match read text with
  | some (l, []) => some l.value
  | _ => none

structure Token where
  literal : Literal
  text : List Char
  deriving DecidableEq, Repr

/-- Literals one after the other, and what is left where none begins. -/
def tokens (text : List Char) : List Token × List Char :=
  match _h : read text with
  | none => ([], text)
  | some (l, rest) =>
    let more := tokens rest
    (⟨l, text.take (text.length - rest.length)⟩ :: more.1, more.2)
termination_by text.length
decreasing_by exact read_length_lt _h

theorem tokens_none {text : List Char} (h : read text = none) : tokens text = ([], text) := by
  rw [tokens]
  split
  · rfl
  · next h' => cases h.symm.trans h'

theorem tokens_some {text rest : List Char} {l : Literal} (h : read text = some (l, rest)) :
    tokens text =
      (⟨l, text.take (text.length - rest.length)⟩ :: (tokens rest).1, (tokens rest).2) := by
  rw [tokens]
  split
  · next h' => cases h.symm.trans h'
  · next h' =>
    cases h.symm.trans h'
    rfl

theorem tokens_length_le (text : List Char) : (tokens text).2.length ≤ text.length := by
  induction text using tokens.induct with
  | case1 text h =>
    exact Nat.le_of_eq (by rw [tokens_none h])
  | case2 text l rest h ih =>
    rw [tokens_some h]
    exact Nat.le_trans ih (Nat.le_of_lt (read_length_lt h))

/-- What a lexer yields: a literal, or characters that it passes over where no literal begins. -/
inductive Item where
  | token (token : Token)
  | mismatch (passed : List Char)
  deriving DecidableEq, Repr

/-- How many characters a lexer passes over at once where no literal begins. This is left to the
lexer, but it always moves on. -/
structure Recovery where
  passed : List Char → Nat
  passed_pos : ∀ text, 0 < passed text

def Recovery.single : Recovery := ⟨fun _ => 1, fun _ => Nat.one_pos⟩

/-- All that a lexer yields: runs of literals, and a mismatch wherever a run ends within the text. -/
def items (r : Recovery) (text : List Char) : List Item :=
  let run := tokens text
  run.1.map .token ++
    if _h : run.2 = [] then []
    else .mismatch (run.2.take (r.passed run.2)) :: items r (run.2.drop (r.passed run.2))
termination_by text.length
decreasing_by
  have hle := tokens_length_le text
  have hpos := r.passed_pos (tokens text).2
  have hne : 0 < (tokens text).2.length := List.length_pos_iff.2 _h
  rw [List.length_drop]
  omega

theorem items_nil (r : Recovery) : items r [] = [] := by
  rw [items, tokens_none rfl]
  rfl

theorem items_token {text rest : List Char} {l : Literal} (r : Recovery)
    (h : read text = some (l, rest)) :
    items r text = .token ⟨l, text.take (text.length - rest.length)⟩ :: items r rest := by
  rw [items, tokens_some h, items.eq_1 r rest]
  rfl

theorem items_mismatch {text : List Char} (r : Recovery) (h : read text = none)
    (hne : text ≠ []) :
    items r text =
      .mismatch (text.take (r.passed text)) :: items r (text.drop (r.passed text)) := by
  rw [items, tokens_none h]
  exact dif_neg hne

def signed (negative : Bool) (text : List Char) : List Char :=
  if negative then '-' :: text else text

def positional (infinity : List Char) (v : Float) : List Char :=
  match Binary64.Value.ofFloat v with
  | .nan => "NaN".toList
  | .infinite negative => signed negative infinity
  | .finite negative magnitude => signed negative (Decimal.shortest magnitude).positional

def text (v : Float) : List Char := positional "Infinity".toList v

def outlineText (v : Float) : List Char :=
  match Binary64.Value.ofFloat v with
  | .nan => "NaN".toList
  | .infinite negative => signed negative "Infinity".toList
  | .finite negative magnitude =>
    let d := Decimal.shortest magnitude
    let size := v.abs
    signed negative <|
      if size == 0.0 || (1e-3 ≤ size && size < 1e7) then d.pointed else d.scientific

end Literal

end Fluxion
