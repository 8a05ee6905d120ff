import Fluxion.Expr.Basic
import Fluxion.Literal.Basic
import Fluxion.Parse.Refusal
import Fluxion.Scan.Bytes

/-!
# The outermost shape of a piece of text

Each tier of the grammar splits a piece at its own operators outside of all parentheses, or leaves
it to the next tighter tier. What comes out is one node of the formula with the smaller pieces for
its operands.
-/

set_option autoImplicit false

namespace Fluxion

def Operator.ofSymbol : Char → Operator
  | '+' => .add
  | '-' => .sub
  | '*' => .mul
  | '/' => .div
  | _ => .pow

namespace Parse

/-- The tiers of the grammar, the loosest first. The base of a power is read like a primary
expression, save for its own complaint about a logarithm. -/
inductive Tier where
  | sum
  | product
  | power
  | base
  | primary
  deriving DecidableEq, Repr

def operandTier (op : Operator) (side : Side) : Tier :=
  match op, side with
  | .add, .left | .sub, .left => .sum
  | .add, .right | .sub, .right => .product
  | .mul, .left | .div, .left => .product
  | .mul, .right | .div, .right => .power
  | .pow, .left => .base
  | .pow, .right => .power

inductive Shape where
  | leaf (value : Expr)
  | wrapped (op : Wrapper) (interior : List Char)
  | split (lhs : List Char) (op : Operator) (rhs : List Char)

def Shape.pieces : Shape → List (List Char)
  | .leaf _ => []
  | .wrapped _ interior => [interior]
  | .split lhs _ rhs => [lhs, rhs]

def call? : List Char → Option (List Char)
  | 'l' :: 'o' :: 'g' :: rest => Scan.group? rest
  | _ => none

def wrappedShape (text : List Char) (op : Wrapper) (interior : List Char) : Except Fault Shape :=
  if interior.isEmpty then .error (.whole .emptyGroup text)
  else .ok (.wrapped op interior)

def primaryShape (text : List Char) : Except Fault Shape :=
  match Scan.group? text with
  | some interior => wrappedShape text .paren interior
  | none =>
    if text = ['x'] then .ok (.leaf .var)
    else
      match Literal.ofText? text with
      | some v => .ok (.leaf (.literal v))
      | none => .error (.whole .unrecognized text)

def baseShape (text : List Char) : Except Fault Shape :=
  match call? text with
  | some _ => .error (.whole .bareLogBase text)
  | none => primaryShape text

def callShape (text : List Char) : Except Fault Shape :=
  match call? text with
  | some argument => wrappedShape text .log argument
  | none => primaryShape text

/-- Splits at an operator of one tier, or leaves the whole piece to a tighter one. Of two missing
operands the left one is reported. -/
def splitShape (side : Side) (ops : List Operator)
    (tighter : List Char → Except Fault Shape) (text : List Char) : Except Fault Shape :=
  match Scan.find side (ops.map Operator.symbol) text with
  | .error u =>
    .error (.atByte (.unpaired u.opening) text
      (Text.byteSize (text.take u.index)))
  | .ok none => tighter text
  | .ok (some p) =>
    let lhs := text.take p.index
    let op := Operator.ofSymbol p.char
    let rhs := text.drop (p.index + 1)
    if lhs.isEmpty then .error (.atByte (.missingOperand op .left) text (Text.byteSize lhs))
    else if rhs.isEmpty then .error (.atByte (.missingOperand op .right) text (Text.byteSize lhs))
    else .ok (.split lhs op rhs)

def powerShape : List Char → Except Fault Shape :=
  splitShape .left [.pow] callShape

def productShape : List Char → Except Fault Shape :=
  splitShape .right [.mul, .div] powerShape

def sumShape : List Char → Except Fault Shape :=
  splitShape .right [.add, .sub] productShape

def shape : Tier → List Char → Except Fault Shape
  | .sum => sumShape
  | .product => productShape
  | .power => powerShape
  | .base => baseShape
  | .primary => primaryShape

def Shrinks (text : List Char) (r : Except Fault Shape) : Prop :=
  ∀ s, r = .ok s → ∀ piece ∈ s.pieces, piece.length < text.length

theorem call?_length_lt {text argument : List Char} (h : call? text = some argument) :
    argument.length < text.length := by
  unfold call? at h
  split at h
  · have := Scan.group?_length_lt h
    simp only [List.length_cons]; omega
  · simp at h

theorem wrappedShape_shrinks {text interior : List Char} (op : Wrapper)
    (h : interior.length < text.length) : Shrinks text (wrappedShape text op interior) := by
  intro s hs
  unfold wrappedShape at hs
  split at hs
  · simp at hs
  · simp only [Except.ok.injEq] at hs
    subst hs
    simpa [Shape.pieces] using h

theorem primaryShape_shrinks (text : List Char) : Shrinks text (primaryShape text) := by
  unfold primaryShape
  split
  · next h => exact wrappedShape_shrinks _ (Scan.group?_length_lt h)
  · intro s hs
    split at hs
    · simp only [Except.ok.injEq] at hs
      subst hs
      simp [Shape.pieces]
    · split at hs
      · simp only [Except.ok.injEq] at hs
        subst hs
        simp [Shape.pieces]
      · simp at hs

theorem baseShape_shrinks (text : List Char) : Shrinks text (baseShape text) := by
  unfold baseShape
  split
  · simp [Shrinks]
  · exact primaryShape_shrinks text

theorem callShape_shrinks (text : List Char) : Shrinks text (callShape text) := by
  unfold callShape
  split
  · next h => exact wrappedShape_shrinks _ (call?_length_lt h)
  · exact primaryShape_shrinks text

theorem splitShape_shrinks {side : Side} {ops : List Operator}
    {tighter : List Char → Except Fault Shape} {text : List Char}
    (h : Shrinks text (tighter text)) : Shrinks text (splitShape side ops tighter text) := by
  unfold splitShape
  split
  · simp [Shrinks]
  · exact h
  · next p _ =>
    intro s hs
    dsimp only at hs
    split at hs
    · simp at hs
    · split at hs
      · simp at hs
      · next hl hr =>
        simp only [Except.ok.injEq] at hs
        subst hs
        simp only [List.isEmpty_iff] at hl hr
        have := List.length_pos_iff.2 hl
        have := List.length_pos_iff.2 hr
        simp only [List.length_take, List.length_drop] at *
        simp only [Shape.pieces, List.mem_cons, List.not_mem_nil, or_false]
        rintro piece (rfl | rfl) <;> simp only [List.length_take, List.length_drop] <;> omega

theorem shape_shrinks (tier : Tier) (text : List Char) : Shrinks text (shape tier text) := by
  have call := callShape_shrinks text
  cases tier with
  | sum => exact splitShape_shrinks (splitShape_shrinks (splitShape_shrinks call))
  | product => exact splitShape_shrinks (splitShape_shrinks call)
  | power => exact splitShape_shrinks call
  | base => exact baseShape_shrinks text
  | primary => exact primaryShape_shrinks text

end Parse

end Fluxion
