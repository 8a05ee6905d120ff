import Fluxion.Logged
import Fluxion.Parse.Shape
import Fluxion.Text.Stripped

/-!
# Reading formulas

A text is stripped of its blanks and then read from the outside in, one shape at a time. Every
operator and every pair of parentheses takes one level of the room that the limit gives. Each piece
knows the span that it covers, so that notes and faults speak of the whole stripped text.
-/

set_option autoImplicit false

namespace Fluxion

namespace Parse

def interiorSpan (op : Wrapper) (span : Text.Span) : Text.Span :=
  ⟨span.start + Text.byteSize op.opening, span.stop - 1⟩

def refuse {α : Type} (start : Nat) (f : Fault) : Logged Note Fault α :=
  ⟨[.refused f.toRefusal], .error (f.shift start)⟩

/-- Reads the piece that covers a span at a tier, with room for so many levels more. -/
def read (limit room : Nat) (tier : Tier) (span : Text.Span) (text : List Char) :
    Logged Note Fault Expr :=
  match _h : shape tier text with
  | .error f => refuse span.start f
  | .ok (.leaf e) => pure e
  | .ok (.wrapped op interior) =>
    let inside := interiorSpan op span
    match room with
    | 0 => refuse inside.start (.whole (.tooDeep limit) interior)
    | room + 1 => do
      let e ← read limit room .sum inside interior
      pure (.unary op e)
  | .ok (.split lhs op rhs) => do
    let byte := span.start + Text.byteSize lhs
    Logged.note (.split span op byte)
    match room with
    | 0 => refuse span.start (.whole (.tooDeep limit) text)
    | room + 1 =>
      let l ← read limit room (operandTier op .left) (span.before byte) lhs
      let r ← read limit room (operandTier op .right) (span.behind byte) rhs
      pure (Expr.combine op l r)
termination_by text.length
decreasing_by
  all_goals
    have := shape_shrinks tier text _ _h
    simp only [Shape.pieces, List.mem_cons, List.not_mem_nil, or_false, forall_eq_or_imp,
      forall_eq] at this
    omega

section
variable {limit room : Nat} {tier : Tier} {span : Text.Span} {text : List Char}

theorem read_error {f : Fault} (h : shape tier text = .error f) :
    read limit room tier span text = refuse span.start f := by
  rw [read]; split <;> simp_all

theorem read_leaf {e : Expr} (h : shape tier text = .ok (.leaf e)) :
    read limit room tier span text = pure e := by
  rw [read]; split <;> simp_all

theorem read_wrapped_zero {op : Wrapper} {interior : List Char}
    (h : shape tier text = .ok (.wrapped op interior)) :
    read limit 0 tier span text =
      refuse (interiorSpan op span).start (.whole (.tooDeep limit) interior) := by
  rw [read]; split <;> simp_all

theorem read_wrapped {op : Wrapper} {interior : List Char}
    (h : shape tier text = .ok (.wrapped op interior)) :
    read limit (room + 1) tier span text = (do
      let e ← read limit room .sum (interiorSpan op span) interior
      pure (.unary op e)) := by
  rw [read]; split <;> simp_all

theorem read_split_zero {lhs rhs : List Char} {op : Operator}
    (h : shape tier text = .ok (.split lhs op rhs)) :
    read limit 0 tier span text = (do
      Logged.note (.split span op (span.start + Text.byteSize lhs))
      refuse span.start (.whole (.tooDeep limit) text)) := by
  rw [read]; split <;> simp_all

theorem read_split {lhs rhs : List Char} {op : Operator}
    (h : shape tier text = .ok (.split lhs op rhs)) :
    read limit (room + 1) tier span text = (do
      Logged.note (.split span op (span.start + Text.byteSize lhs))
      let byte := span.start + Text.byteSize lhs
      let l ← read limit room (operandTier op .left) (span.before byte) lhs
      let r ← read limit room (operandTier op .right) (span.behind byte) rhs
      pure (Expr.combine op l r)) := by
  rw [read]; split <;> simp_all

end

def readAll (limit : Nat) (text : List Char) : Logged Note Fault Expr :=
  if text.isEmpty then refuse 0 (.whole .empty text) else read limit limit .sum (.whole text) text

def defaultLimit : Nat := 256

end Parse

/-- Reads a formula. A fault points into the text as it was given; notes speak of the stripped
text. -/
def parse (limit : Nat) (given : List Char) : Logged Parse.Note Parse.Fault Expr :=
  let stripped := Text.Stripped.ofText given
  (Parse.readAll limit stripped.text).mapError fun f => { f with span := stripped.origin f.span }

end Fluxion
