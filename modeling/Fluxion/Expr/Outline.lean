import Fluxion.Expr.Basic
import Fluxion.Literal.Basic

/-!
# Formulas in text

On one line, an operand is put in parentheses where it would be read differently without them: below
a tighter operator, beside an operator of the same precedence on the side that does not repeat, and
as the base of a power unless it is a literal, the variable or already in parentheses.

An outline has one line for each node, the operands below their operator and one tab further in.
-/

set_option autoImplicit false

namespace Fluxion

def Wrapper.sign : Wrapper → List Char
  | .log => "log()".toList
  | .paren => "()".toList

namespace Expr

def needsParens (op : Operator) (side : Side) (operand : Expr) : Bool :=
  match op, side, operand with
  | .pow, .left, .literal _ | .pow, .left, .var | .pow, .left, .unary .paren _ => false
  | .pow, .left, _ => true
  | _, _, _ =>
    let rank := operand.precedence.rank
    rank < op.precedence.rank || (side != op.associativity && rank == op.precedence.rank)

def bracket (yes : Bool) (text : List Char) : List Char :=
  if yes then '(' :: text ++ [')'] else text

def text : Expr → List Char
  | .literal v => Literal.text v
  | .var => ['x']
  | .unary op e => op.opening ++ e.text ++ [')']
  | .binary l op r =>
    bracket (needsParens op.operator .left l) l.text ++
      op.operator.symbol :: bracket (needsParens op.operator .right r) r.text

def heading : Expr → List Char
  | .literal v => Literal.outlineText v
  | .var => ['x']
  | .unary op _ => op.sign
  | .binary _ op _ => [op.operator.symbol]

def outlineItems (indent : Nat) : Expr → List (Nat × List Char)
  | .literal v => [(indent, heading (.literal v))]
  | .var => [(indent, heading .var)]
  | .unary op e => (indent, heading (.unary op e)) :: e.outlineItems (indent + 1)
  | .binary l op r =>
    (indent, heading (.binary l op r)) ::
      (l.outlineItems (indent + 1) ++ r.outlineItems (indent + 1))

def outline (indent : Nat) (e : Expr) : List Char :=
  (e.outlineItems indent).flatMap fun item => List.replicate item.1 '\t' ++ item.2 ++ ['\n']

end Expr

end Fluxion
