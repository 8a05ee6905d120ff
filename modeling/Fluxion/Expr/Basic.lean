import Fluxion.Expr.Operator

/-!
# Formulas in one variable

A power remembers which of its operands was constant when it was built; `Expr.power` decides this
once, and differentiation goes by it. All other nodes are built as they stand.
-/

set_option autoImplicit false

namespace Fluxion

/-- Which operand of a power is a literal, with its value; the exponent if both are. -/
inductive PowerKind where
  | literalExponent (c : Float)
  | literalBase (c : Float)
  | general

inductive Connective where
  | add
  | sub
  | mul
  | div
  | pow (form : PowerKind)

def Connective.operator : Connective → Operator
  | .add => .add
  | .sub => .sub
  | .mul => .mul
  | .div => .div
  | .pow _ => .pow

inductive Expr where
  | literal (value : Float)
  | var
  | unary (op : Wrapper) (operand : Expr)
  | binary (lhs : Expr) (op : Connective) (rhs : Expr)

namespace Expr

def log (operand : Expr) : Expr := .unary .log operand

def paren (operand : Expr) : Expr := .unary .paren operand

def sum (lhs rhs : Expr) : Expr := .binary lhs .add rhs

def difference (lhs rhs : Expr) : Expr := .binary lhs .sub rhs

def product (lhs rhs : Expr) : Expr := .binary lhs .mul rhs

def quotient (lhs rhs : Expr) : Expr := .binary lhs .div rhs

def asLiteral : Expr → Option Float
  | .literal v => some v
  | _ => none

/-- A literal exponent decides the form before a literal base does. -/
def powerKind (base exponent : Expr) : PowerKind :=
  match base.asLiteral, exponent.asLiteral with
  | _, some c => .literalExponent c
  | some c, none => .literalBase c
  | none, none => .general

def power (base exponent : Expr) : Expr :=
  .binary base (.pow (powerKind base exponent)) exponent

def copy : Expr → Expr
  | .literal v => .literal v
  | .var => .var
  | .unary op e => .unary op e.copy
  | .binary l op r => .binary l.copy op r.copy

theorem copy_eq (e : Expr) : e.copy = e := by
  induction e with
  | literal => rfl
  | var => rfl
  | unary op e ih => rw [copy, ih]
  | binary l op r ihl ihr => rw [copy, ihl, ihr]

def combine : Operator → Expr → Expr → Expr
  | .add => sum
  | .sub => difference
  | .mul => product
  | .div => quotient
  | .pow => power

def evaluate (x : Float) : Expr → Float
  | .literal v => v
  | .var => x
  | .unary op e => op.apply (e.evaluate x)
  | .binary l op r => op.operator.apply (l.evaluate x) (r.evaluate x)

def depth : Expr → Nat
  | .literal _ | .var => 1
  | .unary _ e => 1 + e.depth
  | .binary l _ r => 1 + max l.depth r.depth

def precedence : Expr → Precedence
  | .literal _ | .var | .unary _ _ => .primary
  | .binary _ op _ => op.operator.precedence

end Expr

/-- Equality of forms compares constants as numbers: `-0 = 0`, and `NaN` differs from itself. -/
def PowerKind.beq : PowerKind → PowerKind → Bool
  | .literalExponent c, .literalExponent d => c == d
  | .literalBase c, .literalBase d => c == d
  | .general, .general => true
  | _, _ => false

def Connective.beq : Connective → Connective → Bool
  | .pow f, .pow g => f.beq g
  | o, p => o.operator == p.operator

def Expr.beq : Expr → Expr → Bool
  | .literal v, .literal w => v == w
  | .var, .var => true
  | .unary o a, .unary p b => o == p && a.beq b
  | .binary l o r, .binary l' o' r' => l.beq l' && o.beq o' && r.beq r'
  | _, _ => false

instance : BEq Expr := ⟨Expr.beq⟩

end Fluxion
