/-!
# Operators

The five binary operators of a formula, how tightly each binds and on which side it repeats without
parentheses, and the two ways of wrapping an operand.
-/

set_option autoImplicit false

namespace Fluxion

inductive Side where
  | left
  | right
  deriving DecidableEq, Repr

inductive Precedence where
  | term
  | factor
  | exp
  | primary
  deriving DecidableEq, Repr

def Precedence.rank : Precedence → Nat
  | .term => 0
  | .factor => 1
  | .exp => 2
  | .primary => 3

inductive Operator where
  | add
  | sub
  | mul
  | div
  | pow
  deriving DecidableEq, Repr

namespace Operator

def symbol : Operator → Char
  | .add => '+'
  | .sub => '-'
  | .mul => '*'
  | .div => '/'
  | .pow => '^'

def precedence : Operator → Precedence
  | .add | .sub => .term
  | .mul | .div => .factor
  | .pow => .exp

/-- The side on which operators of one precedence nest without parentheses. -/
def associativity : Operator → Side
  | .pow => .right
  | _ => .left

def apply : Operator → Float → Float → Float
  | .add, a, b => a + b
  | .sub, a, b => a - b
  | .mul, a, b => a * b
  | .div, a, b => a / b
  | .pow, a, b => a.pow b

end Operator

inductive Wrapper where
  | log
  | paren
  deriving DecidableEq, Repr

namespace Wrapper

def opening : Wrapper → List Char
  | .log => ['l', 'o', 'g', '(']
  | .paren => ['(']

def apply : Wrapper → Float → Float
  | .log, a => a.log
  | .paren, a => a

end Wrapper

end Fluxion
