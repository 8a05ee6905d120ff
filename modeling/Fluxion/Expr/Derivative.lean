import Fluxion.Expr.Outline
import Fluxion.Logged

/-!
# Derivatives

The rules of differentiation on trees, without any simplification. A power is differentiated by its
form: the power rule for a constant exponent, the exponential rule for a constant base, and none
when both operands vary.
-/

set_option autoImplicit false

namespace Fluxion

structure RulelessPower where
  base : List Char
  exponent : List Char
  deriving DecidableEq, Repr

namespace RulelessPower

def diagnostic (e : RulelessPower) : Diagnostic :=
  { message := "cannot differentiate `(" ++ String.ofList e.base ++ ")^(" ++
      String.ofList e.exponent ++ ")`"
    label := "this expression contains a power whose base and exponent are both non-constant"
    help := some ("only powers with a literal base (" ++ highlight "2^x" ++
      ") or a literal exponent (" ++ highlight "x^2" ++ ") can be differentiated") }

def record (e : RulelessPower) : Record :=
  ⟨.debug, "cannot differentiate " ++ String.ofList e.base ++ "^" ++ String.ofList e.exponent⟩

end RulelessPower

namespace Expr

/-- The derivative, or the first power without a rule. The right factor of a product is
differentiated before the left one. -/
def derivative : Expr → Logged RulelessPower RulelessPower Expr
  | .literal _ => pure (.literal 0.0)
  | .var => pure (.literal 1.0)
  | .unary .paren g => do
    let g' ← g.derivative
    pure (paren g')
  | .unary .log g => do
    let g' ← g.derivative
    pure (quotient g' g)
  | .binary g .add h => do
    let g' ← g.derivative
    let h' ← h.derivative
    pure (sum g' h')
  | .binary g .sub h => do
    let g' ← g.derivative
    let h' ← h.derivative
    pure (difference g' h')
  | .binary g .mul h => do
    let h' ← h.derivative
    let g' ← g.derivative
    pure (sum (product g h') (product g' h))
  | .binary g .div h => do
    let g' ← g.derivative
    let h' ← h.derivative
    pure (difference (quotient g' h) (product g (quotient h' (power h (.literal 2.0)))))
  | .binary g (.pow (.literalExponent c)) _ => do
    let g' ← g.derivative
    pure (product (product (.literal c) (power g (.literal (c - 1.0)))) g')
  | .binary _ (.pow (.literalBase c)) h => do
    let h' ← h.derivative
    pure (product (product (log (.literal c)) (power (.literal c) h)) h')
  | .binary g (.pow .general) h => do
    let e : RulelessPower := ⟨g.text, h.text⟩
    Logged.note e
    Logged.fail e

def iteratedDerivative : Nat → Expr → Logged RulelessPower RulelessPower Expr
  | 0, e => pure e
  | n + 1, e => do
    let e' ← e.derivative
    iteratedDerivative n e'

end Expr

end Fluxion
