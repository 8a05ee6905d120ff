import Fluxion.Proofs.Expr.PowerForm
import Fluxion.Proofs.Parse.RoundTrip

/-!
# Formulas obtained in any way

Formulas come from the constructors, from parsing, from copying and from differentiation, in any
order. All of these build powers through the one constructor, so the form that a power keeps is
right wherever the power came from.
-/

set_option autoImplicit false

namespace Fluxion

namespace Expr

/-- What any row of constructions, parses, copies and differentiations yields. -/
inductive Obtained : Expr → Prop
  | literal (v : Float) : Obtained (.literal v)
  | var : Obtained .var
  | wrap (op : Wrapper) {e : Expr} (he : Obtained e) : Obtained (.unary op e)
  | combine (op : Operator) {l r : Expr} (hl : Obtained l) (hr : Obtained r) :
      Obtained (combine op l r)
  | parsed {limit : Nat} {given : List Char} {e : Expr} (h : (parse limit given).outcome = .ok e) :
      Obtained e
  | copy {e : Expr} (he : Obtained e) : Obtained e.copy
  | derivative {e d : Expr} (he : Obtained e) (h : e.derivative.outcome = .ok d) : Obtained d

theorem Obtained.built {e : Expr} (h : Obtained e) : e.Built := by
  induction h with
  | literal v => exact .literal v
  | var => exact .var
  | wrap op _ ih => exact .wrap op ih
  | combine op _ _ ihl ihr => exact .combine op ihl ihr
  | parsed h => exact (plain_of_parse h).1
  | @copy e _ ih =>
    rw [copy_eq]
    exact ih
  | derivative _ h ih => exact ih.derivative h

/-- Wherever a formula comes from, every power in it has the form that its operands decide: that of
a constant exponent if the exponent is a literal, else that of a constant base if the base is one,
each with the literal's value, and the general form if neither is. -/
theorem power_form_agrees {e l r : Expr} {form : PowerKind} (h : Obtained e)
    (hw : Within (.binary l (.pow form) r) e) :
    (∀ c, form = .literalExponent c ↔ r = .literal c) ∧
    (∀ c, form = .literalBase c ↔ r.asLiteral = none ∧ l = .literal c) ∧
    (form = .general ↔ l.asLiteral = none ∧ r.asLiteral = none) := by
  rw [← (h.built.part hw).form]
  exact powerKind_agrees l r

theorem power_form_agrees_in_derivative :
    ∃ e d, (parse 9 "log(x)/x".toList).outcome = .ok e ∧ e.derivative.outcome = .ok d ∧
      Within (.binary .var (.pow (.literalExponent 2.0)) (.literal 2.0)) d ∧
      ∀ c, PowerKind.literalExponent 2.0 = .literalExponent c ↔ Expr.literal 2.0 = .literal c := by
  have he : (parse 9 "log(x)/x".toList).outcome = .ok (quotient (log .var) .var) := by
    with_unfolding_all rfl
  have hw : Within (.binary .var (.pow (.literalExponent 2.0)) (.literal 2.0))
      (difference (quotient (quotient (.literal 1.0) .var) .var)
        (product (log .var) (quotient (.literal 1.0) (power .var (.literal 2.0))))) :=
    .right (.right (.right .self))
  exact ⟨_, _, he, rfl, hw, (power_form_agrees (.derivative (.parsed he) rfl) hw).1⟩

end Expr

end Fluxion
