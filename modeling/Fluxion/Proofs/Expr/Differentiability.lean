import Fluxion.Proofs.Expr.FirstRuleless
import Fluxion.Proofs.Expr.Repeated

/-!
# Which formulas can be differentiated

A formula has a derivative if it has no power without a rule, wherever in it. The rules make no
such power, so a formula that can be differentiated once can be differentiated any number of times.
-/

set_option autoImplicit false

namespace Fluxion

namespace Expr

def HasRuleless (e : Expr) : Prop := ∃ l r, Ruleless l r e

@[simp] theorem not_hasRuleless_literal (v : Float) : ¬ (literal v).HasRuleless := by
  rintro ⟨l, r, ⟨form, hw⟩, _, _⟩
  cases hw

@[simp] theorem not_hasRuleless_var : ¬ var.HasRuleless := by
  rintro ⟨l, r, ⟨form, hw⟩, _, _⟩
  cases hw

@[simp] theorem hasRuleless_unary (op : Wrapper) (e : Expr) :
    (unary op e).HasRuleless ↔ e.HasRuleless := by
  constructor
  · rintro ⟨l, r, ⟨form, hw⟩, hl, hr⟩
    cases hw with
    | operand hw => exact ⟨l, r, ⟨form, hw⟩, hl, hr⟩
  · rintro ⟨l, r, h⟩
    exact ⟨l, r, h.operand op⟩

@[simp] theorem hasRuleless_binary (a : Expr) (c : Connective) (b : Expr) :
    (binary a c b).HasRuleless ↔
      (c.operator = .pow ∧ a.asLiteral = none ∧ b.asLiteral = none) ∨
        a.HasRuleless ∨ b.HasRuleless := by
  constructor
  · rintro ⟨l, r, ⟨form, hw⟩, hl, hr⟩
    cases hw with
    | self => exact .inl ⟨rfl, hl, hr⟩
    | left hw => exact .inr (.inl ⟨l, r, ⟨form, hw⟩, hl, hr⟩)
    | right hw => exact .inr (.inr ⟨l, r, ⟨form, hw⟩, hl, hr⟩)
  · rintro (⟨hop, ha, hb⟩ | ⟨l, r, h⟩ | ⟨l, r, h⟩)
    · cases c with
      | pow form => exact ⟨a, b, ⟨form, .self⟩, ha, hb⟩
      | _ => cases hop
    · exact ⟨l, r, h.within.imp fun _ hw => hw.left, h.base, h.exponent⟩
    · exact ⟨l, r, h.within.imp fun _ hw => hw.right, h.base, h.exponent⟩

section
variable (a b : Expr)

@[simp] theorem hasRuleless_paren : (paren a).HasRuleless ↔ a.HasRuleless :=
  hasRuleless_unary .paren a

@[simp] theorem hasRuleless_log : (log a).HasRuleless ↔ a.HasRuleless :=
  hasRuleless_unary .log a

@[simp] theorem hasRuleless_sum : (sum a b).HasRuleless ↔ a.HasRuleless ∨ b.HasRuleless := by
  simp [sum, Connective.operator]

@[simp] theorem hasRuleless_difference :
    (difference a b).HasRuleless ↔ a.HasRuleless ∨ b.HasRuleless := by
  simp [difference, Connective.operator]

@[simp] theorem hasRuleless_product :
    (product a b).HasRuleless ↔ a.HasRuleless ∨ b.HasRuleless := by
  simp [product, Connective.operator]

@[simp] theorem hasRuleless_quotient :
    (quotient a b).HasRuleless ↔ a.HasRuleless ∨ b.HasRuleless := by
  simp [quotient, Connective.operator]

@[simp] theorem hasRuleless_power :
    (power a b).HasRuleless ↔
      (a.asLiteral = none ∧ b.asLiteral = none) ∨ a.HasRuleless ∨ b.HasRuleless := by
  simp [power, Connective.operator]

end

theorem Differentiates.not_hasRuleless {e d : Expr} (h : Differentiates e d) :
    ¬ e.HasRuleless ∧ ¬ d.HasRuleless := by
  induction h with
  | literal v => simp
  | var => simp
  | paren _ ih => simpa using ih
  | log _ ih => simp [ih]
  | sum _ _ ihg ihh => simp [ihg, ihh]
  | difference _ _ ihg ihh => simp [ihg, ihh]
  | product _ _ ihg ihh => simp [ihg, ihh]
  | quotient _ _ ihg ihh => simp [ihg, ihh, asLiteral]
  | power c _ ih => simp [ih, asLiteral]
  | exponential c hn _ ih => simp [ih, asLiteral]

theorem Built.derivative_error_iff {e : Expr} (h : e.Built) :
    (∃ f, e.derivative.outcome = .error f) ↔ e.HasRuleless := by
  constructor
  · rintro ⟨f, hf⟩
    obtain ⟨l, r, hr, _⟩ := h.ruleless hf
    exact ⟨l, r, hr⟩
  · intro hr
    cases hd : e.derivative.outcome with
    | error f => exact ⟨f, rfl⟩
    | ok d => exact absurd hr (h.differentiates hd).not_hasRuleless.1

theorem Built.iteratedDerivative_ok {e : Expr} (h : e.Built) (hr : ¬ e.HasRuleless) (n : Nat) :
    ∃ d, (Expr.iteratedDerivative n e).outcome = .ok d := by
  cases hd : e.derivative.outcome with
  | error f => exact absurd (h.derivative_error_iff.1 ⟨f, hd⟩) hr
  | ok d => exact Derivable.iteratedDerivative ⟨d, hd⟩ n

end Expr

/-- Differentiation fails exactly on the formulas with a power, anywhere in them, of two operands
that are no literals, and its failure quotes such a power. A derivative has no such power, so all
further derivatives exist: repeated differentiation fails in its first step or never. -/
theorem derivative_fails_iff {e : Expr} (h : e.Built) :
    ((∃ f, e.derivative.outcome = .error f) ↔ ∃ l r, Expr.Ruleless l r e) ∧
      (∀ f, e.derivative.outcome = .error f →
        ∃ l r, Expr.Ruleless l r e ∧ f = ⟨l.text, r.text⟩) ∧
      (∀ d, e.derivative.outcome = .ok d →
        (¬ ∃ l r, Expr.Ruleless l r d) ∧
          ∀ n, ∃ d', (Expr.iteratedDerivative n e).outcome = .ok d') ∧
      ∀ n, (∃ f, (Expr.iteratedDerivative (n + 1) e).outcome = .error f) ↔
        ∃ f, e.derivative.outcome = .error f := by
  refine ⟨h.derivative_error_iff, fun f => h.ruleless, ?_, ?_⟩
  · intro d hd
    obtain ⟨he, hd⟩ := (h.differentiates hd).not_hasRuleless
    exact ⟨hd, h.iteratedDerivative_ok he⟩
  · intro n
    constructor
    · rintro ⟨f, hf⟩
      refine h.derivative_error_iff.2 (Classical.byContradiction fun hr => ?_)
      obtain ⟨d, hd⟩ := h.iteratedDerivative_ok hr (n + 1)
      cases hd.symm.trans hf
    · rintro ⟨f, hf⟩
      exact ⟨f, Logged.outcome_bind_error hf⟩

theorem derivative_fails_below_log :
    (Expr.quotient .var (.log (.power .var (.paren .var)))).Built ∧
      ∃ f, (Expr.quotient .var (.log (.power .var (.paren .var)))).derivative.outcome = .error f :=
  have h : (Expr.quotient .var (.log (.power .var (.paren .var)))).Built :=
    .combine .div .var (.wrap .log (.combine .pow .var (.wrap .paren .var)))
  ⟨h, (derivative_fails_iff h).1.2 ⟨_, _, ⟨_, .right (.operand .self)⟩, rfl, rfl⟩⟩

end Fluxion
