import Fluxion.Proofs.Expr.Rules

/-!
# Derivatives of derivatives

A derivative is built of parts that were differentiated on the way to it, so it can be
differentiated again. A row of derivatives ends with its first step or not at all.
-/

set_option autoImplicit false

namespace Fluxion.Expr

def Derivable (e : Expr) : Prop := e.derivative.Succeeds

theorem derivable_literal (v : Float) : (literal v).Derivable := ⟨_, rfl⟩

section
variable {l r : Expr}

theorem derivable_paren : (paren l).Derivable ↔ l.Derivable := Logged.succeeds_then_pure

theorem derivable_log : (log l).Derivable ↔ l.Derivable := Logged.succeeds_then_pure

theorem derivable_sum : (sum l r).Derivable ↔ l.Derivable ∧ r.Derivable := Logged.succeeds_both

theorem derivable_difference : (difference l r).Derivable ↔ l.Derivable ∧ r.Derivable :=
  Logged.succeeds_both

theorem derivable_product : (product l r).Derivable ↔ l.Derivable ∧ r.Derivable :=
  Logged.succeeds_both.trans and_comm

theorem derivable_quotient : (quotient l r).Derivable ↔ l.Derivable ∧ r.Derivable :=
  Logged.succeeds_both

theorem derivable_power (c : Float) : (power l (.literal c)).Derivable ↔ l.Derivable := by
  rw [Derivable, derivative_power]
  exact Logged.succeeds_then_pure

theorem derivable_exponential (c : Float) (h : r.Derivable) :
    (power (.literal c) r).Derivable := by
  cases hr : r.asLiteral with
  | some d =>
    rw [eq_literal hr, derivable_power]
    exact derivable_literal c
  | none =>
    rw [Derivable, derivative_exponential c hr]
    exact Logged.succeeds_then_pure.2 h

end

/-- What was differentiated can be differentiated again, whatever forms its powers have. -/
theorem derivable_derivative {e d : Expr} (h : e.derivative.outcome = .ok d) : d.Derivable := by
  induction e generalizing d with
  | literal v => exact Except.ok.inj h ▸ derivable_literal _
  | var => exact Except.ok.inj h ▸ derivable_literal _
  | unary op g ih =>
    cases op with
    | paren =>
      obtain ⟨g', hg, h⟩ := Logged.ok_of_bind_ok h
      exact Except.ok.inj h ▸ derivable_paren.2 (ih hg)
    | log =>
      obtain ⟨g', hg, h⟩ := Logged.ok_of_bind_ok h
      exact Except.ok.inj h ▸ derivable_quotient.2 ⟨ih hg, g', hg⟩
  | binary l op r ihl ihr =>
    cases op with
    | add =>
      obtain ⟨l', r', hl, hr, rfl⟩ := Logged.ok_of_both h
      exact derivable_sum.2 ⟨ihl hl, ihr hr⟩
    | sub =>
      obtain ⟨l', r', hl, hr, rfl⟩ := Logged.ok_of_both h
      exact derivable_difference.2 ⟨ihl hl, ihr hr⟩
    | mul =>
      obtain ⟨r', l', hr, hl, rfl⟩ := Logged.ok_of_both h
      have hleft : (product l r').Derivable := derivable_product.2 ⟨⟨l', hl⟩, ihr hr⟩
      have hright : (product l' r).Derivable := derivable_product.2 ⟨ihl hl, r', hr⟩
      exact derivable_sum.2 ⟨hleft, hright⟩
    | div =>
      obtain ⟨l', r', hl, hr, rfl⟩ := Logged.ok_of_both h
      have hsquare : (power r (.literal 2.0)).Derivable := (derivable_power 2.0).2 ⟨r', hr⟩
      have hinner : (quotient r' (power r (.literal 2.0))).Derivable :=
        derivable_quotient.2 ⟨ihr hr, hsquare⟩
      have hleft : (quotient l' r).Derivable := derivable_quotient.2 ⟨ihl hl, r', hr⟩
      exact derivable_difference.2 ⟨hleft, derivable_product.2 ⟨⟨l', hl⟩, hinner⟩⟩
    | pow form =>
      cases form with
      | literalExponent c =>
        obtain ⟨l', hl, h⟩ := Logged.ok_of_bind_ok h
        have hpower : (power l (.literal (c - 1.0))).Derivable := (derivable_power _).2 ⟨l', hl⟩
        have hscaled : (product (.literal c) (power l (.literal (c - 1.0)))).Derivable :=
          derivable_product.2 ⟨derivable_literal c, hpower⟩
        exact Except.ok.inj h ▸ derivable_product.2 ⟨hscaled, ihl hl⟩
      | literalBase c =>
        obtain ⟨r', hr, h⟩ := Logged.ok_of_bind_ok h
        have hlog : (log (.literal c)).Derivable := derivable_log.2 (derivable_literal c)
        have hscaled : (product (log (.literal c)) (power (.literal c) r)).Derivable :=
          derivable_product.2 ⟨hlog, derivable_exponential c ⟨r', hr⟩⟩
        exact Except.ok.inj h ▸ derivable_product.2 ⟨hscaled, ihr hr⟩
      | general => cases h

theorem Derivable.iteratedDerivative {e : Expr} (h : e.Derivable) (n : Nat) :
    (iteratedDerivative n e).Succeeds := by
  induction n generalizing e with
  | zero => exact ⟨e, rfl⟩
  | succ n ih =>
    obtain ⟨d, hd⟩ := h
    obtain ⟨d', hd'⟩ := ih (derivable_derivative hd)
    exact ⟨d', (Logged.outcome_bind_ok hd).trans hd'⟩

theorem iteratedDerivative_error {e : Expr} {f : RulelessPower}
    (h : e.derivative.outcome = .error f) {n : Nat} (hn : 1 ≤ n) :
    (iteratedDerivative n e).outcome = .error f := by
  obtain ⟨m, rfl⟩ : ∃ m, n = m + 1 := ⟨n - 1, by omega⟩
  exact Logged.outcome_bind_error h

theorem derivable_of_iteratedDerivative {e d : Expr} {n : Nat} (hn : 1 ≤ n)
    (h : (iteratedDerivative n e).outcome = .ok d) : e.Derivable ∧ d.Derivable := by
  induction n generalizing e with
  | zero => omega
  | succ n ih =>
    obtain ⟨d', hd, h⟩ := Logged.ok_of_bind_ok h
    refine ⟨⟨d', hd⟩, ?_⟩
    cases n with
    | zero => exact Except.ok.inj h ▸ derivable_derivative hd
    | succ n => exact (ih (by omega) h).2

end Fluxion.Expr
