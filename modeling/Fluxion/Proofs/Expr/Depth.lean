import Fluxion.Proofs.Expr.Rules
import Mathlib.Algebra.Group.Nat.Defs

/-!
# How deep derivatives are

A rule puts operands and their derivatives below a few new nodes. The quotient rule reaches deepest:
it puts the derivative of the denominator three levels down. So a derivative is less than three
times as deep as its formula, and from depth two on there are formulas of every depth that leave no
room below this bound.
-/

set_option autoImplicit false

namespace Fluxion.Expr

theorem Differentiates.depth_lt {e d : Expr} (h : Differentiates e d) : d.depth < 3 * e.depth := by
  induction h with
  | literal v =>
    simp only [Expr.depth]
    decide
  | var => decide
  | paren _ ih =>
    simp only [Expr.paren, Expr.depth]
    omega
  | log _ ih =>
    simp only [Expr.log, Expr.quotient, Expr.depth]
    omega
  | sum _ _ ihg ihh =>
    simp only [Expr.sum, Expr.depth]
    omega
  | difference _ _ ihg ihh =>
    simp only [Expr.difference, Expr.depth]
    omega
  | product _ _ ihg ihh =>
    simp only [Expr.sum, Expr.product, Expr.depth]
    omega
  | quotient _ _ ihg ihh =>
    simp only [Expr.difference, Expr.quotient, Expr.product, Expr.power, Expr.depth]
    omega
  | power c _ ih =>
    simp only [Expr.product, Expr.power, Expr.depth]
    omega
  | exponential c _ _ ih =>
    simp only [Expr.product, Expr.log, Expr.power, Expr.depth]
    omega

theorem Built.depth_derivative {e d : Expr} (h : e.Built) (hd : e.derivative.outcome = .ok d) :
    d.depth < 3 * e.depth :=
  (h.differentiates hd).depth_lt

theorem Built.depth_iteratedDerivative {n : Nat} {e d : Expr} (h : e.Built)
    (hd : (Expr.iteratedDerivative n e).outcome = .ok d) : d.depth ≤ 3 ^ n * e.depth := by
  induction n generalizing e with
  | zero =>
    obtain rfl := Except.ok.inj hd
    omega
  | succ n ih =>
    obtain ⟨e', he, hd⟩ := Logged.ok_of_bind_ok hd
    have hstep := h.depth_derivative he
    calc d.depth ≤ 3 ^ n * e'.depth := ih (h.derivative he) hd
      _ ≤ 3 ^ n * (3 * e.depth) := Nat.mul_le_mul_left _ (Nat.le_of_lt hstep)
      _ = 3 ^ (n + 1) * e.depth := by rw [Nat.pow_succ, Nat.mul_assoc]

def fractions : Nat → Expr
  | 0 => .var
  | n + 1 => quotient .var (fractions n)

theorem built_fractions (n : Nat) : (fractions n).Built := by
  induction n with
  | zero => exact .var
  | succ n ih => exact .combine .div .var ih

theorem depth_fractions (n : Nat) : (fractions n).depth = n + 1 := by
  induction n with
  | zero => rfl
  | succ n ih =>
    simp only [fractions, quotient, depth, ih]
    omega

theorem derivative_quotient {g g' h h' : Expr} (hg : g.derivative.outcome = .ok g')
    (hh : h.derivative.outcome = .ok h') :
    (quotient g h).derivative.outcome =
      .ok (difference (quotient g' h) (product g (quotient h' (power h (.literal 2.0))))) :=
  (Logged.outcome_bind_ok hg).trans (Logged.outcome_bind_ok hh)

/-- From the first division on, every further one puts its derivative three levels down. -/
theorem derivative_fractions (n : Nat) :
    ∃ d, (fractions (n + 1)).derivative.outcome = .ok d ∧ d.depth = 3 * n + 5 := by
  induction n with
  | zero => exact ⟨_, rfl, rfl⟩
  | succ n ih =>
    obtain ⟨d, hd, hdepth⟩ := ih
    refine ⟨_, derivative_quotient rfl hd, ?_⟩
    simp only [difference, quotient, product, power, depth, depth_fractions, hdepth]
    omega

/-- A derivative is at most three times as deep as its formula, less one. For every depth from two
on there is a formula whose derivative is as deep as that. So a row of `n` derivatives is at most
`3^n` times as deep as the formula. -/
theorem derivative_depth_bounded :
    (∀ e d : Expr, e.Built → e.derivative.outcome = .ok d → d.depth ≤ 3 * e.depth - 1) ∧
    (∀ k, 2 ≤ k → ∃ e d : Expr, e.Built ∧ e.depth = k ∧ e.derivative.outcome = .ok d ∧
      d.depth = 3 * k - 1) ∧
    ∀ n (e d : Expr), e.Built → (iteratedDerivative n e).outcome = .ok d →
      d.depth ≤ 3 ^ n * e.depth := by
  refine ⟨?_, ?_, ?_⟩
  · intro e d he hd
    exact Nat.le_sub_one_of_lt (he.depth_derivative hd)
  · intro k hk
    obtain ⟨n, rfl⟩ : ∃ n, k = n + 2 := ⟨k - 2, by omega⟩
    obtain ⟨d, hd, hdepth⟩ := derivative_fractions n
    refine ⟨_, d, built_fractions (n + 1), depth_fractions (n + 1), hd, ?_⟩
    rw [hdepth]
    omega
  · intro n e d he hd
    exact he.depth_iteratedDerivative hd

end Fluxion.Expr
