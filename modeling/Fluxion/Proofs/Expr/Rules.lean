import Fluxion.Expr.Derivative
import Fluxion.Proofs.Expr.Grouping
import Fluxion.Proofs.Logged

/-!
# The rules of differentiation

`Differentiates` has one rule for each kind of node. A formula that the constructors build is
differentiated by these rules, or else there is a power in it with two operands that are no
literals. The rules stay among the formulas that the constructors build.
-/

set_option autoImplicit false

namespace Fluxion.Expr

inductive Differentiates : Expr → Expr → Prop
  | literal (v : Float) : Differentiates (.literal v) (.literal 0.0)
  | var : Differentiates .var (.literal 1.0)
  | paren {g g' : Expr} (hg : Differentiates g g') : Differentiates (paren g) (paren g')
  | log {g g' : Expr} (hg : Differentiates g g') : Differentiates (log g) (quotient g' g)
  | sum {g g' h h' : Expr} (hg : Differentiates g g') (hh : Differentiates h h') :
      Differentiates (sum g h) (sum g' h')
  | difference {g g' h h' : Expr} (hg : Differentiates g g') (hh : Differentiates h h') :
      Differentiates (difference g h) (difference g' h')
  | product {g g' h h' : Expr} (hg : Differentiates g g') (hh : Differentiates h h') :
      Differentiates (product g h) (sum (product g h') (product g' h))
  | quotient {g g' h h' : Expr} (hg : Differentiates g g') (hh : Differentiates h h') :
      Differentiates (quotient g h)
        (difference (quotient g' h) (product g (quotient h' (power h (.literal 2.0)))))
  | power {g g' : Expr} (c : Float) (hg : Differentiates g g') :
      Differentiates (power g (.literal c))
        (product (product (.literal c) (power g (.literal (c - 1.0)))) g')
  | exponential {h h' : Expr} (c : Float) (hn : h.asLiteral = none) (hh : Differentiates h h') :
      Differentiates (power (.literal c) h)
        (product (product (log (.literal c)) (power (.literal c) h)) h')

theorem combine_eq_binary (op : Operator) (l r : Expr) :
    ∃ c, c.operator = op ∧ combine op l r = .binary l c r := by
  cases op <;> exact ⟨_, rfl, rfl⟩

inductive Within (a : Expr) : Expr → Prop
  | self : Within a a
  | operand {op : Wrapper} {e : Expr} (h : Within a e) : Within a (.unary op e)
  | left {l r : Expr} {op : Connective} (h : Within a l) : Within a (.binary l op r)
  | right {l r : Expr} {op : Connective} (h : Within a r) : Within a (.binary l op r)

structure Ruleless (l r e : Expr) : Prop where
  within : ∃ form, Within (.binary l (.pow form) r) e
  base : l.asLiteral = none
  exponent : r.asLiteral = none

namespace Ruleless
variable {l r e : Expr}

theorem operand (h : Ruleless l r e) (op : Wrapper) : Ruleless l r (.unary op e) :=
  ⟨h.within.imp fun _ hw => hw.operand, h.base, h.exponent⟩

end Ruleless

theorem eq_literal {e : Expr} {c : Float} (h : e.asLiteral = some c) : e = .literal c := by
  cases e with
  | literal v => rw [Option.some.inj h]
  | _ => simp [asLiteral] at h

/-- A power has a constant exponent, else a constant base, or two operands that are no literals. -/
theorem power_cases (l r : Expr) :
    (∃ c, r = .literal c) ∨ (∃ c, l = .literal c ∧ r.asLiteral = none) ∨
      (l.asLiteral = none ∧ r.asLiteral = none) := by
  cases hr : r.asLiteral with
  | some c => exact .inl ⟨c, eq_literal hr⟩
  | none =>
    cases hl : l.asLiteral with
    | some c => exact .inr (.inl ⟨c, eq_literal hl, rfl⟩)
    | none => exact .inr (.inr ⟨rfl, rfl⟩)

theorem derivative_power (g : Expr) (c : Float) :
    (power g (.literal c)).derivative = (do
      let g' ← g.derivative
      pure (product (product (.literal c) (power g (.literal (c - 1.0)))) g')) := by
  cases g <;> rfl

theorem derivative_exponential (c : Float) {h : Expr} (hn : h.asLiteral = none) :
    (power (.literal c) h).derivative = (do
      let h' ← h.derivative
      pure (product (product (log (.literal c)) (power (.literal c) h)) h')) := by
  cases h with
  | literal => simp [asLiteral] at hn
  | _ => rfl

theorem derivative_ruleless {g h : Expr} (hg : g.asLiteral = none) (hh : h.asLiteral = none) :
    (power g h).derivative.outcome = .error ⟨g.text, h.text⟩ := by
  rw [power, powerKind, hg, hh]
  rfl

theorem Built.differentiates {e d : Expr} (h : e.Built) (hd : e.derivative.outcome = .ok d) :
    Differentiates e d := by
  induction h generalizing d with
  | literal v => exact Except.ok.inj hd ▸ .literal v
  | var => exact Except.ok.inj hd ▸ .var
  | wrap op _ ih =>
    cases op with
    | paren =>
      obtain ⟨g', hg, hd⟩ := Logged.ok_of_bind_ok hd
      exact Except.ok.inj hd ▸ .paren (ih hg)
    | log =>
      obtain ⟨g', hg, hd⟩ := Logged.ok_of_bind_ok hd
      exact Except.ok.inj hd ▸ .log (ih hg)
  | @combine op l r _ _ ihl ihr =>
    cases op with
    | add =>
      obtain ⟨l', r', hl, hr, rfl⟩ := Logged.ok_of_both hd
      exact .sum (ihl hl) (ihr hr)
    | sub =>
      obtain ⟨l', r', hl, hr, rfl⟩ := Logged.ok_of_both hd
      exact .difference (ihl hl) (ihr hr)
    | mul =>
      obtain ⟨r', l', hr, hl, rfl⟩ := Logged.ok_of_both hd
      exact .product (ihl hl) (ihr hr)
    | div =>
      obtain ⟨l', r', hl, hr, rfl⟩ := Logged.ok_of_both hd
      exact .quotient (ihl hl) (ihr hr)
    | pow =>
      rw [Expr.combine] at hd
      rcases power_cases l r with ⟨c, rfl⟩ | ⟨c, rfl, hn⟩ | ⟨hl, hr⟩
      · rw [derivative_power] at hd
        obtain ⟨l', hl, hd⟩ := Logged.ok_of_bind_ok hd
        exact Except.ok.inj hd ▸ .power c (ihl hl)
      · rw [derivative_exponential c hn] at hd
        obtain ⟨r', hr, hd⟩ := Logged.ok_of_bind_ok hd
        exact Except.ok.inj hd ▸ .exponential c hn (ihr hr)
      · rw [derivative_ruleless hl hr] at hd
        cases hd

theorem Built.operand {op : Wrapper} {e : Expr} (h : (Expr.unary op e).Built) : e.Built := by
  generalize he : Expr.unary op e = e' at h
  cases h with
  | literal v => cases he
  | var => cases he
  | wrap _ h => exact (Expr.unary.inj he).2 ▸ h
  | combine op' => cases op' <;> cases he

theorem Built.operands {l r : Expr} {op : Connective} (h : (Expr.binary l op r).Built) :
    l.Built ∧ r.Built := by
  generalize he : Expr.binary l op r = e at h
  cases h with
  | literal v => cases he
  | var => cases he
  | wrap => cases he
  | @combine op' l' r' hl hr =>
    obtain ⟨c, _, hc⟩ := combine_eq_binary op' l' r'
    obtain ⟨rfl, _, rfl⟩ := Expr.binary.inj (he.trans hc)
    exact ⟨hl, hr⟩

theorem Differentiates.built {e d : Expr} (h : Differentiates e d) (he : e.Built) : d.Built := by
  induction h with
  | literal v => exact .literal _
  | var => exact .literal _
  | paren _ ih => exact (ih he.operand).wrap .paren
  | log _ ih => exact .combine .div (ih he.operand) he.operand
  | sum _ _ ihg ihh => exact .combine .add (ihg he.operands.1) (ihh he.operands.2)
  | difference _ _ ihg ihh => exact .combine .sub (ihg he.operands.1) (ihh he.operands.2)
  | product _ _ ihg ihh =>
    obtain ⟨hg, hh⟩ := he.operands
    exact .combine .add (.combine .mul hg (ihh hh)) (.combine .mul (ihg hg) hh)
  | quotient _ _ ihg ihh =>
    obtain ⟨hg, hh⟩ := he.operands
    exact .combine .sub (.combine .div (ihg hg) hh)
      (.combine .mul hg (.combine .div (ihh hh) (.combine .pow hh (.literal _))))
  | power c _ ih =>
    have hg := he.operands.1
    exact .combine .mul (.combine .mul (.literal c) (.combine .pow hg (.literal _))) (ih hg)
  | exponential c _ _ ih =>
    have hh := he.operands.2
    exact .combine .mul
      (.combine .mul (.wrap .log (.literal c)) (.combine .pow (.literal c) hh)) (ih hh)

theorem Built.derivative {e d : Expr} (h : e.Built) (hd : e.derivative.outcome = .ok d) :
    d.Built :=
  (h.differentiates hd).built h

theorem iteratedDerivative_add (m n : Nat) (e : Expr) :
    iteratedDerivative (m + n) e = iteratedDerivative m e >>= iteratedDerivative n := by
  induction m generalizing e with
  | zero => rw [Nat.zero_add, iteratedDerivative, Logged.pure_bind]
  | succ m ih =>
    rw [Nat.succ_add, iteratedDerivative, iteratedDerivative, Logged.bind_assoc]
    congr 1
    funext e'
    exact ih e'

theorem Built.iteratedDerivative {n : Nat} {e d : Expr} (h : e.Built)
    (hd : (iteratedDerivative n e).outcome = .ok d) : d.Built := by
  induction n generalizing e with
  | zero =>
    obtain rfl := Except.ok.inj hd
    exact h
  | succ n ih =>
    obtain ⟨e', he, hd⟩ := Logged.ok_of_bind_ok hd
    exact ih (h.derivative he) hd

end Fluxion.Expr
