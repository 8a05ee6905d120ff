import Fluxion.Proofs.Expr.Rules

/-!
# The form of a power

A power that the constructors build has the form that its operands decide: by a literal exponent
first, then by a literal base. The form tells the operands apart again. Parts of a formula that the
constructors build are such formulas as well.
-/

set_option autoImplicit false

namespace Fluxion.Expr

theorem powerKind_exponent (g : Expr) (c : Float) :
    powerKind g (.literal c) = .literalExponent c := by
  cases g <;> rfl

theorem powerKind_base {h : Expr} (c : Float) (hn : h.asLiteral = none) :
    powerKind (.literal c) h = .literalBase c := by
  rw [powerKind, hn]
  rfl

theorem powerKind_general {g h : Expr} (hg : g.asLiteral = none) (hh : h.asLiteral = none) :
    powerKind g h = .general := by
  rw [powerKind, hg, hh]

theorem asLiteral_of_powerKind {g h : Expr} {c : Float} (hk : powerKind g h = .literalBase c) :
    h.asLiteral = none := by
  cases hh : h.asLiteral with
  | none => rfl
  | some d =>
    rw [eq_literal hh, powerKind_exponent] at hk
    cases hk

theorem Built.form {l r : Expr} {form : PowerKind} (h : (binary l (.pow form) r).Built) :
    powerKind l r = form := by
  generalize he : binary l (.pow form) r = e at h
  cases h with
  | literal v => cases he
  | var => cases he
  | wrap => cases he
  | combine op =>
    cases op with
    | pow =>
      cases he
      rfl
    | _ => cases he

/-- The form of a power says which of its operands is a literal, and which one. -/
theorem powerKind_agrees (l r : Expr) :
    (∀ c, powerKind l r = .literalExponent c ↔ r = .literal c) ∧
    (∀ c, powerKind l r = .literalBase c ↔ r.asLiteral = none ∧ l = .literal c) ∧
    (powerKind l r = .general ↔ l.asLiteral = none ∧ r.asLiteral = none) := by
  rcases power_cases l r with ⟨d, rfl⟩ | ⟨d, rfl, hr⟩ | ⟨hl, hr⟩
  · simp [powerKind_exponent, asLiteral]
  · have hne (c : Float) : r ≠ .literal c := by
      rintro rfl
      cases hr
    simp [powerKind_base d hr, hne, asLiteral]
  · have hne (c : Float) : l ≠ .literal c ∧ r ≠ .literal c := by
      constructor
      · rintro rfl
        cases hl
      · rintro rfl
        cases hr
    simp [powerKind_general hl hr, hl, hr, hne]

theorem Built.part {a e : Expr} (h : e.Built) (hw : Within a e) : a.Built := by
  induction hw with
  | self => exact h
  | operand _ ih => exact ih h.operand
  | left _ ih => exact ih h.operands.1
  | right _ ih => exact ih h.operands.2

end Fluxion.Expr
