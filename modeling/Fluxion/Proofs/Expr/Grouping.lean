import Fluxion.Expr.Outline
import Fluxion.Proofs.Binary64.Bits

/-!
# Formulas with their parentheses as nodes

`grouped` puts a node where the text of a formula has parentheses that the formula has no node for.
It has the same text and the same values, and its text adds no parentheses. All this holds of the
formulas that the constructors build, where a power has the form that its operands decide.
-/

set_option autoImplicit false

namespace Fluxion.Expr

/-- The formulas that the constructors build. -/
inductive Built : Expr → Prop
  | literal (v : Float) : Built (.literal v)
  | var : Built .var
  | wrap (op : Wrapper) {e : Expr} (he : Built e) : Built (.unary op e)
  | combine (op : Operator) {l r : Expr} (hl : Built l) (hr : Built r) : Built (combine op l r)

def enclose (yes : Bool) (e : Expr) : Expr := if yes then paren e else e

/-- The formula with a node around each operand that is written in parentheses. -/
def grouped : Expr → Expr
  | .literal v => .literal v
  | .var => .var
  | .unary op e => .unary op e.grouped
  | .binary l op r =>
    .binary (enclose (needsParens op.operator .left l) l.grouped) op
      (enclose (needsParens op.operator .right r) r.grouped)

/-- No operand is written in parentheses that are not a node. -/
def Plain : Expr → Prop
  | .literal _ | .var => True
  | .unary _ e => e.Plain
  | .binary l op r =>
    (needsParens op.operator .left l = false ∧ l.Plain) ∧
      (needsParens op.operator .right r = false ∧ r.Plain)

def HasNaN : Expr → Prop
  | .literal v => v.isNaN = true
  | .var => False
  | .unary _ e => e.HasNaN
  | .binary l _ r => l.HasNaN ∨ r.HasNaN

@[simp] theorem needsParens_paren (op : Operator) (side : Side) (e : Expr) :
    needsParens op side (paren e) = false := by
  cases op <;> cases side <;> rfl

@[simp] theorem needsParens_literal (op : Operator) (side : Side) (v : Float) :
    needsParens op side (.literal v) = false := by
  cases op <;> cases side <;> rfl

/-- Whether an operand is written in parentheses depends on its root alone. -/
theorem needsParens_grouped (op : Operator) (side : Side) (e : Expr) :
    needsParens op side e.grouped = needsParens op side e := by
  cases e with
  | literal v => rfl
  | var => rfl
  | unary w e => cases op <;> cases side <;> cases w <;> rfl
  | binary l c r => cases op <;> cases side <;> rfl

theorem needsParens_enclose (op : Operator) (side : Side) (e : Expr) :
    needsParens op side (enclose (needsParens op side e) e.grouped) = false := by
  cases h : needsParens op side e with
  | true => exact needsParens_paren op side e.grouped
  | false => exact (needsParens_grouped op side e).trans h

theorem plain_enclose {e : Expr} (h : e.Plain) (yes : Bool) : (enclose yes e).Plain := by
  cases yes <;> exact h

theorem plain_grouped (e : Expr) : e.grouped.Plain := by
  induction e with
  | literal => trivial
  | var => trivial
  | unary op e ih => exact ih
  | binary l op r ihl ihr =>
    exact ⟨⟨needsParens_enclose _ _ l, plain_enclose ihl _⟩,
      ⟨needsParens_enclose _ _ r, plain_enclose ihr _⟩⟩

theorem text_enclose (yes : Bool) (e : Expr) : (enclose yes e).text = bracket yes e.text := by
  cases yes <;> rfl

theorem text_grouped (e : Expr) : e.grouped.text = e.text := by
  induction e with
  | literal => rfl
  | var => rfl
  | unary op e ih => rw [grouped, text, text, ih]
  | binary l op r ihl ihr =>
    rw [grouped, text, text, needsParens_enclose, needsParens_enclose, text_enclose, text_enclose,
      ihl, ihr]
    rfl

theorem evaluate_enclose (yes : Bool) (e : Expr) (x : Float) :
    (enclose yes e).evaluate x = e.evaluate x := by
  cases yes <;> rfl

theorem evaluate_grouped (e : Expr) (x : Float) : e.grouped.evaluate x = e.evaluate x := by
  induction e with
  | literal => rfl
  | var => rfl
  | unary op e ih => rw [grouped, evaluate, evaluate, ih]
  | binary l op r ihl ihr =>
    rw [grouped, evaluate, evaluate, evaluate_enclose, evaluate_enclose, ihl, ihr]

theorem asLiteral_enclose (op : Operator) (side : Side) (e : Expr) :
    (enclose (needsParens op side e) e.grouped).asLiteral = e.asLiteral := by
  cases e with
  | literal v =>
    rw [needsParens_literal]
    rfl
  | _ => cases needsParens op side _ <;> rfl

theorem powerKind_enclose (l r : Expr) :
    powerKind (enclose (needsParens .pow .left l) l.grouped)
      (enclose (needsParens .pow .right r) r.grouped) = powerKind l r := by
  rw [powerKind, powerKind, asLiteral_enclose, asLiteral_enclose]

theorem grouped_combine (op : Operator) (l r : Expr) :
    (combine op l r).grouped = combine op (enclose (needsParens op .left l) l.grouped)
      (enclose (needsParens op .right r) r.grouped) := by
  cases op with
  | pow =>
    change Expr.binary _ (.pow (powerKind l r)) _ = power _ _
    rw [power, powerKind_enclose]
    rfl
  | _ => rfl

theorem Built.enclose {e : Expr} (h : e.Built) (yes : Bool) : (enclose yes e).Built := by
  cases yes with
  | true => exact h.wrap .paren
  | false => exact h

theorem Built.grouped {e : Expr} (h : e.Built) : e.grouped.Built := by
  induction h with
  | literal v => exact .literal v
  | var => exact .var
  | wrap op _ ih => exact ih.wrap op
  | combine op _ _ ihl ihr =>
    rw [grouped_combine]
    exact .combine op (ihl.enclose _) (ihr.enclose _)

theorem beq_powerKind {l r : Expr} (hl : ¬ l.HasNaN) (hr : ¬ r.HasNaN) :
    (powerKind l r).beq (powerKind l r) = true := by
  have number {e : Expr} {v : Float} (h : e.asLiteral = some v) (hn : ¬ e.HasNaN) :
      (v == v) = true := by
    rw [Binary64.beq_self_iff]
    cases e with
    | literal w =>
      obtain rfl := Option.some.inj h
      exact Bool.eq_false_iff.2 hn
    | _ => simp [asLiteral] at h
  unfold powerKind
  split
  · next h => exact number h hr
  · next h _ => exact number h hl
  · rfl

theorem Built.beq_self_iff {e : Expr} (h : e.Built) : (e == e) = true ↔ ¬ e.HasNaN := by
  change e.beq e = true ↔ ¬ e.HasNaN
  induction h with
  | literal v =>
    rw [beq, HasNaN, Binary64.beq_self_iff, Bool.eq_false_iff]
  | var => simp [beq, HasNaN]
  | wrap op _ ih =>
    rw [beq, HasNaN, BEq.rfl, Bool.true_and]
    exact ih
  | @combine op l r _ _ ihl ihr =>
    have hparts : (Expr.combine op l r).HasNaN ↔ l.HasNaN ∨ r.HasNaN := by
      cases op <;> rfl
    have hbeq : (Expr.combine op l r).beq (Expr.combine op l r) = true ↔
        l.beq l = true ∧ r.beq r = true := by
      cases op with
      | pow =>
        change (l.beq l && (powerKind l r).beq (powerKind l r) && r.beq r) = true ↔ _
        rw [Bool.and_eq_true, Bool.and_eq_true]
        constructor
        · exact fun h => ⟨h.1.1, h.2⟩
        · exact fun h => ⟨⟨h.1, beq_powerKind (ihl.1 h.1) (ihr.1 h.2)⟩, h.2⟩
      | _ =>
        change (l.beq l && true && r.beq r) = true ↔ _
        rw [Bool.and_true, Bool.and_eq_true]
    rw [hbeq, hparts, ihl, ihr, not_or]

end Fluxion.Expr
