import Fluxion.Proofs.Expr.Differentiability
import Fluxion.Proofs.Expr.PowerForm
import Fluxion.Proofs.Parse.RoundTrip

/-!
# Derivatives of a formula that is read back

A formula that is read back from its text has parentheses around some of its parts, as nodes. They
change no form of a power, since no literal gets parentheses. So the same rules apply to both
formulas, and their derivatives differ again by parentheses only.
-/

set_option autoImplicit false

namespace Fluxion

namespace Expr

/-- The second formula is the first with parentheses around some of its parts. -/
inductive Parenthesized : Expr → Expr → Prop
  | literal (v : Float) : Parenthesized (.literal v) (.literal v)
  | var : Parenthesized .var .var
  | paren {e e' : Expr} (h : Parenthesized e e') : Parenthesized e (paren e')
  | unary (op : Wrapper) {e e' : Expr} (h : Parenthesized e e') :
      Parenthesized (.unary op e) (.unary op e')
  | binary (op : Connective) {l l' r r' : Expr} (hl : Parenthesized l l')
      (hr : Parenthesized r r') : Parenthesized (.binary l op r) (.binary l' op r')

theorem Parenthesized.enclose {e e' : Expr} (h : Parenthesized e e') (yes : Bool) :
    Parenthesized e (enclose yes e') := by
  cases yes with
  | true => exact h.paren
  | false => exact h

theorem parenthesized_grouped (e : Expr) : Parenthesized e e.grouped := by
  induction e with
  | literal v => exact .literal v
  | var => exact .var
  | unary op e ih => exact .unary op ih
  | binary l op r ihl ihr => exact .binary op (ihl.enclose _) (ihr.enclose _)

theorem Parenthesized.evaluate {e e' : Expr} (h : Parenthesized e e') (x : Float) :
    e'.evaluate x = e.evaluate x := by
  induction h with
  | literal v => rfl
  | var => rfl
  | paren _ ih => exact ih
  | unary op _ ih => rw [Expr.evaluate, Expr.evaluate, ih]
  | binary op _ _ ihl ihr => rw [Expr.evaluate, Expr.evaluate, ihl, ihr]

section
variable {g g' : Expr}

theorem Parenthesized.power (h : Parenthesized g g') (c : Float) :
    Parenthesized (power g (.literal c)) (power g' (.literal c)) := by
  rw [Expr.power, Expr.power, powerKind_exponent, powerKind_exponent]
  exact .binary _ h (.literal c)

theorem Parenthesized.exponential (h : Parenthesized g g') (c : Float)
    (hn : g.asLiteral = none) (hn' : g'.asLiteral = none) :
    Parenthesized (Expr.power (.literal c) g) (Expr.power (.literal c) g') := by
  rw [Expr.power, Expr.power, powerKind_base c hn, powerKind_base c hn']
  exact .binary _ (.literal c) h

end

/-- Both computations fail, or both yield formulas that differ by parentheses. -/
inductive Alike : Except RulelessPower Expr → Except RulelessPower Expr → Prop
  | ok {d d' : Expr} (h : Parenthesized d d') : Alike (.ok d) (.ok d')
  | error (f f' : RulelessPower) : Alike (.error f) (.error f')

theorem Alike.bind {x x' : Logged RulelessPower RulelessPower Expr}
    {f f' : Expr → Logged RulelessPower RulelessPower Expr} (h : Alike x.outcome x'.outcome)
    (hf : ∀ d d', x.outcome = .ok d → x'.outcome = .ok d' → Parenthesized d d' →
      Alike (f d).outcome (f' d').outcome) : Alike (x >>= f).outcome (x' >>= f').outcome := by
  generalize hx : x.outcome = a at h
  generalize hx' : x'.outcome = a' at h
  cases h with
  | ok h =>
    rw [Logged.outcome_bind_ok hx, Logged.outcome_bind_ok hx']
    exact hf _ _ hx hx' h
  | error =>
    rw [Logged.outcome_bind_error hx, Logged.outcome_bind_error hx']
    exact .error _ _

theorem Alike.paren {a : Except RulelessPower Expr} {x : Logged RulelessPower RulelessPower Expr}
    (h : Alike a x.outcome) : Alike a (do let g ← x; pure (Expr.paren g)).outcome := by
  generalize hx : x.outcome = b at h
  cases h with
  | ok h =>
    rw [Logged.outcome_bind_ok hx]
    exact .ok h.paren
  | error =>
    rw [Logged.outcome_bind_error hx]
    exact .error _ _

theorem Parenthesized.derivative {e e' : Expr} (h : Parenthesized e e') (he : e.Built)
    (he' : e'.Built) : Alike e.derivative.outcome e'.derivative.outcome := by
  induction h with
  | literal v => exact .ok (.literal 0.0)
  | var => exact .ok (.literal 1.0)
  | paren _ ih => exact (ih he he'.operand).paren
  | unary op h ih =>
    have hg := ih he.operand he'.operand
    cases op with
    | paren => exact hg.bind fun _ _ _ _ hd => .ok (.unary .paren hd)
    | log => exact hg.bind fun _ _ _ _ hd => .ok (.binary .div hd h)
  | binary op hl hr ihl ihr =>
    have hgl := ihl he.operands.1 he'.operands.1
    have hgr := ihr he.operands.2 he'.operands.2
    cases op with
    | add => exact hgl.bind fun _ _ _ _ hd => hgr.bind fun _ _ _ _ hd' => .ok (.binary .add hd hd')
    | sub => exact hgl.bind fun _ _ _ _ hd => hgr.bind fun _ _ _ _ hd' => .ok (.binary .sub hd hd')
    | mul =>
      exact hgr.bind fun _ _ _ _ hd' => hgl.bind fun _ _ _ _ hd =>
        .ok (.binary .add (.binary .mul hl hd') (.binary .mul hd hr))
    | div =>
      exact hgl.bind fun _ _ _ _ hd => hgr.bind fun _ _ _ _ hd' =>
        .ok (.binary .sub (.binary .div hd hr)
          (.binary .mul hl (.binary .div hd' (hr.power 2.0))))
    | pow form =>
      cases form with
      | literalExponent c =>
        exact hgl.bind fun _ _ _ _ hd =>
          .ok (.binary .mul (.binary .mul (.literal c) (hl.power (c - 1.0))) hd)
      | literalBase c =>
        have hpower := hr.exponential c (asLiteral_of_powerKind he.form)
          (asLiteral_of_powerKind he'.form)
        exact hgr.bind fun _ _ _ _ hd =>
          .ok (.binary .mul (.binary .mul (.unary .log (.literal c)) hpower) hd)
      | general => exact .error _ _

theorem Parenthesized.iteratedDerivative {e e' : Expr} (h : Parenthesized e e') (he : e.Built)
    (he' : e'.Built) (n : Nat) :
    Alike (Expr.iteratedDerivative n e).outcome (Expr.iteratedDerivative n e').outcome := by
  induction n generalizing e e' with
  | zero => exact .ok h
  | succ n ih =>
    exact (h.derivative he he').bind fun _ _ hd hd' h => ih h (he.derivative hd) (he'.derivative hd')

theorem Alike.ok_iff {x x' : Except RulelessPower Expr} (h : Alike x x') :
    (∃ d, x' = .ok d) ↔ ∃ d, x = .ok d := by
  cases h with
  | ok => exact ⟨fun _ => ⟨_, rfl⟩, fun _ => ⟨_, rfl⟩⟩
  | error => exact ⟨nofun, nofun⟩

theorem Alike.exists_ok {x x' : Except RulelessPower Expr} {d : Expr} (h : Alike x x')
    (hd : x = .ok d) : ∃ d', x' = .ok d' ∧ Parenthesized d d' := by
  cases h with
  | ok h =>
    obtain rfl := Except.ok.inj hd
    exact ⟨_, rfl, h⟩
  | error => cases hd

end Expr

theorem eq_grouped_of_parse {e e' : Expr} (h : e.Built) {limit : Nat}
    (hp : (parse limit e.text).outcome = .ok e') : e' = e.grouped := by
  obtain ⟨hderives, hd⟩ := parse_ok_iff_derives.1 hp
  have hlarge : (parse (limit + e.grouped.depth) e.text).outcome = .ok e' :=
    parse_ok_iff_derives.2 ⟨hderives, by omega⟩
  have hgrouped : (parse (limit + e.grouped.depth) e.text).outcome = .ok e.grouped :=
    parse_text_grouped h (by omega)
  exact Except.ok.inj (hlarge.symm.trans hgrouped)

/-- Reading a formula back from its text changes nothing of its calculus. With enough room the text
is read, and what is read can be differentiated if the formula can. Then all derivatives of both
exist, and they have the same values everywhere. -/
theorem parse_text_derivatives {e : Expr} (h : e.Built) :
    (∃ room, ∀ limit, room ≤ limit → ∃ e', (parse limit e.text).outcome = .ok e') ∧
      ∀ limit e', (parse limit e.text).outcome = .ok e' →
        ((∃ d', e'.derivative.outcome = .ok d') ↔ ∃ d, e.derivative.outcome = .ok d) ∧
        ((∃ d, e.derivative.outcome = .ok d) → ∀ n, ∃ d d',
          (Expr.iteratedDerivative n e).outcome = .ok d ∧
          (Expr.iteratedDerivative n e').outcome = .ok d' ∧
          ∀ x, d'.evaluate x = d.evaluate x) := by
  refine ⟨⟨e.grouped.depth, fun limit hle => ⟨_, parse_text_grouped h (by omega)⟩⟩, ?_⟩
  intro limit e' hp
  obtain rfl := eq_grouped_of_parse h hp
  have hsame := e.parenthesized_grouped
  refine ⟨(hsame.derivative h h.grouped).ok_iff, ?_⟩
  rintro ⟨d, hd⟩ n
  obtain ⟨dₙ, hn⟩ := h.iteratedDerivative_ok (h.differentiates hd).not_hasRuleless.1 n
  obtain ⟨dₙ', hn', hsame⟩ := (hsame.iteratedDerivative h h.grouped n).exists_ok hn
  exact ⟨dₙ, dₙ', hn, hn', hsame.evaluate⟩

theorem parse_text_derivatives_of_power :
    let e := Expr.power (.log .var) (.literal 2.0)
    let e' := Expr.power (.paren (.log .var)) (.literal 2.0)
    e.Built ∧ (parse 9 e.text).outcome = .ok e' ∧ ∀ n, ∃ d d',
      (Expr.iteratedDerivative n e).outcome = .ok d ∧
      (Expr.iteratedDerivative n e').outcome = .ok d' ∧ ∀ x, d'.evaluate x = d.evaluate x := by
  intro e e'
  have h : e.Built := .combine .pow (.wrap .log .var) (.literal 2.0)
  have hp : (parse 9 e.text).outcome = .ok e' := parse_text_grouped h (by decide)
  exact ⟨h, hp, ((parse_text_derivatives h).2 9 e' hp).2 ⟨_, rfl⟩⟩

end Fluxion
