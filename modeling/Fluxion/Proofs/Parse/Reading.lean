import Fluxion.Parse.Basic
import Fluxion.Proofs.Logged

/-!
# Readings without notes

`Reads` says what a text is read as when nothing limits the depth, and `Fails` how a reading comes
to its fault. Every outcome of `read` is one or the other.
-/

set_option autoImplicit false

namespace Fluxion

namespace Parse

/-- What a text is read as at a tier, without any limit. -/
inductive Reads : Tier → List Char → Expr → Prop
  | leaf {tier : Tier} {text : List Char} {e : Expr} (h : shape tier text = .ok (.leaf e)) :
      Reads tier text e
  | wrapped {tier : Tier} {text interior : List Char} {op : Wrapper} {e : Expr}
      (h : shape tier text = .ok (.wrapped op interior)) (hi : Reads .sum interior e) :
      Reads tier text (.unary op e)
  | split {tier : Tier} {text lhs rhs : List Char} {op : Operator} {l r : Expr}
      (h : shape tier text = .ok (.split lhs op rhs))
      (hl : Reads (operandTier op .left) lhs l) (hr : Reads (operandTier op .right) rhs r) :
      Reads tier text (Expr.combine op l r)

/-- How a reading ends in a fault: at a shape, for want of room, or inside of a piece when all pieces
in front of it are read. -/
inductive Fails (limit : Nat) : Nat → Tier → Text.Span → List Char → Fault → Prop
  | shape {room : Nat} {tier : Tier} {span : Text.Span} {text : List Char} {f : Fault}
      (h : shape tier text = .error f) : Fails limit room tier span text (f.shift span.start)
  | wrappedTooDeep {tier : Tier} {span : Text.Span} {text interior : List Char} {op : Wrapper}
      (h : Parse.shape tier text = .ok (.wrapped op interior)) :
      Fails limit 0 tier span text
        ((Fault.whole (.tooDeep limit) interior).shift (interiorSpan op span).start)
  | splitTooDeep {tier : Tier} {span : Text.Span} {text lhs rhs : List Char} {op : Operator}
      (h : Parse.shape tier text = .ok (.split lhs op rhs)) :
      Fails limit 0 tier span text ((Fault.whole (.tooDeep limit) text).shift span.start)
  | interior {room : Nat} {tier : Tier} {span : Text.Span} {text interior : List Char}
      {op : Wrapper} {f : Fault} (h : Parse.shape tier text = .ok (.wrapped op interior))
      (hi : Fails limit room .sum (interiorSpan op span) interior f) :
      Fails limit (room + 1) tier span text f
  | left {room : Nat} {tier : Tier} {span : Text.Span} {text lhs rhs : List Char}
      {op : Operator} {f : Fault} (h : Parse.shape tier text = .ok (.split lhs op rhs))
      (hl : Fails limit room (operandTier op .left)
        (span.before (span.start + Text.byteSize lhs)) lhs f) :
      Fails limit (room + 1) tier span text f
  | right {room : Nat} {tier : Tier} {span : Text.Span} {text lhs rhs : List Char}
      {op : Operator} {l : Expr} {f : Fault}
      (h : Parse.shape tier text = .ok (.split lhs op rhs))
      (hl : Reads (operandTier op .left) lhs l)
      (hr : Fails limit room (operandTier op .right)
        (span.behind (span.start + Text.byteSize lhs)) rhs f) :
      Fails limit (room + 1) tier span text f

section
variable {limit room : Nat} {tier : Tier} {span : Text.Span} {text : List Char}

@[simp] theorem outcome_refuse {α : Type} (start : Nat) (f : Fault) :
    (refuse start f : Logged Note Fault α).outcome = .error (f.shift start) := rfl

theorem reads_of_read {e : Expr} (h : (read limit room tier span text).outcome = .ok e) :
    Reads tier text e := by
  induction room generalizing tier span text e with
  | zero =>
    cases hs : shape tier text with
    | error f => simp [read_error hs] at h
    | ok s =>
      cases s with
      | leaf v =>
        rw [read_leaf hs] at h
        exact Except.ok.inj h ▸ .leaf hs
      | wrapped op interior => simp [read_wrapped_zero hs] at h
      | split lhs op rhs =>
        rw [read_split_zero hs] at h
        obtain ⟨_, _, h⟩ := Logged.ok_of_bind_ok h
        simp at h
  | succ room ih =>
    cases hs : shape tier text with
    | error f => simp [read_error hs] at h
    | ok s =>
      cases s with
      | leaf v =>
        rw [read_leaf hs] at h
        exact Except.ok.inj h ▸ .leaf hs
      | wrapped op interior =>
        rw [read_wrapped hs] at h
        obtain ⟨a, ha, h⟩ := Logged.ok_of_bind_ok h
        exact Except.ok.inj h ▸ .wrapped hs (ih ha)
      | split lhs op rhs =>
        rw [read_split hs] at h
        obtain ⟨_, _, h⟩ := Logged.ok_of_bind_ok h
        obtain ⟨l, hl, h⟩ := Logged.ok_of_bind_ok h
        obtain ⟨r, hr, h⟩ := Logged.ok_of_bind_ok h
        exact Except.ok.inj h ▸ .split hs (ih hl) (ih hr)

theorem fails_of_read {f : Fault} (h : (read limit room tier span text).outcome = .error f) :
    Fails limit room tier span text f := by
  induction room generalizing tier span text f with
  | zero =>
    cases hs : shape tier text with
    | error g =>
      rw [read_error hs] at h
      exact Except.error.inj h ▸ .shape hs
    | ok s =>
      cases s with
      | leaf e => simp [read_leaf hs] at h
      | wrapped op interior =>
        rw [read_wrapped_zero hs] at h
        exact Except.error.inj h ▸ .wrappedTooDeep hs
      | split lhs op rhs =>
        rw [read_split_zero hs, Logged.outcome_bind_ok (a := ()) rfl] at h
        exact Except.error.inj h ▸ .splitTooDeep hs
  | succ room ih =>
    cases hs : shape tier text with
    | error g =>
      rw [read_error hs] at h
      exact Except.error.inj h ▸ .shape hs
    | ok s =>
      cases s with
      | leaf e => simp [read_leaf hs] at h
      | wrapped op interior =>
        rw [read_wrapped hs] at h
        rcases Logged.error_of_bind_error h with hi | ⟨a, _, h⟩
        · exact .interior hs (ih hi)
        · simp at h
      | split lhs op rhs =>
        rw [read_split hs, Logged.outcome_bind_ok (a := ()) rfl] at h
        rcases Logged.error_of_bind_error h with hl | ⟨l, hl, h⟩
        · exact .left hs (ih hl)
        · rcases Logged.error_of_bind_error h with hr | ⟨r, _, h⟩
          · exact .right hs (reads_of_read hl) (ih hr)
          · simp at h

theorem readAll_of_ne_nil (hne : text ≠ []) :
    readAll limit text = read limit limit .sum (.whole text) text := by
  simp [readAll, hne]

theorem fails_of_readAll {f : Fault} (h : (readAll limit text).outcome = .error f) :
    (text = [] ∧ f = .whole .empty []) ∨ Fails limit limit .sum (.whole text) text f := by
  by_cases hne : text = []
  · subst hne
    exact .inl ⟨rfl, (Except.error.inj h).symm⟩
  · rw [readAll_of_ne_nil hne] at h
    exact .inr (fails_of_read h)

end

end Parse

theorem outcome_parse (limit : Nat) (given : List Char) :
    (parse limit given).outcome = (Parse.readAll limit (Text.strip given)).outcome.mapError
      fun f => { f with span := (Text.Stripped.ofText given).origin f.span } := by
  rw [parse, Logged.mapError, Text.Stripped.text_ofText]

theorem parse_ok_iff {limit : Nat} {given : List Char} {e : Expr} :
    (parse limit given).outcome = .ok e ↔
      (Parse.readAll limit (Text.strip given)).outcome = .ok e := by
  rw [outcome_parse]
  cases (Parse.readAll limit (Text.strip given)).outcome with
  | error g => exact ⟨nofun, nofun⟩
  | ok e' => exact Iff.rfl

theorem parse_error_iff {limit : Nat} {given : List Char} {f : Parse.Fault} :
    (parse limit given).outcome = .error f ↔
      ∃ g, (Parse.readAll limit (Text.strip given)).outcome = .error g ∧
        { g with span := (Text.Stripped.ofText given).origin g.span } = f := by
  rw [outcome_parse]
  cases (Parse.readAll limit (Text.strip given)).outcome with
  | error g =>
    constructor
    · exact fun h => ⟨g, rfl, Except.error.inj h⟩
    · rintro ⟨g', hg, rfl⟩
      rw [Except.error.inj hg]
      rfl
  | ok e => exact ⟨nofun, nofun⟩

end Fluxion
