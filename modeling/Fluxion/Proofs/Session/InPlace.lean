import Fluxion.Session.Basic

/-!
# A line that writes as it goes

`Session.respond` hands a new session on only with its reply, so an error cannot have changed
anything. Here a line works on the session itself and stops where something fails, with what it has
written up to there. It writes only when nothing can fail any more, so both come to the same.
-/

set_option autoImplicit false

namespace Fluxion.Session

structure Progress where
  session : Session
  notes : List Note

abbrev InPlace := ExceptT Failure (StateM Progress)

namespace InPlace

variable {α β : Type}

def session : InPlace Session := return (← get).session

def write (e : Expr) : InPlace Unit :=
  modify fun p => { p with session := { p.session with current := some e } }

def perform (x : Logged Note Failure α) : InPlace α := do
  modify fun p => { p with notes := p.notes ++ x.notes }
  match x.outcome with
  | .ok a => pure a
  | .error e => throw e

def formula (name : Phrase) : InPlace Expr := do
  let s ← session
  perform (attempt (s.formula name))

def line (text : List Char) : InPlace (List Char) := do
  let l ← perform (attempt (Line.ofText text))
  perform (Logged.note (.command l.command))
  match l.command with
  | .formula text =>
    let limit := (← session).limit
    let e ← perform (((parse limit text).mapNotes (.parse text)).mapError .formula)
    let output := (← session).summary e
    write e
    pure output
  | .eval argument =>
    let e ← formula l.name
    let x ← perform (attempt (evaluationPoint l argument))
    pure (valueText (e.evaluate x))
  | .diff =>
    let n ← perform (attempt (countAsked l.argument))
    let e ← formula l.name
    let d ← perform (((e.iteratedDerivative n).mapNotes .derivative).mapError fun power =>
      .command ⟨.noDerivative power, l.name.span⟩)
    let output := (← session).summary d
    write d
    pure output
  | .tree =>
    let e ← formula l.name
    pure (e.outline 0)
  | .help => pure commandList

/-- The line does what the computation says, and leaves the session alone if that fails. -/
def Follows (m : InPlace (List Char)) (s : Session)
    (x : Logged Note Failure (List Char × Session)) : Prop :=
  ∀ notes, m.run.run ⟨s, notes⟩ =
    match x.outcome with
    | .ok (text, s') => (.ok text, ⟨s', notes ++ x.notes⟩)
    | .error e => (.error e, ⟨s, notes ++ x.notes⟩)

variable {s : Session}

theorem follows_pure (text : List Char) : Follows (pure text) s (pure (text, s)) := by
  intro notes
  rw [Logged.pure_eq, List.append_nil]
  rfl

theorem follows_write (e : Expr) (text : List Char) :
    Follows (do write e; pure text) s (pure (text, { s with current := some e })) := by
  intro notes
  rw [Logged.pure_eq, List.append_nil]
  rfl

theorem follows_session {f : Session → InPlace (List Char)}
    {x : Logged Note Failure (List Char × Session)} (h : Follows (f s) s x) :
    Follows (session >>= f) s x := h

theorem run_perform_ok {x : Logged Note Failure α} {a : α} (h : x.outcome = .ok a)
    (f : α → InPlace β) (notes : List Note) :
    (perform x >>= f).run.run ⟨s, notes⟩ = (f a).run.run ⟨s, notes ++ x.notes⟩ := by
  simp only [perform, h]
  rfl

theorem run_perform_error {x : Logged Note Failure α} {e : Failure} (h : x.outcome = .error e)
    (f : α → InPlace β) (notes : List Note) :
    (perform x >>= f).run.run ⟨s, notes⟩ = (.error e, ⟨s, notes ++ x.notes⟩) := by
  simp only [perform, h]
  rfl

theorem follows_perform {x : Logged Note Failure α} {f : α → InPlace (List Char)}
    {g : α → Logged Note Failure (List Char × Session)} (h : ∀ a, Follows (f a) s (g a)) :
    Follows (perform x >>= f) s (x >>= g) := by
  intro notes
  cases hx : x.outcome with
  | error e => rw [run_perform_error hx, Logged.bind_error hx]
  | ok a => rw [run_perform_ok hx, Logged.bind_ok hx, h a, List.append_assoc]

theorem follows_formula {name : Phrase} {f : Expr → InPlace (List Char)}
    {g : Expr → Logged Note Failure (List Char × Session)} (h : ∀ e, Follows (f e) s (g e)) :
    Follows (formula name >>= f) s (attempt (s.formula name) >>= g) :=
  fun notes => follows_perform h notes

theorem follows_line (s : Session) (text : List Char) : Follows (line text) s (s.respond text) := by
  refine follows_perform fun l => follows_perform fun _ => ?_
  cases l.command with
  | formula text =>
    exact follows_session (follows_perform fun e => follows_session (follows_write e _))
  | eval argument => exact follows_formula fun e => follows_perform fun x => follows_pure _
  | diff =>
    refine follows_perform fun n => follows_formula fun e => follows_perform fun d => ?_
    exact follows_session (follows_write d _)
  | tree => exact follows_formula fun e => follows_pure _
  | help => exact follows_pure _

/-- To write as the line goes and to put a new session in place at its end are the same. -/
theorem line_eq_step (s : Session) (text : List Char) :
    (line text).run.run ⟨s, []⟩ =
      ((s.step text).1.outcome, ⟨(s.step text).2, (s.step text).1.notes⟩) := by
  have hline := follows_line s text []
  cases h : (s.respond text).outcome with
  | ok reply =>
    rw [h] at hline
    rw [step_ok h]
    exact hline
  | error e =>
    rw [h] at hline
    rw [step_error h]
    exact hline

/-- Every line goes on with the session that the line before it has left, whether that failed or
not. -/
def lines (s : Session) : List (List Char) → List Reply × Session
  | [] => ([], s)
  | text :: texts =>
    let r := (line text).run.run ⟨s, []⟩
    let more := lines r.2.session texts
    (⟨r.2.notes, r.1⟩ :: more.1, more.2)

theorem lines_eq_run (s : Session) (texts : List (List Char)) : lines s texts = s.run texts := by
  induction texts generalizing s with
  | nil => rfl
  | cons text texts ih =>
    simp only [lines, Session.run, line_eq_step, ih]

end InPlace

end Fluxion.Session
