import Fluxion.Proofs.Expr.Repeated
import Fluxion.Proofs.Session.History
import Fluxion.Proofs.Session.Words

/-!
# Lines that differentiate

What a `:diff` line does is decided by its count and the current formula. Counts add up over lines
in a row, and a line that fails does so at its first derivative. So once a `:diff` line was carried
out all later ones are, until there is a new formula.
-/

set_option autoImplicit false

namespace Fluxion.Session

structure Asks (line : List Char) (count : Nat) : Prop where
  asked : derivativesAsked line = count
  least : 1 ≤ count
  most : count ≤ greatestCount

def diffName : Phrase := ⟨":diff".toList, Text.Span.whole ":diff".toList⟩

/-- The current formula differentiated a number of times, or an error and no change. -/
def differentiated (s : Session) (count : Nat) : Except Failure (List Char) × Session :=
  match s.current with
  | none => (.error (.command ⟨.noFormula, diffName.span⟩), s)
  | some e =>
    match (e.iteratedDerivative count).outcome with
    | .ok d => (.ok (s.summary d), { s with current := some d })
    | .error power => (.error (.command ⟨.noDerivative power, diffName.span⟩), s)

section
variable {s : Session} {line : List Char} {count : Nat}

theorem Asks.commandName (h : Asks line count) : commandName line = ":diff".toList := by
  refine Classical.byContradiction fun hn => ?_
  have hzero := (derivativesAsked_of_ne hn).symm.trans h.asked
  have hleast := h.least
  omega

theorem Asks.countAsked (h : Asks line count) : countAsked (argumentPhrase line) = .ok count := by
  have hcount := h.asked
  rw [derivativesAsked, if_pos h.commandName] at hcount
  by_cases hempty : commandArgument line = []
  · rw [if_pos hempty] at hcount
    rw [argumentPhrase_absent hempty, ← hcount]
    rfl
  · rw [if_neg hempty] at hcount
    have hsome : Text.wholeNumber? (commandArgument line) = some count := by
      cases hw : Text.wholeNumber? (commandArgument line) with
      | none =>
        rw [hw] at hcount
        exact absurd h.least (by rw [← hcount]; decide)
      | some n =>
        rw [hw] at hcount
        exact congrArg some hcount
    rw [argumentPhrase_present hempty, Session.countAsked]
    dsimp only
    rw [hsome]
    exact if_pos ⟨h.least, h.most⟩

theorem namePhrase_diff (hname : commandName line = ":diff".toList) :
    namePhrase line = diffName := by
  rw [namePhrase, hname]
  rfl

theorem ofText_diff (hname : commandName line = ":diff".toList) :
    Line.ofText line = .ok ⟨.diff, diffName, argumentPhrase line⟩ := by
  rw [← namePhrase_diff hname]
  apply Line.ofText_named
  rw [hname]
  rfl

theorem Asks.step (h : Asks line count) (s : Session) :
    ((s.step line).1.outcome, (s.step line).2) = s.differentiated count := by
  have hline := ofText_diff h.commandName
  have hrespond : (s.respond line).outcome = (do
      let e ← attempt (s.formula diffName)
      let d ← ((e.iteratedDerivative count).mapNotes .derivative).mapError fun power =>
        .command ⟨.noDerivative power, diffName.span⟩
      pure (s.summary d, { s with current := some d }) : Logged Note Failure _).outcome := by
    rw [respond, hline, attempt, Logged.outcome_bind_ok rfl, Logged.outcome_bind_ok rfl]
    dsimp only
    rw [h.countAsked, attempt, Logged.outcome_bind_ok rfl]
  rw [differentiated]
  cases hcurrent : s.current with
  | none =>
    rw [formula, hcurrent] at hrespond
    rw [step_error hrespond]
  | some e =>
    rw [formula, hcurrent, attempt, Logged.outcome_bind_ok rfl] at hrespond
    dsimp only
    cases hd : (e.iteratedDerivative count).outcome with
    | ok d =>
      rw [Logged.outcome_bind_ok (congrArg (Except.mapError _) hd)] at hrespond
      rw [step_ok hrespond]
    | error power =>
      rw [Logged.outcome_bind_error (congrArg (Except.mapError _) hd)] at hrespond
      rw [step_error hrespond]

end

section
variable {s s' : Session} {m n : Nat} {text : List Char} {f : Failure}

theorem differentiated_add (h : s.differentiated (m + n) = (.ok text, s')) :
    ∃ earlier between, s.differentiated m = (.ok earlier, between) ∧
      between.differentiated n = (.ok text, s') := by
  unfold differentiated at h
  split at h
  · cases h
  · next e hcurrent =>
    rw [Expr.iteratedDerivative_add] at h
    split at h
    · next d hd =>
      obtain ⟨d', hm, hn⟩ := Logged.ok_of_bind_ok hd
      cases h
      refine ⟨s.summary d', { s with current := some d' }, ?_, ?_⟩
      · rw [differentiated, hcurrent]
        dsimp only
        rw [hm]
      · rw [differentiated]
        dsimp only
        rw [hn]
        rfl
    · cases h

theorem differentiated_error (hm : 1 ≤ m) (hn : 1 ≤ n)
    (h : s.differentiated m = (.error f, s')) : s.differentiated n = (.error f, s) ∧ s' = s := by
  unfold differentiated at h ⊢
  split at h
  · cases h
    exact ⟨rfl, rfl⟩
  · next e hcurrent =>
    cases hd : e.derivative.outcome with
    | ok d =>
      obtain ⟨d', hd'⟩ := Expr.Derivable.iteratedDerivative ⟨d, hd⟩ m
      rw [hd'] at h
      cases h
    | error power =>
      rw [Expr.iteratedDerivative_error hd hm] at h
      rw [Expr.iteratedDerivative_error hd hn]
      cases h
      exact ⟨rfl, rfl⟩

end

def Ready (s : Session) : Prop := ∃ e, s.current = some e ∧ e.Derivable

section
variable {s : Session} {line : List Char} {count : Nat}

theorem ready_of_diff (hname : commandName line = ":diff".toList) (h : Accepted (s.step line).1) :
    Ready (s.step line).2 := by
  have hmove := move_step s line
  generalize s.step line = r at h hmove
  obtain ⟨reply, s'⟩ := r
  dsimp only at h hmove
  generalize houtcome : reply.outcome = outcome at hmove
  cases hmove with
  | refused f => exact absurd h (not_accepted_of_error houtcome)
  | entered hline => exact absurd (head_of_commandName hname) hline
  | differentiated _ hcount _ hd =>
    exact ⟨_, rfl, (Expr.derivable_of_iteratedDerivative hcount.1 hd).2⟩
  | evaluated hname' => exact absurd (hname'.symm.trans hname) (by decide)
  | outlined hname' => exact absurd (hname'.symm.trans hname) (by decide)
  | helped hname' => exact absurd (hname'.symm.trans hname) (by decide)

theorem Ready.accepted (h : Ready s) (hline : Asks line count) : Accepted (s.step line).1 := by
  obtain ⟨e, hcurrent, he⟩ := h
  obtain ⟨d, hd⟩ := he.iteratedDerivative count
  have hstep := congrArg Prod.fst (hline.step s)
  rw [differentiated, hcurrent] at hstep
  dsimp only at hstep
  rw [hd] at hstep
  exact accepted_of_ok hstep

theorem Ready.step (h : Ready s) (hentry : ¬ Enters (line, (s.step line).1)) :
    Ready (s.step line).2 := by
  by_cases hname : commandName line = ":diff".toList ∧ Accepted (s.step line).1
  · exact ready_of_diff hname.1 hname.2
  · have hmove := move_step s line
    generalize s.step line = r at hentry hname hmove
    obtain ⟨reply, s'⟩ := r
    dsimp only at hentry hname hmove
    generalize houtcome : reply.outcome = outcome at hmove
    cases hmove with
    | entered hline => exact absurd ⟨hline, accepted_of_ok houtcome⟩ hentry
    | differentiated hdiff => exact absurd ⟨hdiff, accepted_of_ok houtcome⟩ hname
    | _ => exact h

theorem Ready.run (h : Ready s) {lines : List (List Char)}
    (hlines : ∀ entry ∈ s.transcript lines, ¬ Enters entry) : Ready (s.run lines).2 := by
  induction lines generalizing s with
  | nil => exact h
  | cons line lines ih =>
    rw [transcript_cons] at hlines
    obtain ⟨hline, hlines⟩ := List.forall_mem_cons.1 hlines
    exact ih (h.step hline) hlines

end

/-- A line that asks for `a + b` derivatives does what two lines do that ask for `a` and then for
`b`: they are accepted with it, lead to the same session, and the last reply is its reply. If it
fails, so does the line that asks for `a`, for the same reason and at the same words, and neither
changes anything. Once a `:diff` line was accepted, all later ones with a valid count are, until a
new formula is accepted. -/
theorem diff_additive {s : Session} {both first second : List Char} {a b : Nat}
    (hboth : Asks both (a + b)) (hfirst : Asks first a) (hsecond : Asks second b) :
    (∀ text, (s.step both).1.outcome = .ok text →
      Accepted (s.step first).1 ∧
        ((s.step first).2.step second).1.outcome = .ok text ∧
        ((s.step first).2.step second).2 = (s.step both).2) ∧
    (∀ f, (s.step both).1.outcome = .error f →
      (s.step first).1.outcome = .error f ∧ (s.step first).2 = s ∧ (s.step both).2 = s) ∧
    ∀ line lines later count, commandName line = ":diff".toList → Accepted (s.step line).1 →
      (∀ entry ∈ (s.step line).2.transcript lines, ¬ Enters entry) → Asks later count →
      Accepted (((s.step line).2.run lines).2.step later).1 := by
  refine ⟨?_, ?_, ?_⟩
  · intro text htext
    have hsum : s.differentiated (a + b) = (.ok text, (s.step both).2) := by
      rw [← hboth.step s, htext]
    obtain ⟨earlier, between, ha, hb⟩ := differentiated_add hsum
    obtain ⟨hreply, hbetween⟩ := Prod.mk.inj ((hfirst.step s).trans ha)
    obtain ⟨hlast, hend⟩ := Prod.mk.inj ((hsecond.step between).trans hb)
    rw [hbetween]
    exact ⟨accepted_of_ok hreply, hlast, hend⟩
  · intro f hf
    have hsum : s.differentiated (a + b) = (.error f, (s.step both).2) := by
      rw [← hboth.step s, hf]
    obtain ⟨ha, hs⟩ := differentiated_error hboth.least hfirst.least hsum
    obtain ⟨hreply, hstay⟩ := Prod.mk.inj ((hfirst.step s).trans ha)
    exact ⟨hreply, hstay, hs⟩
  · intro line lines later count hname haccepted hlines hlater
    exact ((ready_of_diff hname haccepted).run hlines).accepted hlater

theorem diff_additive_of_cube :
    let s : Session := { current := some (.power .var (.literal 3.0)), point := 2.0, limit := 9 }
    Asks ":diff 3".toList (1 + 2) ∧ Asks ":diff".toList 1 ∧ Asks ":diff  +02 ".toList 2 ∧
      Accepted (s.step ":diff 3".toList).1 ∧ Accepted (s.step ":diff".toList).1 ∧
      ((s.step ":diff".toList).2.step ":diff  +02 ".toList).2 = (s.step ":diff 3".toList).2 := by
  intro s
  have hboth : Asks ":diff 3".toList (1 + 2) := ⟨by decide, by decide, by decide⟩
  have hfirst : Asks ":diff".toList 1 := ⟨by decide, by decide, by decide⟩
  have hsecond : Asks ":diff  +02 ".toList 2 := ⟨by decide, by decide, by decide⟩
  have hready : Ready s := ⟨_, rfl, _, rfl⟩
  have haccepted := hready.accepted hboth
  obtain ⟨text, htext⟩ : ∃ text, (s.step ":diff 3".toList).1.outcome = .ok text := by
    cases h : (s.step ":diff 3".toList).1.outcome with
    | ok text => exact ⟨text, rfl⟩
    | error f => exact absurd haccepted (not_accepted_of_error h)
  obtain ⟨hone, -, hend⟩ := (diff_additive hboth hfirst hsecond).1 text htext
  exact ⟨hboth, hfirst, hsecond, haccepted, hone, hend⟩

end Fluxion.Session
