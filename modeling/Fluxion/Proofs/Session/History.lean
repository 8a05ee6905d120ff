import Mathlib.Algebra.GroupWithZero.Nat
import Fluxion.Proofs.Expr.Rules
import Fluxion.Proofs.Session.Moves

/-!
# How the current formula came about

In a run of any length, the current formula is what the last accepted formula was, differentiated
as often as the accepted `:diff` lines behind it ask for.
-/

set_option autoImplicit false

namespace Fluxion.Session

abbrev Entry := List Char × Reply

def transcript (s : Session) (lines : List (List Char)) : List Entry := lines.zip (s.run lines).1

theorem transcript_cons (s : Session) (line : List Char) (lines : List (List Char)) :
    s.transcript (line :: lines) = (line, (s.step line).1) :: (s.step line).2.transcript lines :=
  rfl

theorem lines_transcript (s : Session) (lines : List (List Char)) :
    (s.transcript lines).map Prod.fst = lines :=
  List.map_fst_zip (Nat.le_of_eq (length_run s lines).symm)

/-- A line that is no command, and was accepted. -/
def Enters (entry : Entry) : Prop := entry.1.head? ≠ some ':' ∧ Accepted entry.2

/-- How many derivatives a line took: as many as it asks for, if it was accepted. -/
def taken (entry : Entry) : Nat := if Accepted entry.2 then derivativesAsked entry.1 else 0

def allTaken (entries : List Entry) : Nat := (entries.map taken).sum

theorem allTaken_concat (entries : List Entry) (entry : Entry) :
    allTaken (entries ++ [entry]) = allTaken entries + taken entry := by
  simp [allTaken]

/-- How the current formula of a session came about. -/
inductive Origin (limit : Nat) (entries : List Entry) : Option Expr → Prop
  | nothing (h : ∀ entry ∈ entries, ¬ Enters entry) : Origin limit entries none
  | formula {earlier later : List Entry} {line : List Char} {reply : Reply} {e d : Expr}
      (hentries : entries = earlier ++ (line, reply) :: later) (hline : Enters (line, reply))
      (hlater : ∀ entry ∈ later, ¬ Enters entry) (he : (parse limit line).outcome = .ok e)
      (hd : (e.iteratedDerivative (allTaken later)).outcome = .ok d) :
      Origin limit entries (some d)

theorem none_enters_concat {entries : List Entry} {entry : Entry}
    (h : ∀ x ∈ entries, ¬ Enters x) (hentry : ¬ Enters entry) :
    ∀ x ∈ entries ++ [entry], ¬ Enters x := by
  intro x hx
  rcases List.mem_append.1 hx with hx | hx
  · exact h x hx
  · rw [List.mem_singleton.1 hx]
    exact hentry

namespace Origin

variable {limit : Nat} {entries : List Entry} {entry : Entry} {current : Option Expr} {e d : Expr}

theorem none_iff (h : Origin limit entries current) :
    current = none ↔ ∀ entry ∈ entries, ¬ Enters entry := by
  cases h with
  | nothing h => exact iff_of_true rfl h
  | formula hentries hline =>
    refine iff_of_false (Option.some_ne_none _) fun h => h _ ?_ hline
    rw [hentries]
    exact List.mem_append_right _ List.mem_cons_self

theorem enter (hentry : Enters entry) (he : (parse limit entry.1).outcome = .ok e) :
    Origin limit (entries ++ [entry]) (some e) :=
  .formula rfl hentry (fun _ hx => absurd hx List.not_mem_nil) he rfl

theorem differentiate (h : Origin limit entries (some e)) (hentry : ¬ Enters entry)
    (hd : (e.iteratedDerivative (taken entry)).outcome = .ok d) :
    Origin limit (entries ++ [entry]) (some d) := by
  cases h with
  | @formula earlier later line reply base e hentries hline hlater he hbase =>
    refine .formula (by rw [hentries, List.append_assoc, List.cons_append]) hline
      (none_enters_concat hlater hentry) he ?_
    rw [allTaken_concat, Expr.iteratedDerivative_add, Logged.outcome_bind_ok hbase]
    exact hd

theorem keep (h : Origin limit entries current) (hentry : ¬ Enters entry)
    (htaken : taken entry = 0) : Origin limit (entries ++ [entry]) current := by
  cases current with
  | none => exact .nothing (none_enters_concat (h.none_iff.1 rfl) hentry)
  | some e =>
    apply h.differentiate hentry
    rw [htaken]
    rfl

theorem step {s : Session} (h : Origin s.limit entries s.current) (line : List Char) :
    Origin s.limit (entries ++ [(line, (s.step line).1)]) (s.step line).2.current := by
  have hmove := move_step s line
  generalize s.step line = r at hmove ⊢
  obtain ⟨reply, s'⟩ := r
  dsimp only at hmove ⊢
  -- commands are no formulas, and all of them but one take no derivatives
  have command {name : List Char} (hname : commandName line = ':' :: name) :
      ¬ Enters (line, reply) := fun hentry => hentry.1 (head_of_commandName hname)
  have untaken (hname : commandName line ≠ ":diff".toList) : taken (line, reply) = 0 := by
    rw [taken, derivativesAsked_of_ne hname, ite_self]
  generalize houtcome : reply.outcome = outcome at hmove
  cases hmove with
  | refused f =>
    have hrefused := not_accepted_of_error houtcome
    exact h.keep (fun hentry => hrefused hentry.2) (if_neg hrefused)
  | entered hline he => exact enter ⟨hline, accepted_of_ok houtcome⟩ he
  | evaluated hname => exact h.keep (command hname) (untaken (by rw [hname]; decide))
  | differentiated hname hcount hcurrent hd =>
    rw [hcurrent] at h
    apply h.differentiate (command hname)
    rw [taken, if_pos (accepted_of_ok houtcome)]
    exact hd
  | outlined hname => exact h.keep (command hname) (untaken (by rw [hname]; decide))
  | helped hname => exact h.keep (command hname) (untaken (by rw [hname]; decide))

end Origin

theorem Origin.run {s : Session} {entries : List Entry} (h : Origin s.limit entries s.current)
    (lines : List (List Char)) :
    Origin s.limit (entries ++ s.transcript lines) (s.run lines).2.current := by
  induction lines generalizing s entries with
  | nil =>
    have hnil : s.transcript [] = [] := rfl
    rw [hnil, List.append_nil]
    exact h
  | cons line lines ih =>
    have hlimit := (move_step s line).settings.2
    have hstep := h.step line
    rw [← hlimit] at hstep
    have hrun := ih hstep
    rw [hlimit, List.append_assoc, List.singleton_append, ← transcript_cons] at hrun
    exact hrun

/-- The state of a session after any lines. The settings are the given ones. A line that fails, and
one that only asks for something, leaves everything as it was. There is a current formula if a
formula was accepted, and then it is the last such formula, differentiated as often as the accepted
`:diff` lines behind it ask for in all. -/
theorem run_current (point : Float) (limit : Nat) (lines : List (List Char)) :
    ((start point limit).transcript lines).map Prod.fst = lines ∧
      let entries := (start point limit).transcript lines
      let s := ((start point limit).run lines).2
      s.point = point ∧ s.limit = limit ∧
        (∀ line, ¬ Accepted (s.step line).1 ∨ commandName line ∈ queries →
          (s.step line).2 = s) ∧
        (s.current = none ↔ ∀ entry ∈ entries, ¬ Enters entry) ∧
        ∀ d, s.current = some d → ∃ earlier line reply later e,
          entries = earlier ++ (line, reply) :: later ∧ Enters (line, reply) ∧
          (∀ entry ∈ later, ¬ Enters entry) ∧ (parse limit line).outcome = .ok e ∧
          (e.iteratedDerivative (allTaken later)).outcome = .ok d := by
  refine ⟨lines_transcript _ lines, ?_⟩
  intro entries s
  have hstart : Origin (start point limit).limit [] (start point limit).current :=
    .nothing fun _ h => absurd h List.not_mem_nil
  have horigin : Origin limit entries s.current := hstart.run lines
  obtain ⟨hpoint, hlimit⟩ := run_settings (start point limit) lines
  refine ⟨hpoint, hlimit, ?_, horigin.none_iff, ?_⟩
  · intro line hline
    rcases hline with hfailed | hquery
    · exact step_of_not_accepted hfailed
    · exact (move_step s line).of_query hquery
  · intro d hd
    rw [hd] at horigin
    cases horigin with
    | formula hentries hline hlater he hd => exact ⟨_, _, _, _, _, hentries, hline, hlater, he, hd⟩

end Fluxion.Session
