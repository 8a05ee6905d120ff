import Fluxion.CommandLine.Basic
import Fluxion.Proofs.Session.Lines
import Fluxion.Proofs.Session.Moves

/-!
# What a script prints

A run over a script prints the replies to its lines, one after the other, and its exit code says
whether a line failed. What fails could as well be left out, and blanks between the lines too.
-/

set_option autoImplicit false

namespace Fluxion

namespace Session

def printed (reply : Reply) : List Char :=
  match reply.outcome with
  | .ok text => Text.trimEnd text ++ ['\n']
  | .error _ => []

def failure? (reply : Reply) : Option Failure :=
  match reply.outcome with
  | .ok _ => none
  | .error e => some e

theorem failure?_eq_none_iff (reply : Reply) : failure? reply = none ↔ Accepted reply := by
  unfold failure? Accepted
  cases reply.outcome <;> simp [Except.isOk, Except.toBool]

theorem printed_of_not_accepted {reply : Reply} (h : ¬ Accepted reply) : printed reply = [] := by
  unfold printed
  split
  · next houtcome => exact absurd (accepted_of_ok houtcome) h
  · rfl

theorem output_add (reply : Reply) (rest : Report) :
    (Report.add reply rest).output = printed reply ++ rest.output := by
  unfold Report.add printed
  cases reply.outcome <;> simp

theorem failures_add (reply : Reply) (rest : Report) :
    (Report.add reply rest).failures = (failure? reply).toList ++ rest.failures := by
  unfold Report.add failure?
  cases reply.outcome <;> rfl

section
variable (replies : List Reply)

theorem output_foldr : (replies.foldr Report.add Report.empty).output = replies.flatMap printed := by
  induction replies with
  | nil => rfl
  | cons reply replies ih => rw [List.foldr_cons, output_add, ih, List.flatMap_cons]

theorem failures_foldr :
    (replies.foldr Report.add Report.empty).failures = replies.filterMap failure? := by
  induction replies with
  | nil => rfl
  | cons reply replies ih =>
    rw [List.foldr_cons, failures_add, ih, List.filterMap_cons]
    cases failure? reply <;> rfl

theorem exitCode_foldr :
    (replies.foldr Report.add Report.empty).exitCode =
      if ∀ reply ∈ replies, Accepted reply then 0 else 1 := by
  rw [Report.exitCode, failures_foldr]
  simp only [List.isEmpty_iff, List.filterMap_eq_nil_iff, failure?_eq_none_iff]

theorem flatMap_printed_filter :
    (replies.filter fun reply => Accepted reply).flatMap printed = replies.flatMap printed := by
  induction replies with
  | nil => rfl
  | cons reply replies ih =>
    rw [List.filter_cons, List.flatMap_cons, ← ih]
    split
    · rfl
    · next h => rw [printed_of_not_accepted (by simpa using h), List.nil_append]

end

/-- The lines of a script without those that fail when the script is carried out. -/
def withoutFailing (s : Session) : List (List Char) → List (List Char)
  | [] => []
  | line :: lines =>
    let r := s.step (Text.trim line)
    if Text.trim line = [] then line :: withoutFailing s lines
    else if Accepted r.1 then line :: withoutFailing r.2 lines
    else withoutFailing r.2 lines

theorem withoutFailing_sublist (s : Session) (lines : List (List Char)) :
    (withoutFailing s lines).Sublist lines := by
  induction lines generalizing s with
  | nil => exact .slnil
  | cons line lines ih =>
    rw [withoutFailing]
    split
    · exact (ih s).cons_cons line
    · split
      · exact (ih _).cons_cons line
      · exact (ih _).cons line

theorem run_withoutFailing (s : Session) (lines : List (List Char)) :
    (s.run (tidy (withoutFailing s lines))).1 =
      (s.run (tidy lines)).1.filter fun reply => Accepted reply := by
  induction lines generalizing s with
  | nil => rfl
  | cons line lines ih =>
    rw [withoutFailing, tidy_cons]
    by_cases hblank : Text.trim line = []
    · rw [if_pos hblank, if_pos hblank, tidy_cons, if_pos hblank]
      exact ih s
    · rw [if_neg hblank, if_neg hblank, run, List.filter_cons]
      by_cases haccepted : Accepted (s.step (Text.trim line)).1
      · rw [if_pos haccepted, tidy_cons, if_neg hblank, run, if_pos (by simpa using haccepted)]
        exact congrArg _ (ih _)
      -- the lines behind a line that fails run in the same session as without it
      · rw [if_neg haccepted, if_neg (by simpa using haccepted), step_of_not_accepted haccepted]
        exact ih s

end Session

namespace CommandLine

open Session

theorem decode_toUTF8 (text : String) : decode text.toUTF8 = .ok text.toList := by
  have hread : String.fromUTF8? text.toUTF8 = some text :=
    dif_pos (show text.toUTF8.IsValidUTF8 from text.isValidUTF8)
  rw [decode, hread]

def batch (settings : Settings) (text : String) : Outcome :=
  (Plan.run settings).outcome fun _ => decode text.toUTF8

section
variable (settings : Settings) (text : String)

theorem batch_toUTF8 :
    batch settings text = execute settings (.ok text.toList) := by
  rw [batch, Plan.outcome, decode_toUTF8]

/-- All that counts of a text are its lines without the blanks around them. -/
theorem batch_congr {other : String}
    (h : tidy (textLines other.toList) = tidy (textLines text.toList)) :
    batch settings other = batch settings text := by
  rw [← scriptLines_eq, ← scriptLines_eq] at h
  rw [batch_toUTF8, batch_toUTF8, execute, execute, runScript, runScript, h]

def replies : List Reply :=
  ((start settings.point settings.limit).run (tidy (textLines text.toList))).1

theorem output_batch : (batch settings text).output = (replies settings text).flatMap printed := by
  rw [replies, ← scriptLines_eq, ← output_foldr, batch_toUTF8]
  rfl

theorem errors_batch :
    (batch settings text).errors = ((replies settings text).filterMap failure?).map headline := by
  rw [replies, ← scriptLines_eq, ← failures_foldr, batch_toUTF8]
  rfl

theorem exitCode_batch :
    (batch settings text).exitCode =
      if ∀ reply ∈ replies settings text, Accepted reply then 0 else 1 := by
  rw [replies, ← scriptLines_eq, ← exitCode_foldr, batch_toUTF8]
  rfl

section
variable {settings text} {other : String}
  (h : textLines other.toList =
    withoutFailing (start settings.point settings.limit) (textLines text.toList))
include h

theorem replies_withoutFailing :
    replies settings other = (replies settings text).filter fun reply => Accepted reply := by
  rw [replies, h, run_withoutFailing]
  rfl

theorem accepted_withoutFailing : ∀ reply ∈ replies settings other, Accepted reply := by
  intro reply hreply
  rw [replies_withoutFailing h] at hreply
  simpa using (List.mem_filter.1 hreply).2

theorem batch_withoutFailing :
    (batch settings other).output = (batch settings text).output ∧
      (batch settings other).errors = [] ∧ (batch settings other).exitCode = 0 := by
  have haccepted := accepted_withoutFailing h
  have hnone : (replies settings other).filterMap failure? = [] :=
    List.filterMap_eq_nil_iff.2 fun reply hreply =>
      (failure?_eq_none_iff reply).2 (haccepted reply hreply)
  refine ⟨?_, ?_, ?_⟩
  · rw [output_batch, output_batch, replies_withoutFailing h, flatMap_printed_filter]
  · rw [errors_batch, hnone]
    rfl
  · rw [exitCode_batch, if_pos haccepted]

end

/-- A run over any text carries out the lines that are not blank, without the blanks around them,
one after the other, each in the session that the lines before it leave behind. The output is what
the accepted lines print, every other line gives one error, and the exit code says whether there is
one. Blank lines and blanks around lines change nothing, and without the lines that fail the output
is the same and no line fails. -/
theorem batch_outcome :
    (replies settings text).length = (tidy (textLines text.toList)).length ∧
      let s := start settings.point settings.limit
      let outcome := batch settings text
      (∀ earlier line later, tidy (textLines text.toList) = earlier ++ line :: later →
        let r := (s.run earlier).2.step line
        replies settings text = (s.run earlier).1 ++ r.1 :: (r.2.run later).1) ∧
      outcome.output = (replies settings text).flatMap printed ∧
      outcome.errors = ((replies settings text).filterMap failure?).map headline ∧
      outcome.exitCode = (if ∀ reply ∈ replies settings text, Accepted reply then 0 else 1) ∧
      (∀ other : String, Respaced (textLines text.toList) (textLines other.toList) →
        batch settings other = outcome) ∧
      (∃ other : String, textLines other.toList = withoutFailing s (textLines text.toList)) ∧
      ∀ other : String, textLines other.toList = withoutFailing s (textLines text.toList) →
        (batch settings other).output = outcome.output ∧ (batch settings other).errors = [] ∧
          (batch settings other).exitCode = 0 := by
  refine ⟨length_run _ _, ?_⟩
  intro s outcome
  refine ⟨?_, output_batch settings text, errors_batch settings text,
    exitCode_batch settings text, ?_, ?_, ?_⟩
  · intro earlier line later h
    rw [replies, h, run_append]
    rfl
  · intro other h
    exact batch_congr settings text h.tidy_eq
  · apply exists_textLines
    intro line hline
    exact newline_not_mem_textLines _ line ((withoutFailing_sublist s _).subset hline)
  · intro other h
    exact batch_withoutFailing h

end

end CommandLine

end Fluxion
