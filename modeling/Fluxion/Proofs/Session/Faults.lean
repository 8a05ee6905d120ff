import Fluxion.Proofs.Parse.Location
import Fluxion.Proofs.Session.Counts

/-!
# Where a failing line is at fault

Every failure covers a part of the line: the name of the command, its argument, or the place where
a formula cannot be read. An unknown name comes before everything else, then a wrong count, then
the missing formula, and an argument that is no number comes last.
-/

set_option autoImplicit false

namespace Fluxion.Session

/-- Why a line fails, with the part of the line that is at fault and what stands in front of it. -/
inductive Blames (s : Session) (line : List Char) : Failure → List Char → List Char → Prop
  | formula {fault : Parse.Fault} {front words : List Char} (hline : line.head? ≠ some ':')
      (hparse : (parse s.limit line).outcome = .error fault) :
      Blames s line (.formula fault) front words
  | unknownCommand {span : Text.Span} (hline : line.head? = some ':')
      (hname : commandName line ∉ commandNames) :
      Blames s line (.command ⟨.unknownCommand (commandName line), span⟩) [] (commandName line)
  | miscounted {cause : Cause} {span : Text.Span} {gap : List Char}
      (hname : commandName line = ":diff".toList)
      (hcount : Miscounts (commandArgument line) cause) (hgap : Text.Blank gap) :
      Blames s line (.command ⟨cause, span⟩) (commandName line ++ gap) (commandArgument line)
  | noFormula {span : Text.Span}
      (hname : commandName line ∈ [":eval".toList, ":diff".toList, ":tree".toList])
      (hcount : commandName line = ":diff".toList → ∃ count, Counts (commandArgument line) count)
      (hcurrent : s.current = none) :
      Blames s line (.command ⟨.noFormula, span⟩) [] (commandName line)
  | noDerivative {e : Expr} {power : RulelessPower} {count : ℕ} {span : Text.Span}
      (hname : commandName line = ":diff".toList) (hcount : Counts (commandArgument line) count)
      (hcurrent : s.current = some e) (hd : (e.iteratedDerivative count).outcome = .error power) :
      Blames s line (.command ⟨.noDerivative power, span⟩) [] (commandName line)
  | noNumber {e : Expr} {span : Text.Span} {gap : List Char}
      (hname : commandName line = ":eval".toList) (hcurrent : s.current = some e)
      (hne : commandArgument line ≠ []) (hx : Literal.ofText? (commandArgument line) = none)
      (hgap : Text.Blank gap) :
      Blames s line (.command ⟨.expected .number, span⟩) (commandName line ++ gap)
        (commandArgument line)
  | noArgument {e : Expr} {span : Text.Span} (hname : commandName line = ":eval".toList)
      (hcurrent : s.current = some e) (hnil : commandArgument line = []) :
      Blames s line (.command ⟨.expected .number, span⟩) (commandName line) []

section
variable {s : Session} {line : List Char} {f : Failure}

theorem step_error_iff :
    (s.step line).1.outcome = .error f ↔ (s.respond line).outcome = .error f := by
  cases h : (s.respond line).outcome with
  | ok r =>
    have hr : (s.respond line).outcome = .ok (r.1, r.2) := h
    simp [step_ok hr]
  | error e => simp [step_error h]

theorem attempt_error_iff {α : Type} {r : Except Complaint α} :
    (attempt r).outcome = .error f ↔
      ∃ complaint, r = .error complaint ∧ f = .command complaint := by
  cases r with
  | ok a => simp [attempt, Logged.ofExcept, Except.mapError]
  | error complaint => simp [attempt, Logged.ofExcept, Except.mapError, eq_comm]

theorem attempt_ok_iff {α : Type} {r : Except Complaint α} {a : α} :
    (attempt r).outcome = .ok a ↔ r = .ok a := by
  constructor
  · exact ok_of_attempt
  · rintro rfl
    rfl

theorem formula_error_iff {name : Phrase} {complaint : Complaint} :
    s.formula name = .error complaint ↔
      s.current = none ∧ complaint = ⟨.noFormula, name.span⟩ := by
  cases h : s.current with
  | none => simp [formula, h, eq_comm]
  | some e => simp [formula, h]

theorem formula_ok_iff {name : Phrase} {e : Expr} :
    s.formula name = .ok e ↔ s.current = some e := by
  cases h : s.current with
  | none => simp [formula, h]
  | some e' => simp [formula, h]

theorem evaluationPoint_error_iff {l : Line} {text : List Char} {complaint : Complaint} :
    evaluationPoint l text = .error complaint ↔ Literal.ofText? text = none ∧
      complaint = ⟨.expected .number,
        l.argument.elim ⟨l.name.span.stop, l.name.span.stop⟩ Phrase.span⟩ := by
  cases h : Literal.ofText? text with
  | none => simp [evaluationPoint, h, eq_comm]
  | some x => simp [evaluationPoint, h]

theorem formula_fails_iff (h : line.head? ≠ some ':') :
    (s.step line).1.outcome = .error f ↔
      ∃ fault, (parse s.limit line).outcome = .error fault ∧ f = .formula fault := by
  rw [step_error_iff, respond, Line.ofText_formula h, attempt, Logged.outcome_bind_ok rfl,
    Logged.outcome_bind_ok rfl]
  dsimp only
  rw [Logged.bind_error_iff, Logged.mapError_error_iff]
  simp [Logged.mapNotes]

theorem unknown_fails_iff (h : line.head? = some ':') (hname : commandName line ∉ commandNames) :
    (s.step line).1.outcome = .error f ↔
      f = .command ⟨.unknownCommand (commandName line), (namePhrase line).span⟩ := by
  rw [step_error_iff, respond, Line.ofText_command h, commandNamed?_eq_none_iff.2 hname,
    Logged.bind_error_iff, attempt_error_iff]
  simp [attempt_ok_iff]

theorem eval_fails_iff (hname : commandName line = ":eval".toList) :
    (s.step line).1.outcome = .error f ↔
      (s.current = none ∧ f = .command ⟨.noFormula, (namePhrase line).span⟩) ∨
        ∃ e, s.current = some e ∧ Literal.ofText? (commandArgument line) = none ∧
          f = .command ⟨.expected .number, argumentSpan line⟩ := by
  have hnamed : commandNamed? (commandName line) (commandArgument line) =
      some (.eval (commandArgument line)) := by
    rw [hname]
    rfl
  rw [step_error_iff, respond, Line.ofText_named hnamed, attempt, Logged.outcome_bind_ok rfl,
    Logged.outcome_bind_ok rfl]
  dsimp only
  simp only [Logged.bind_error_iff, attempt_error_iff, attempt_ok_iff, formula_error_iff,
    formula_ok_iff, evaluationPoint_error_iff]
  simp [argumentSpan]

theorem tree_fails_iff (hname : commandName line = ":tree".toList) :
    (s.step line).1.outcome = .error f ↔
      s.current = none ∧ f = .command ⟨.noFormula, (namePhrase line).span⟩ := by
  have hnamed : commandNamed? (commandName line) (commandArgument line) = some .tree := by
    rw [hname]
    rfl
  rw [step_error_iff, respond, Line.ofText_named hnamed, attempt, Logged.outcome_bind_ok rfl,
    Logged.outcome_bind_ok rfl]
  dsimp only
  simp only [Logged.bind_error_iff, attempt_error_iff, formula_error_iff]
  simp

theorem help_succeeds (hname : commandName line = ":help".toList) :
    (s.step line).1.outcome ≠ .error f := by
  have hnamed : commandNamed? (commandName line) (commandArgument line) = some .help := by
    rw [hname]
    rfl
  rw [Ne, step_error_iff, respond, Line.ofText_named hnamed, attempt, Logged.outcome_bind_ok rfl,
    Logged.outcome_bind_ok rfl]
  intro h
  cases h

theorem Covers.command_eq {cause : Cause} {span span' : Text.Span} {front words : List Char}
    (h : Covers line (Failure.command ⟨cause, span⟩).span front words)
    (h' : Covers line span' front words) :
    Failure.command ⟨cause, span⟩ = .command ⟨cause, span'⟩ :=
  congrArg (fun place => Failure.command ⟨cause, place⟩) (h.place.trans h'.place.symm)

theorem covers_diffName (hname : commandName line = ":diff".toList) :
    Covers line diffName.span [] (commandName line) := by
  rw [← namePhrase_diff hname]
  exact covers_name line

theorem covers_parse {limit : ℕ} {fault : Parse.Fault}
    (h : (parse limit line).outcome = .error fault) :
    ∃ front words, Covers line fault.span front words := by
  obtain ⟨g, hg, rfl⟩ := parse_error_iff.1 h
  obtain ⟨a, front, pointed, behind, b, -, hfragment, htext, hspan⟩ := Parse.readAll_located hg
  have hstrip : Text.strip line = (a ++ front) ++ (pointed ++ (behind ++ b)) := by
    rw [htext, hfragment]
    simp
  obtain ⟨l, m, r, hline, -, -, -, -, horigin⟩ := Text.Stripped.origin_append hstrip
  exact ⟨l, m, ⟨r, hline⟩, (congrArg _ hspan).trans horigin⟩

theorem Blames.of_step (h : (s.step line).1.outcome = .error f) :
    ∃ front words, Covers line f.span front words ∧ Blames s line f front words := by
  by_cases hline : line.head? = some ':'
  · by_cases hname : commandName line ∈ commandNames
    · simp only [commandNames, List.mem_cons, List.not_mem_nil, or_false] at hname
      rcases hname with hname | hname | hname | hname
      · rcases (eval_fails_iff hname).1 h with ⟨hcurrent, rfl⟩ | ⟨e, hcurrent, hx, rfl⟩
        · exact ⟨_, _, covers_name line, .noFormula (by simp [hname]) (by simp [hname]) hcurrent⟩
        · by_cases hnil : commandArgument line = []
          · exact ⟨_, _, covers_absent hnil, .noArgument hname hcurrent hnil⟩
          · obtain ⟨gap, behind, hgap, -, hparts⟩ := exists_gap line
            exact ⟨_, _, covers_argument hnil hgap hparts, .noNumber hname hcurrent hnil hx hgap⟩
      · rcases (diff_fails_iff hname).1 h with ⟨cause, hcount, rfl⟩ | ⟨count, hcount, hf⟩
        · obtain ⟨gap, behind, hgap, -, hparts⟩ := exists_gap line
          exact ⟨_, _, covers_argument hcount.ne_nil hgap hparts, .miscounted hname hcount hgap⟩
        · rcases differentiated_error_iff.1 hf with ⟨hcurrent, rfl⟩ | ⟨e, power, hcurrent, hd, rfl⟩
          · exact ⟨_, _, covers_diffName hname,
              .noFormula (by simp [hname]) (fun _ => ⟨count, hcount⟩) hcurrent⟩
          · exact ⟨_, _, covers_diffName hname, .noDerivative hname hcount hcurrent hd⟩
      · obtain ⟨hcurrent, rfl⟩ := (tree_fails_iff hname).1 h
        exact ⟨_, _, covers_name line, .noFormula (by simp [hname]) (by simp [hname]) hcurrent⟩
      · exact absurd h (help_succeeds hname)
    · obtain rfl := (unknown_fails_iff hline hname).1 h
      exact ⟨_, _, covers_name line, .unknownCommand hline hname⟩
  · obtain ⟨fault, hparse, rfl⟩ := (formula_fails_iff hline).1 h
    obtain ⟨front, words, hcovers⟩ := covers_parse hparse
    exact ⟨front, words, hcovers, .formula hline hparse⟩

theorem Blames.step {front words : List Char} (h : Blames s line f front words)
    (hcovers : Covers line f.span front words) : (s.step line).1.outcome = .error f := by
  cases h with
  | formula hline hparse => exact (formula_fails_iff hline).2 ⟨_, hparse, rfl⟩
  | unknownCommand hline hname =>
    exact (unknown_fails_iff hline hname).2 (hcovers.command_eq (covers_name line))
  | miscounted hname hcount hgap =>
    obtain ⟨behind, hparts⟩ := hcovers.within
    have hargument := hcovers.command_eq (covers_argument hcount.ne_nil hgap hparts)
    exact (diff_fails_iff hname).2 (.inl ⟨_, hcount, hargument⟩)
  | noFormula hname hcount hcurrent =>
    simp only [List.mem_cons, List.not_mem_nil, or_false] at hname
    rcases hname with hname | hname | hname
    · exact (eval_fails_iff hname).2 (.inl ⟨hcurrent, hcovers.command_eq (covers_name line)⟩)
    · obtain ⟨count, hcount⟩ := hcount hname
      have hmissing := hcovers.command_eq (covers_diffName hname)
      exact (diff_fails_iff hname).2
        (.inr ⟨count, hcount, differentiated_error_iff.2 (.inl ⟨hcurrent, hmissing⟩)⟩)
    · exact (tree_fails_iff hname).2 ⟨hcurrent, hcovers.command_eq (covers_name line)⟩
  | noDerivative hname hcount hcurrent hd =>
    have hpower := hcovers.command_eq (covers_diffName hname)
    exact (diff_fails_iff hname).2
      (.inr ⟨_, hcount, differentiated_error_iff.2 (.inr ⟨_, _, hcurrent, hd, hpower⟩)⟩)
  | noNumber hname hcurrent hne hx hgap =>
    obtain ⟨behind, hparts⟩ := hcovers.within
    have hargument := hcovers.command_eq (covers_argument hne hgap hparts)
    exact (eval_fails_iff hname).2 (.inr ⟨_, hcurrent, hx, hargument⟩)
  | noArgument hname hcurrent hnil =>
    have hx : Literal.ofText? (commandArgument line) = none := by
      rw [hnil]
      rfl
    have hbehind := hcovers.command_eq (covers_absent hnil)
    exact (eval_fails_iff hname).2 (.inr ⟨_, hcurrent, hx, hbehind⟩)

end

/-- A line fails for a cause if and only if the cause applies, and then the failure covers the words
that are at fault: the name up to the first blank, the argument without the blanks around it, the
place behind the name where an argument is missing, or the place that the reading of a formula
points at. -/
theorem failure_located (s : Session) (line : List Char) (f : Failure) :
    (s.step line).1.outcome = .error f ↔
      ∃ front words, Covers line f.span front words ∧ Blames s line f front words := by
  constructor
  · exact Blames.of_step
  · rintro ⟨front, words, hcovers, h⟩
    exact h.step hcovers

example :
    let s : Session := { current := some .var, point := 2.0, limit := 9 }
    (s.step ":eval\u3000é ".toList).1.outcome =
      .error (.command ⟨.expected .number, ⟨8, 10⟩⟩) := by decide +kernel

end Fluxion.Session
