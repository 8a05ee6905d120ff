import Fluxion.Proofs.Session.Derivatives
import Fluxion.Proofs.Text.WholeNumber

/-!
# The count of a `:diff` line

The argument of a `:diff` line is a whole number from one to eight, or there is none and the count
is one. A whole number outside of this range is refused as one, and every other argument as no
whole number. This comes before the line asks for the current formula.
-/

set_option autoImplicit false

namespace Fluxion.Session

def Counts (argument : List Char) (count : ℕ) : Prop :=
  argument = [] ∧ count = 1 ∨ Text.WholeNumber argument count ∧ 1 ≤ count ∧ count ≤ 8

inductive Miscounts (argument : List Char) : Cause → Prop
  | noNumber (hne : argument ≠ []) (h : ∀ n < 2 ^ 64, ¬ Text.WholeNumber argument n) :
      Miscounts argument (.expected .wholeNumber)
  | outOfRange {n : ℕ} (h : Text.WholeNumber argument n) (hn : n = 0 ∨ 9 ≤ n ∧ n < 2 ^ 64) :
      Miscounts argument (.countOutOfRange n)

theorem Miscounts.ne_nil {argument : List Char} {cause : Cause} (h : Miscounts argument cause) :
    argument ≠ [] := by
  cases h with
  | noNumber hne _ => exact hne
  | outOfRange h _ => exact h.ne_nil

theorem counts_or_miscounts (argument : List Char) :
    (∃ count, Counts argument count) ∨ ∃ cause, Miscounts argument cause := by
  by_cases hne : argument = []
  · exact .inl ⟨1, .inl ⟨hne, rfl⟩⟩
  cases hw : Text.wholeNumber? argument with
  | none => exact .inr ⟨_, .noNumber hne (Text.wholeNumber?_eq_none_iff.1 hw)⟩
  | some n =>
    obtain ⟨hn, hlt⟩ := Text.wholeNumber?_eq_some_iff.1 hw
    by_cases hrange : 1 ≤ n ∧ n ≤ 8
    · exact .inl ⟨n, .inr ⟨hn, hrange⟩⟩
    · exact .inr ⟨_, .outOfRange hn (by omega)⟩

section
variable {s : Session} {line : List Char} {count : ℕ} {cause : Cause} {f : Failure}

theorem asks_of_counts (hname : commandName line = ":diff".toList)
    (h : Counts (commandArgument line) count) : Asks line count := by
  obtain ⟨hnil, rfl⟩ | ⟨hn, hleast, hmost⟩ := h
  · refine ⟨?_, by decide, by decide⟩
    rw [derivativesAsked, if_pos hname, if_pos hnil]
  · have hread := Text.wholeNumber?_eq_some_iff.2 ⟨hn, by omega⟩
    refine ⟨?_, hleast, hmost⟩
    rw [derivativesAsked, if_pos hname, if_neg hn.ne_nil, hread]
    rfl

theorem countAsked_of_miscounts (h : Miscounts (commandArgument line) cause) :
    countAsked (argumentPhrase line) = .error ⟨cause, argumentSpan line⟩ := by
  cases h with
  | noNumber hne h =>
    rw [argumentPhrase_present hne, countAsked]
    dsimp only
    rw [Text.wholeNumber?_eq_none_iff.2 h]
  | outOfRange h hn =>
    have hread := Text.wholeNumber?_eq_some_iff.2 ⟨h, by omega⟩
    rw [argumentPhrase_present h.ne_nil, countAsked]
    dsimp only
    rw [hread]
    exact if_neg (by rw [greatestCount]; omega)

theorem countAsked_iff (hname : commandName line = ":diff".toList) :
    countAsked (argumentPhrase line) = .ok count ↔ Counts (commandArgument line) count := by
  constructor
  · intro h
    rcases counts_or_miscounts (commandArgument line) with ⟨count', hc⟩ | ⟨cause, hc⟩
    · rw [(asks_of_counts hname hc).countAsked] at h
      exact Except.ok.inj h ▸ hc
    · rw [countAsked_of_miscounts hc] at h
      cases h
  · intro h
    exact (asks_of_counts hname h).countAsked

theorem step_of_miscounts (hname : commandName line = ":diff".toList)
    (h : Miscounts (commandArgument line) cause) (s : Session) :
    (s.step line).1.outcome = .error (.command ⟨cause, argumentSpan line⟩) := by
  have hrespond : (s.respond line).outcome = .error (.command ⟨cause, argumentSpan line⟩) := by
    rw [respond, ofText_diff hname, attempt, Logged.outcome_bind_ok rfl, Logged.outcome_bind_ok rfl]
    dsimp only
    rw [countAsked_of_miscounts h]
    exact Logged.outcome_bind_error rfl
  rw [step_error hrespond]

theorem differentiated_error_iff :
    (s.differentiated count).1 = .error f ↔
      (s.current = none ∧ f = .command ⟨.noFormula, diffName.span⟩) ∨
        ∃ e power, s.current = some e ∧ (e.iteratedDerivative count).outcome = .error power ∧
          f = .command ⟨.noDerivative power, diffName.span⟩ := by
  unfold differentiated
  split
  · next hcurrent => simp [hcurrent, eq_comm]
  · next e hcurrent =>
    split
    · next d hd => simp [hcurrent, hd]
    · next power hd => simp [hcurrent, hd, eq_comm]

theorem diff_fails_iff (hname : commandName line = ":diff".toList) :
    (s.step line).1.outcome = .error f ↔
      (∃ cause, Miscounts (commandArgument line) cause ∧ f = .command ⟨cause, argumentSpan line⟩) ∨
        ∃ count, Counts (commandArgument line) count ∧ (s.differentiated count).1 = .error f := by
  constructor
  · intro h
    rcases counts_or_miscounts (commandArgument line) with ⟨count, hc⟩ | ⟨cause, hc⟩
    · have hstep := congrArg Prod.fst ((asks_of_counts hname hc).step s)
      exact .inr ⟨count, hc, hstep.symm.trans h⟩
    · rw [step_of_miscounts hname hc s] at h
      exact .inl ⟨cause, hc, (Except.error.inj h).symm⟩
  · rintro (⟨cause, hc, rfl⟩ | ⟨count, hc, h⟩)
    · exact step_of_miscounts hname hc s
    · exact (congrArg Prod.fst ((asks_of_counts hname hc).step s)).trans h

theorem miscounts_of_step {span : Text.Span} (hname : commandName line = ":diff".toList)
    (h : (s.step line).1.outcome = .error (.command ⟨cause, span⟩)) :
    Miscounts (commandArgument line) cause ∨ cause = .noFormula ∨
      ∃ power, cause = .noDerivative power := by
  rcases (diff_fails_iff hname).1 h with ⟨cause', hc, hf⟩ | ⟨count, -, hf⟩
  · cases hf
    exact .inl hc
  · rcases differentiated_error_iff.1 hf with ⟨-, hf⟩ | ⟨e, power, -, -, hf⟩
    · cases hf
      exact .inr (.inl rfl)
    · cases hf
      exact .inr (.inr ⟨power, rfl⟩)

end

/-- The argument of a `:diff` line is read exactly. It is a valid count if it is left out, which
counts as one, or if it is a whole number from one to eight, and then the line takes so many
derivatives. Zero and every number from nine up to the greatest one of 64 bits is refused as out of
range, and every other argument as no whole number, whatever the session. -/
theorem diff_count_exact {line : List Char} (hname : commandName line = ":diff".toList)
    (s : Session) :
    (∀ count, (∃ l, Line.ofText line = .ok l ∧ l.command = .diff ∧
      countAsked l.argument = .ok count) ↔ Counts (commandArgument line) count) ∧
    (∀ count, Counts (commandArgument line) count →
      ((s.step line).1.outcome, (s.step line).2) = s.differentiated count) ∧
    (∀ n, (∃ span, (s.step line).1.outcome = .error (.command ⟨.countOutOfRange n, span⟩)) ↔
      Text.WholeNumber (commandArgument line) n ∧ (n = 0 ∨ 9 ≤ n ∧ n < 2 ^ 64)) ∧
    ((∃ span, (s.step line).1.outcome = .error (.command ⟨.expected .wholeNumber, span⟩)) ↔
      commandArgument line ≠ [] ∧ ∀ n < 2 ^ 64, ¬ Text.WholeNumber (commandArgument line) n) := by
  refine ⟨fun count => ⟨?_, ?_⟩, fun count h => ?_, fun n => ⟨?_, ?_⟩, ?_, ?_⟩
  · rintro ⟨l, hl, -, hcount⟩
    obtain rfl := Except.ok.inj ((ofText_diff hname).symm.trans hl)
    exact (countAsked_iff hname).1 hcount
  · intro h
    exact ⟨_, ofText_diff hname, rfl, (countAsked_iff hname).2 h⟩
  · exact (asks_of_counts hname h).step s
  · rintro ⟨span, h⟩
    rcases miscounts_of_step hname h with hc | hc | ⟨power, hc⟩
    · cases hc with
      | outOfRange h hn => exact ⟨h, hn⟩
    · cases hc
    · cases hc
  · rintro ⟨h, hn⟩
    exact ⟨_, step_of_miscounts hname (.outOfRange h hn) s⟩
  · rintro ⟨span, h⟩
    rcases miscounts_of_step hname h with hc | hc | ⟨power, hc⟩
    · cases hc with
      | noNumber hne h => exact ⟨hne, h⟩
    · cases hc
    · cases hc
  · rintro ⟨hne, h⟩
    exact ⟨_, step_of_miscounts hname (.noNumber hne h) s⟩

theorem diff_count_exact_at_word_size :
    let s := start 2.0 9
    let greatest := ":diff 0018446744073709551615".toList
    let next := ":diff 18446744073709551616".toList
    let three := ":diff  +003 ".toList
    (∃ span, (s.step greatest).1.outcome =
      .error (.command ⟨.countOutOfRange (2 ^ 64 - 1), span⟩)) ∧
    (∃ span, (s.step next).1.outcome = .error (.command ⟨.expected .wholeNumber, span⟩)) ∧
    ((s.step three).1.outcome, (s.step three).2) = s.differentiated 3 := by
  intro s greatest next three
  have hgreatest : Text.wholeNumber? (commandArgument greatest) = some (2 ^ 64 - 1) := by decide
  have hnext : Text.wholeNumber? (commandArgument next) = none := by decide
  have hthree : Text.wholeNumber? (commandArgument three) = some 3 := by decide
  obtain ⟨-, -, hout, -⟩ := @diff_count_exact greatest (by decide) s
  obtain ⟨-, -, -, hwrong⟩ := @diff_count_exact next (by decide) s
  obtain ⟨-, htaken, -⟩ := @diff_count_exact three (by decide) s
  refine ⟨(hout _).2 ⟨(Text.wholeNumber?_eq_some_iff.1 hgreatest).1, by decide⟩, ?_, ?_⟩
  · exact hwrong.2 ⟨by decide, Text.wholeNumber?_eq_none_iff.1 hnext⟩
  · exact htaken 3 (.inr ⟨(Text.wholeNumber?_eq_some_iff.1 hthree).1, by decide⟩)

end Fluxion.Session
