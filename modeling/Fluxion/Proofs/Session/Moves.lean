import Fluxion.Proofs.Logged
import Fluxion.Session.Basic

/-!
# What a line can do

A line is refused, and the session stays as it is; or it is carried out in one of five ways, of
which two replace the current formula. The settings of a session never change.
-/

set_option autoImplicit false

namespace Fluxion.Session

def commandName (line : List Char) : List Char := line.takeWhile fun c => !Text.isBlank c

def commandArgument (line : List Char) : List Char :=
  Text.trim (line.dropWhile fun c => !Text.isBlank c)

/-- How many derivatives a line asks for: none if it is no `:diff`, one if its argument is left
out. -/
def derivativesAsked (line : List Char) : Nat :=
  if commandName line = ":diff".toList then
    if commandArgument line = [] then 1
    else (Text.wholeNumber? (commandArgument line)).getD 0
  else 0

def Accepted (reply : Reply) : Prop := reply.outcome.isOk = true

instance (reply : Reply) : Decidable (Accepted reply) := inferInstanceAs (Decidable (_ = true))

theorem accepted_of_ok {reply : Reply} {text : List Char} (h : reply.outcome = .ok text) :
    Accepted reply := by
  rw [Accepted, h]
  rfl

theorem not_accepted_of_error {reply : Reply} {e : Failure} (h : reply.outcome = .error e) :
    ¬ Accepted reply := by
  rw [Accepted, h]
  exact Bool.false_ne_true

/-- The outcome of a line in a session, and the session after it. -/
inductive Move (s : Session) (line : List Char) : Except Failure (List Char) → Session → Prop
  | refused (e : Failure) : Move s line (.error e) s
  | entered {e : Expr} (hline : line.head? ≠ some ':')
      (he : (parse s.limit line).outcome = .ok e) :
      Move s line (.ok (s.summary e)) { s with current := some e }
  | evaluated {e : Expr} {x : Float} (hname : commandName line = ":eval".toList)
      (hcurrent : s.current = some e) (hx : Literal.ofText? (commandArgument line) = some x) :
      Move s line (.ok (valueText (e.evaluate x))) s
  | differentiated {e d : Expr} (hname : commandName line = ":diff".toList)
      (hcount : 1 ≤ derivativesAsked line ∧ derivativesAsked line ≤ greatestCount)
      (hcurrent : s.current = some e)
      (hd : (e.iteratedDerivative (derivativesAsked line)).outcome = .ok d) :
      Move s line (.ok (s.summary d)) { s with current := some d }
  | outlined {e : Expr} (hname : commandName line = ":tree".toList) (hcurrent : s.current = some e) :
      Move s line (.ok (e.outline 0)) s
  | helped (hname : commandName line = ":help".toList) : Move s line (.ok commandList) s

theorem commandNamed?_some {name text : List Char} {c : Command}
    (h : commandNamed? name text = some c) :
    (name = ":eval".toList ∧ c = .eval text) ∨ (name = ":diff".toList ∧ c = .diff) ∨
      (name = ":tree".toList ∧ c = .tree) ∨ (name = ":help".toList ∧ c = .help) := by
  unfold commandNamed? at h
  split at h
  · exact .inl ⟨‹_›, (Option.some.inj h).symm⟩
  split at h
  · exact .inr (.inl ⟨‹_›, (Option.some.inj h).symm⟩)
  split at h
  · exact .inr (.inr (.inl ⟨‹_›, (Option.some.inj h).symm⟩))
  split at h
  · exact .inr (.inr (.inr ⟨‹_›, (Option.some.inj h).symm⟩))
  · cases h

theorem argument?_text (size : Nat) (rest : List Char) :
    (argument? size rest).elim [] Phrase.text = Text.trim rest := by
  dsimp only [argument?]
  split
  · next h => exact (List.isEmpty_iff.1 h).symm
  · rfl

theorem Line.of_ofText {line : List Char} {l : Line} (h : Line.ofText line = .ok l) :
    (line.head? ≠ some ':' ∧ l.command = .formula line) ∨
      (commandNamed? (commandName line) (commandArgument line) = some l.command ∧
        l.argument.elim [] Phrase.text = commandArgument line) := by
  unfold Line.ofText at h
  split at h
  · dsimp only at h
    rw [argument?_text] at h
    split at h
    · next command hc =>
      cases h
      exact .inr ⟨hc, argument?_text _ _⟩
    · cases h
  · next hhead =>
    cases h
    exact .inl ⟨hhead, rfl⟩

theorem countAsked_ok {l : Line} {line : List Char} {n : Nat}
    (hl : l.argument.elim [] Phrase.text = commandArgument line)
    (hw : commandName line = ":diff".toList) (h : countAsked l.argument = .ok n) :
    derivativesAsked line = n ∧ 1 ≤ n ∧ n ≤ greatestCount := by
  rw [derivativesAsked, if_pos hw, ← hl]
  unfold countAsked at h
  split at h
  · next ha =>
    cases h
    rw [ha]
    exact ⟨if_pos rfl, by decide⟩
  · next phrase ha =>
    split at h
    · cases h
    · next m hm =>
      split at h
      · next hbounds =>
        cases h
        have hne : phrase.text ≠ [] := by
          intro hnil
          rw [hnil] at hm
          cases hm
        rw [ha, Option.elim_some, if_neg hne, hm]
        exact ⟨rfl, hbounds⟩
      · cases h

example : derivativesAsked ":diff  +03 ".toList = 3 := by decide

theorem ok_of_attempt {α : Type} {r : Except Complaint α} {a : α}
    (h : (attempt r).outcome = .ok a) : r = .ok a := by
  cases r with
  | error e => cases h
  | ok b => cases h; rfl

theorem current_of_formula {s : Session} {name : Phrase} {e : Expr}
    (h : s.formula name = .ok e) : s.current = some e := by
  unfold formula at h
  split at h
  · next hc => cases h; exact hc
  · cases h

theorem value_of_evaluationPoint {l : Line} {text : List Char} {x : Float}
    (h : evaluationPoint l text = .ok x) : Literal.ofText? text = some x := by
  unfold evaluationPoint at h
  split at h
  · next hx => cases h; exact hx
  · cases h

theorem Move.of_respond {s s' : Session} {line text : List Char}
    (h : (s.respond line).outcome = .ok (text, s')) : Move s line (.ok text) s' := by
  unfold respond at h
  obtain ⟨l, hl, h⟩ := Logged.ok_of_bind_ok h
  obtain ⟨_, _, h⟩ := Logged.ok_of_bind_ok h
  rcases Line.of_ofText (ok_of_attempt hl) with ⟨hline, hc⟩ | ⟨hname, ha⟩
  · rw [hc] at h
    obtain ⟨e, he, h⟩ := Logged.ok_of_bind_ok h
    cases h
    exact .entered hline (Logged.ok_of_mapError he)
  · rcases commandNamed?_some hname with ⟨hw, hc⟩ | ⟨hw, hc⟩ | ⟨hw, hc⟩ | ⟨hw, hc⟩ <;> rw [hc] at h
    · obtain ⟨e, he, h⟩ := Logged.ok_of_bind_ok h
      obtain ⟨x, hx, h⟩ := Logged.ok_of_bind_ok h
      cases h
      exact .evaluated hw (current_of_formula (ok_of_attempt he))
        (value_of_evaluationPoint (ok_of_attempt hx))
    · obtain ⟨n, hn, h⟩ := Logged.ok_of_bind_ok h
      obtain ⟨e, he, h⟩ := Logged.ok_of_bind_ok h
      obtain ⟨d, hd, h⟩ := Logged.ok_of_bind_ok h
      cases h
      obtain ⟨rfl, hcount⟩ := countAsked_ok ha hw (ok_of_attempt hn)
      exact .differentiated hw hcount (current_of_formula (ok_of_attempt he))
        (Logged.ok_of_mapError hd)
    · obtain ⟨e, he, h⟩ := Logged.ok_of_bind_ok h
      cases h
      exact .outlined hw (current_of_formula (ok_of_attempt he))
    · have h := Prod.mk.inj (Except.ok.inj h)
      rw [← h.1, ← h.2]
      exact .helped hw

theorem head_of_commandName {line name : List Char} {c : Char}
    (h : commandName line = c :: name) : line.head? = some c := by
  cases line with
  | nil => cases h
  | cons d rest =>
    rw [commandName, List.takeWhile_cons] at h
    split at h
    · cases h
      rfl
    · cases h

theorem derivativesAsked_of_ne {line : List Char} (h : commandName line ≠ ":diff".toList) :
    derivativesAsked line = 0 := if_neg h

def queries : List (List Char) := [":eval".toList, ":tree".toList, ":help".toList]

namespace Move

variable {s s' : Session} {line : List Char} {outcome : Except Failure (List Char)}

theorem settings (h : Move s line outcome s') : s'.point = s.point ∧ s'.limit = s.limit := by
  cases h <;> exact ⟨rfl, rfl⟩

theorem of_failed (h : Move s line outcome s') (hfailed : outcome.isOk = false) : s' = s := by
  cases h with
  | refused => rfl
  | _ => cases hfailed

theorem of_query (h : Move s line outcome s') (hq : commandName line ∈ queries) : s' = s := by
  have hhead : line.head? = some ':' := by
    simp only [queries, List.mem_cons, List.not_mem_nil, or_false] at hq
    rcases hq with hname | hname | hname <;> exact head_of_commandName hname
  cases h with
  | entered hline he => exact absurd hhead hline
  | differentiated hname =>
    rw [hname] at hq
    exact absurd hq (by decide)
  | _ => rfl

end Move

theorem move_step (s : Session) (line : List Char) :
    Move s line (s.step line).1.outcome (s.step line).2 := by
  cases h : (s.respond line).outcome with
  | error e =>
    rw [step_error h]
    exact .refused e
  | ok r =>
    rw [step_ok h]
    exact .of_respond h

theorem step_of_not_accepted {s : Session} {line : List Char}
    (h : ¬ Accepted (s.step line).1) : (s.step line).2 = s :=
  (move_step s line).of_failed (eq_false_of_ne_true h)

section
variable (s : Session) (lines : List (List Char))

theorem length_run : (s.run lines).1.length = lines.length := by
  induction lines generalizing s with
  | nil => rfl
  | cons line lines ih => exact congrArg Nat.succ (ih _)

theorem run_append (more : List (List Char)) :
    s.run (lines ++ more) =
      ((s.run lines).1 ++ ((s.run lines).2.run more).1, ((s.run lines).2.run more).2) := by
  induction lines generalizing s with
  | nil => rfl
  | cons line lines ih =>
    rw [List.cons_append, run, ih]
    rfl

theorem run_settings :
    (s.run lines).2.point = s.point ∧ (s.run lines).2.limit = s.limit := by
  induction lines generalizing s with
  | nil => exact ⟨rfl, rfl⟩
  | cons line lines ih =>
    obtain ⟨hpoint, hlimit⟩ := (move_step s line).settings
    obtain ⟨ihpoint, ihlimit⟩ := ih (s.step line).2
    exact ⟨ihpoint.trans hpoint, ihlimit.trans hlimit⟩

end

end Fluxion.Session
