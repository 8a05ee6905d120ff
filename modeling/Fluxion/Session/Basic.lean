import Fluxion.Expr.Outline
import Fluxion.Parse.Basic
import Fluxion.Session.Command

/-!
# Sessions

A session holds the current formula and the settings that never change. A line is carried out as a
whole or not at all: one that fails leaves the session as it was.
-/

set_option autoImplicit false

namespace Fluxion

structure Session where
  current : Option Expr
  /-- Where formulas are evaluated when they are shown. -/
  point : Float
  limit : Nat

namespace Session

def start (point : Float) (limit : Nat) : Session := ⟨none, point, limit⟩

inductive Note where
  | command (command : Command)
  | parse (given : List Char) (note : Parse.Note)
  | derivative (power : RulelessPower)
  deriving DecidableEq, Repr

def Note.record : Note → Record
  | .command c => ⟨.debug, "command: " ++ String.ofList c.noted⟩
  | .parse given n => n.record (Text.strip given)
  | .derivative power => power.record

def valueText (v : Float) : List Char := Literal.positional "inf".toList v

def summary (s : Session) (e : Expr) : List Char :=
  e.outline 0 ++ e.text ++ "\nat x = ".toList ++ valueText s.point ++ ": ".toList ++
    valueText (e.evaluate s.point)

def commandList : List Char :=
  ("<expression>  parse an expression in x and make it the current expression\n" ++
    ":eval <x>     evaluate the current expression at x\n" ++
    ":diff [n]     replace the current expression with its n-th derivative (default 1)\n" ++
    ":tree         print the tree of the current expression\n" ++
    ":help         print this message").toList

def formula (s : Session) (name : Phrase) : Except Complaint Expr :=
  match s.current with
  | some e => .ok e
  | none => .error ⟨.noFormula, name.span⟩

def evaluationPoint (l : Line) (argument : List Char) : Except Complaint Float :=
  match Literal.ofText? argument with
  | some x => .ok x
  | none =>
    let behind : Text.Span := ⟨l.name.span.stop, l.name.span.stop⟩
    .error ⟨.expected .number, l.argument.elim behind Phrase.span⟩

def attempt {α : Type} (r : Except Complaint α) : Logged Note Failure α :=
  Logged.ofExcept (r.mapError .command)

def respond (s : Session) (line : List Char) : Logged Note Failure (List Char × Session) := do
  let l ← attempt (Line.ofText line)
  Logged.note (.command l.command)
  match l.command with
  | .formula text =>
    let e ← ((parse s.limit text).mapNotes (.parse text)).mapError .formula
    pure (s.summary e, { s with current := some e })
  | .eval argument =>
    let e ← attempt (s.formula l.name)
    let x ← attempt (evaluationPoint l argument)
    pure (valueText (e.evaluate x), s)
  | .diff =>
    let n ← attempt (countAsked l.argument)
    let e ← attempt (s.formula l.name)
    let d ← ((e.iteratedDerivative n).mapNotes .derivative).mapError fun power =>
      .command ⟨.noDerivative power, l.name.span⟩
    pure (s.summary d, { s with current := some d })
  | .tree =>
    let e ← attempt (s.formula l.name)
    pure (e.outline 0, s)
  | .help => pure (commandList, s)

abbrev Reply := Logged Note Failure (List Char)

def step (s : Session) (line : List Char) : Reply × Session :=
  let r := s.respond line
  match r.outcome with
  | .ok (text, s') => (⟨r.notes, .ok text⟩, s')
  | .error e => (⟨r.notes, .error e⟩, s)

theorem step_ok {s s' : Session} {line text : List Char}
    (h : (s.respond line).outcome = .ok (text, s')) :
    s.step line = (⟨(s.respond line).notes, .ok text⟩, s') := by
  simp only [step, h]

theorem step_error {s : Session} {line : List Char} {e : Failure}
    (h : (s.respond line).outcome = .error e) :
    s.step line = (⟨(s.respond line).notes, .error e⟩, s) := by
  simp only [step, h]

def run (s : Session) : List (List Char) → List Reply × Session
  | [] => ([], s)
  | line :: lines =>
    let r := s.step line
    let more := r.2.run lines
    (r.1 :: more.1, more.2)

end Session

end Fluxion
