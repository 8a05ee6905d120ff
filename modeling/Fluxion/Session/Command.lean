import Fluxion.Literal.Numeral
import Fluxion.Session.Complaint
import Fluxion.Text.Escaped
import Fluxion.Text.Stripped

/-!
# Lines and commands

A line that starts with a colon is a command: a name up to the first blank, and perhaps an argument.
Every other line is a formula as it stands.
-/

set_option autoImplicit false

namespace Fluxion.Session

structure Phrase where
  text : List Char
  span : Text.Span
  deriving DecidableEq, Repr

inductive Command where
  | formula (text : List Char)
  | eval (argument : List Char)
  | diff
  | tree
  | help
  deriving DecidableEq, Repr

def Command.noted : Command → List Char
  | .formula text => "Expr(".toList ++ Text.quoted text ++ [')']
  | .eval argument => "Eval(".toList ++ Text.quoted argument ++ [')']
  | .diff => "Diff".toList
  | .tree => "Tree".toList
  | .help => "Help".toList

structure Line where
  command : Command
  name : Phrase
  argument : Option Phrase
  deriving DecidableEq, Repr

def commandNamed? (name argument : List Char) : Option Command :=
  if name = ":eval".toList then some (.eval argument)
  else if name = ":diff".toList then some .diff
  else if name = ":tree".toList then some .tree
  else if name = ":help".toList then some .help
  else none

/-- The rest of a line behind a name of the given size, without the blanks at its ends. -/
def argument? (size : Nat) (rest : List Char) : Option Phrase :=
  let text := Text.trim rest
  if text.isEmpty then none
  else
    let start := size + Text.byteSize (rest.takeWhile Text.isBlank)
    some ⟨text, ⟨start, start + Text.byteSize text⟩⟩

def Line.ofText (line : List Char) : Except Complaint Line :=
  if line.head? = some ':' then
    let name := line.takeWhile fun c => !Text.isBlank c
    let phrase : Phrase := ⟨name, Text.Span.whole name⟩
    let argument := argument? (Text.byteSize name) (line.dropWhile fun c => !Text.isBlank c)
    match commandNamed? name (argument.elim [] Phrase.text) with
    | some command => .ok ⟨command, phrase, argument⟩
    | none => .error ⟨.unknownCommand name, phrase.span⟩
  else .ok ⟨.formula line, ⟨line, Text.Span.whole line⟩, none⟩

/-- How many derivatives an argument asks for: one, if there is none. -/
def countAsked (argument : Option Phrase) : Except Complaint Nat :=
  match argument with
  | none => .ok 1
  | some phrase =>
    match Text.wholeNumber? phrase.text with
    | none => .error ⟨.expected .wholeNumber, phrase.span⟩
    | some n =>
      if 1 ≤ n ∧ n ≤ greatestCount then .ok n else .error ⟨.countOutOfRange n, phrase.span⟩

end Fluxion.Session
