import Fluxion.Literal.Basic
import Fluxion.Parse.Basic

/-!
# Arguments of the command line

Arguments are taken from left to right. The first one that is wrong, or that asks for help or the
version, decides; otherwise they make up the settings of a run.
-/

set_option autoImplicit false

namespace Fluxion.CommandLine

structure Settings where
  file : Option (List Char)
  limit : Nat
  point : Float
  verbose : Bool

inductive Plan where
  | run (settings : Settings)
  | help
  | version
  | usageError

structure Given where
  file : Option (List Char)
  limit : Option Nat
  point : Option Float
  verbose : Bool

def Given.none : Given := ⟨.none, .none, .none, false⟩

def Given.settings (g : Given) : Settings :=
  ⟨g.file, g.limit.getD Parse.defaultLimit, g.point.getD 0.0, g.verbose⟩

/-- A number as a setting: a decimal, or a word for infinity or for no number, in letters of
either case. -/
def point? (text : List Char) : Option Float :=
  let s := Numeral.sign text
  let word := s.2.map Char.toLower
  if word = "nan".toList then some Binary64.nan
  else if word = "inf".toList ∨ word = "infinity".toList then some (Binary64.infinity s.1)
  else
    match Numeral.read s.2 with
    | some (numeral, []) => some (Literal.decimal s.1 numeral).value
    | _ => none

inductive Setting where
  | limit
  | point
  deriving DecidableEq, Repr

def Given.set? (g : Given) (setting : Setting) (value : List Char) : Option Given :=
  match setting with
  | .limit =>
    if g.limit.isSome then .none
    else (Text.wholeNumber? value).map fun n => { g with limit := some n }
  | .point =>
    if g.point.isSome then .none else (point? value).map fun v => { g with point := some v }

def Given.setFile? (g : Given) (name : List Char) : Option Given :=
  if g.file.isSome ∨ name = [] then .none else some { g with file := some name }

def Given.setVerbose? (g : Given) : Option Given :=
  if g.verbose then .none else some { g with verbose := true }

/-- Digits with at most one point, which is not in front, and perhaps an `e` or `E` among them
behind it, neither first nor last. -/
def looksNumeric (text : List Char) : Bool :=
  let exponent := text.dropWhile fun c => !(c == 'e' || c == 'E')
  let digits := text.takeWhile fun c => !(c == 'e' || c == 'E')
  let fraction := digits.dropWhile (· != '.')
  digits.all (fun c => c.isDigit || c == '.') && (fraction.drop 1).all Char.isDigit &&
    digits.head? != some '.' &&
    (exponent.isEmpty ||
      (!digits.isEmpty && !(exponent.drop 1).isEmpty && (exponent.drop 1).all Char.isDigit))

/-- Whether an argument of its own can be the value of an option. One that starts with a dash can
not, except for a dash alone and for a negative number as the point. -/
def isValue (setting : Setting) (argument : List Char) : Bool :=
  match argument with
  | '-' :: [] => true
  | '-' :: rest => setting == .point && looksNumeric rest
  | _ => true

inductive Argument where
  | positional (name : List Char)
  | setting (setting : Setting) (value : Option (List Char))
  | flags (letters : List Char)
  | endOfOptions
  | unknown
  deriving DecidableEq, Repr

def longOption (text : List Char) : Argument :=
  let name := text.takeWhile (· != '=')
  match text.dropWhile (· != '=') with
  | _ :: value =>
    if name = "max-depth".toList then .setting .limit (some value)
    else if name = "at".toList then .setting .point (some value)
    else .unknown
  | [] =>
    if name = "max-depth".toList then .setting .limit none
    else if name = "at".toList then .setting .point none
    else if name = "verbose".toList then .flags ['v']
    else if name = "help".toList then .flags ['h']
    else if name = "version".toList then .flags ['V']
    else .unknown

def Argument.ofText : List Char → Argument
  | ['-', '-'] => .endOfOptions
  | '-' :: '-' :: rest => longOption rest
  | ['-'] => .positional ['-']
  | '-' :: letters => .flags letters
  | name => .positional name

/-- Flags one after the other: the settings with them, or the plan that one of them decides. -/
def applyFlags (g : Given) : List Char → Except Plan Given
  | [] => .ok g
  | 'v' :: rest =>
    match g.setVerbose? with
    | some g' => applyFlags g' rest
    | none => .error .usageError
  | 'h' :: _ => .error .help
  | 'V' :: _ => .error .version
  | _ :: _ => .error .usageError

def applyPositionals (g : Given) : List (List Char) → Plan
  | [] => .run g.settings
  | name :: rest =>
    match g.setFile? name with
    | some g' => applyPositionals g' rest
    | none => .usageError

def planFrom (g : Given) : List (List Char) → Plan
  | [] => .run g.settings
  | argument :: rest =>
    match Argument.ofText argument with
    | .positional name =>
      match g.setFile? name with
      | some g' => planFrom g' rest
      | none => .usageError
    | .setting setting (some value) =>
      match g.set? setting value with
      | some g' => planFrom g' rest
      | none => .usageError
    | .setting setting none =>
      match rest with
      | [] => .usageError
      | value :: rest =>
        match isValue setting value, g.set? setting value with
        | true, some g' => planFrom g' rest
        | _, _ => .usageError
    | .flags letters =>
      match applyFlags g letters with
      | .ok g' => planFrom g' rest
      | .error plan => plan
    | .endOfOptions => applyPositionals g rest
    | .unknown => .usageError

def plan (arguments : List (List Char)) : Plan := planFrom .none arguments

end Fluxion.CommandLine
