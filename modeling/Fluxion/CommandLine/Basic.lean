import Fluxion.CommandLine.Arguments
import Fluxion.Session.Basic

/-!
# Scripts and the command line

A script is carried out line by line. Blanks around a line do not count and blank lines are left
out; a failing line adds an error and nothing to the output, and the lines after it still run.

A run reads one script, from a file or from standard input, and prints what a new session makes of
it. What cannot be read is an error of the whole run.
-/

set_option autoImplicit false

namespace Fluxion.Session

def splitLines (text : List Char) : List (List Char) :=
  text.foldr
    (fun c pieces =>
      if c = '\n' then [] :: pieces
      else
        match pieces with
        | [] => [[c]]
        | piece :: rest => (c :: piece) :: rest)
    [[]]

def scriptLines (text : List Char) : List (List Char) :=
  ((splitLines text).map Text.trim).filter fun line => !line.isEmpty

structure Report where
  output : List Char
  failures : List Failure
  notes : List Note

def Report.empty : Report := ⟨[], [], []⟩

/-- Adds the reply to a line: one line of output without the blanks at its end, or an error. -/
def Report.add (reply : Reply) (rest : Report) : Report :=
  match reply.outcome with
  | .ok text => ⟨Text.trimEnd text ++ '\n' :: rest.output, rest.failures, reply.notes ++ rest.notes⟩
  | .error e => ⟨rest.output, e :: rest.failures, reply.notes ++ rest.notes⟩

def runScript (s : Session) (text : List Char) : Report :=
  (s.run (scriptLines text)).1.foldr Report.add Report.empty

def Report.exitCode (r : Report) : Nat := if r.failures.isEmpty then 0 else 1

end Fluxion.Session

namespace Fluxion.CommandLine

inductive ReadError where
  | notFound
  | notDirectory
  | isDirectory
  | nameTooLong
  | notText
  | other (description : String)
  deriving DecidableEq, Repr

def ReadError.description : ReadError → String
  | .notFound => "No such file or directory (os error 2)"
  | .notDirectory => "Not a directory (os error 20)"
  | .isDirectory => "Is a directory (os error 21)"
  | .nameTooLong => "File name too long (os error 36)"
  | .notText => "stream did not contain valid UTF-8"
  | .other description => description

def decode (bytes : ByteArray) : Except ReadError (List Char) :=
  match String.fromUTF8? bytes with
  | some text => .ok text.toList
  | none => .error .notText

structure Outcome where
  exitCode : Nat
  output : List Char
  errors : List String
  log : List Record
  deriving DecidableEq, Repr

def headline (f : Session.Failure) : String := "Error: " ++ f.diagnostic.message

def Settings.origin (s : Settings) : String :=
  match s.file with
  | some name => String.ofList name
  | none => "stdin"

def execute (settings : Settings) (script : Except ReadError (List Char)) : Outcome :=
  match script with
  | .error e => ⟨1, [], ["could not read " ++ settings.origin ++ ": " ++ e.description], []⟩
  | .ok text =>
    let report := (Session.start settings.point settings.limit).runScript text
    ⟨report.exitCode, report.output, report.failures.map headline,
      if settings.verbose then
        (report.notes.map Session.Note.record).filter fun r => r.level = .debug
      else []⟩

def versionText : String := "dx-repl 0.1.0\n"

def usageText : String :=
  "Parse, evaluate and differentiate expressions in `x`\n\n" ++
    "Usage: dx [OPTIONS] [FILE]\n\n" ++
    "Arguments:\n" ++
    "  [FILE]  Read lines from this file instead of stdin\n\n" ++
    "Options:\n" ++
    "      --max-depth <MAX_DEPTH>  Maximum nesting depth of an expression [default: 256]\n" ++
    "      --at <AT>                Value of `x` used when printing a new expression [default: 0]\n" ++
    "  -v, --verbose                Print debug logs\n" ++
    "  -h, --help                   Print help\n" ++
    "  -V, --version                Print version\n"

def Plan.outcome (read : Settings → Except ReadError (List Char)) : Plan → Outcome
  | .run settings => execute settings (read settings)
  | .help => ⟨0, usageText.toList, [], []⟩
  | .version => ⟨0, versionText.toList, [], []⟩
  | .usageError => ⟨2, [], [], []⟩

end Fluxion.CommandLine
