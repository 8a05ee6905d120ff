import Fluxion.Expr.Derivative
import Fluxion.Logged
import Fluxion.Parse.Refusal

/-!
# Why a line fails

A line fails as a formula that cannot be read, or as a command that cannot be carried out; the
complaint about a command points at its name or at its argument.
-/

set_option autoImplicit false

namespace Fluxion.Session

inductive Expected where
  | number
  | wholeNumber
  deriving DecidableEq, Repr

def Expected.description : Expected → String
  | .number => "a number"
  | .wholeNumber => "a whole number"

def greatestCount : Nat := 8

inductive Cause where
  | unknownCommand (name : List Char)
  | noFormula
  | expected (what : Expected)
  | countOutOfRange (count : Nat)
  | noDerivative (power : RulelessPower)
  deriving DecidableEq, Repr

def Cause.diagnostic : Cause → Diagnostic
  | .unknownCommand name =>
    { message := "unknown command `" ++ String.ofList name ++ "`"
      label := "this command does not exist"
      help := some ("type " ++ highlight ":help" ++ " for a list of commands") }
  | .noFormula =>
    { message := "there is no current expression"
      label := "this command needs an expression to work on"
      help := some ("enter an expression first, such as " ++ highlight "x^2 + 1") }
  | .expected what =>
    { message := "expected " ++ what.description
      label := "I expected " ++ what.description ++ " here"
      help := none }
  | .countOutOfRange count =>
    { message := "cannot take " ++ toString count ++ " derivatives at once"
      label := "this count is out of range"
      help := some ("the count must be between 1 and " ++ toString greatestCount) }
  | .noDerivative power =>
    { power.diagnostic with
      label := "the current expression contains a power this command cannot differentiate" }

structure Complaint where
  cause : Cause
  span : Text.Span
  deriving DecidableEq, Repr

inductive Failure where
  | formula (fault : Parse.Fault)
  | command (complaint : Complaint)
  deriving DecidableEq, Repr

/-- What a report of the failure says; its headline does not quote the text. -/
def Failure.diagnostic : Failure → Diagnostic
  | .formula fault => fault.cause.diagnostic
  | .command complaint => complaint.cause.diagnostic

def Failure.span : Failure → Text.Span
  | .formula fault => fault.span
  | .command complaint => complaint.span

end Fluxion.Session
