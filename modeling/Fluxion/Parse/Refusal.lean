import Fluxion.Expr.Operator
import Fluxion.Logged
import Fluxion.Text.Span

/-!
# Why a text is no formula

A refusal names its cause and quotes the piece of stripped text that it is about; a fault also says
where to point.
-/

set_option autoImplicit false

namespace Fluxion.Parse

inductive Cause where
  | empty
  | missingOperand (op : Operator) (side : Side)
  | unpaired (opening : Bool)
  | emptyGroup
  | unrecognized
  | bareLogBase
  | tooDeep (limit : Nat)
  deriving DecidableEq, Repr

def Cause.diagnostic : Cause → Diagnostic
  | .empty =>
    { message := "empty expression"
      label := "I expected to see an " ++ highlight "expression" ++ " here"
      help := some ("try something like " ++ highlight "2*x^3 + log(x)") }
  | .missingOperand op side =>
    { message := "missing operand for `" ++ String.singleton op.symbol ++ "`"
      label := "I expected to see an " ++ highlight "expression" ++
        (match side with
          | .left => " before this operator"
          | .right => " after this operator")
      help := none }
  | .unpaired true =>
    { message := "unbalanced parenthesis"
      label := "this parenthesis is not closed"
      help := some "add a closing parenthesis `)` somewhere after this" }
  | .unpaired false =>
    { message := "unbalanced parenthesis"
      label := "this parenthesis was never opened"
      help := some "add an opening parenthesis `(` somewhere before this" }
  | .emptyGroup =>
    { message := "missing expression inside parenthesis"
      label := "add an expression here"
      help := none }
  | .unrecognized =>
    { message := "unrecognized expression"
      label := "I could not understand this"
      help := some ("expressions are built from numbers, the variable " ++ highlight "x" ++ ", " ++
        highlight "log(...)" ++ ", parentheses and the operators " ++ highlight "+ - * / ^") }
  | .bareLogBase =>
    { message := "`log(...)` cannot be raised to a power directly"
      label := "this is the base of `^`"
      help := some ("wrap it in parentheses, as in " ++ highlight "(log(x))^2") }
  | .tooDeep limit =>
    { message := "expression has too many operators or nesting levels"
      label := "more than " ++ toString limit ++
        " levels of operators and parentheses start here"
      help := some "split the expression up, or raise the depth limit" }

structure Refusal where
  cause : Cause
  fragment : List Char
  deriving DecidableEq, Repr

def Refusal.message (r : Refusal) : String :=
  "cannot parse `" ++ String.ofList r.fragment ++ "`: " ++ r.cause.diagnostic.message

structure Fault extends Refusal where
  span : Text.Span
  deriving DecidableEq, Repr

namespace Fault

def shift (offset : Nat) (f : Fault) : Fault := { f with span := f.span.shift offset }

def whole (cause : Cause) (text : List Char) : Fault := ⟨⟨cause, text⟩, Text.Span.whole text⟩

def atByte (cause : Cause) (text : List Char) (byte : Nat) : Fault :=
  ⟨⟨cause, text⟩, ⟨byte, byte + 1⟩⟩

end Fault

/-- What is noted while a text is read: that a part of it was split at an operator's byte, or the
refusal. -/
inductive Note where
  | split (whole : Text.Span) (op : Operator) (byte : Nat)
  | refused (refusal : Refusal)
  deriving DecidableEq, Repr

def Note.record (text : List Char) : Note → Record
  | .split whole op byte =>
    let quote (s : Text.Span) : String := "`" ++ String.ofList (Text.slice text s) ++ "`"
    ⟨.trace, "split " ++ quote whole ++ " into " ++ quote (whole.before byte) ++ " " ++
      String.singleton op.symbol ++ " " ++ quote (whole.behind byte)⟩
  | .refused refusal => ⟨.debug, refusal.message⟩

end Fluxion.Parse
