import Fluxion.Expr.Operator

/-!
# Operators and partners outside of parentheses

A scan walks over a text from one of its ends and keeps the parentheses that it has met without
their partners. It stops at the first operator outside of all parentheses; a plus or minus is an
operator only after a character that can end an operand, and a sign anywhere else.

A byte string is scanned as the text whose characters have the bytes as code points. All characters
that matter to a scan are single bytes, and the bytes of the others lie above them.
-/

set_option autoImplicit false

namespace Fluxion.Scan

structure Place where
  index : Nat
  char : Char
  deriving DecidableEq, Repr

def firstParen : Side → Char
  | .left => '('
  | .right => ')'

def lastParen : Side → Char
  | .left => ')'
  | .right => '('

def walkOrder {α : Type} : Side → List α → List α
  | .left, xs => xs
  | .right, xs => xs.reverse

def endsOperand (c : Char) : Bool := decide (c ∉ ['+', '-', '*', '/', '^', '(', 'e', 'E'])

def isOperator (symbols : List Char) (previous : Option Char) (c : Char) : Bool :=
  symbols.contains c && (!(c == '+' || c == '-') || previous.any endsOperand)

/-- The character in front of the one at hand: the last one that a walk from the left has met, the
next one that a walk from the right will meet. -/
def previousChar (side : Side) (met : Option Char) (rest : List Char) : Option Char :=
  match side with
  | .left => met
  | .right => rest.head?

def nextIndex : Side → Nat → Nat
  | .left, index => index + 1
  | .right, index => index - 1

structure Unpaired where
  index : Nat
  opening : Bool
  deriving DecidableEq, Repr

def Place.unpaired (p : Place) : Unpaired := ⟨p.index, p.char == '('⟩

/-- Walks on with the parentheses that still wait for their partners, the last met in front. -/
def walk (side : Side) (symbols : List Char) (waiting : List Place) (index : Nat)
    (met : Option Char) : List Char → Except Unpaired (Option Place)
  | [] =>
    match waiting.getLast? with
    | none => .ok none
    | some p => .error p.unpaired
  | c :: rest =>
    let next := nextIndex side index
    if c == firstParen side then walk side symbols (⟨index, c⟩ :: waiting) next (some c) rest
    else if c == lastParen side then
      match waiting with
      | [] => .error (Place.unpaired ⟨index, c⟩)
      | _ :: waiting => walk side symbols waiting next (some c) rest
    else if waiting.isEmpty && isOperator symbols (previousChar side met rest) c then
      .ok (some ⟨index, c⟩)
    else walk side symbols waiting next (some c) rest

def firstIndex (side : Side) (text : List Char) : Nat :=
  match side with
  | .left => 0
  | .right => text.length - 1

/-- The first operator from the given side that stands outside of all parentheses. Without one, a
parenthesis that has no partner is an error. -/
def find (side : Side) (symbols : List Char) (text : List Char) :
    Except Unpaired (Option Place) :=
  walk side symbols [] (firstIndex side text) none (walkOrder side text)

def partnerFrom (index depth : Nat) : List Char → Option Nat
  | [] => none
  | c :: rest =>
    if c = '(' then partnerFrom (index + 1) (depth + 1) rest
    else if c = ')' then
      match depth with
      | 0 => none
      | 1 => some index
      | deeper + 2 => partnerFrom (index + 1) (deeper + 1) rest
    else partnerFrom (index + 1) depth rest

/-- The index of the partner of the first opening parenthesis, unless a closing one comes before
it. -/
def partner (text : List Char) : Option Nat := partnerFrom 0 0 text

def group? (text : List Char) : Option (List Char) :=
  match text with
  | '(' :: rest => if partner text = some rest.length then some rest.dropLast else none
  | _ => none

theorem group?_length_lt {text interior : List Char} (h : group? text = some interior) :
    interior.length < text.length := by
  unfold group? at h
  split at h
  · split at h
    · simp only [Option.some.injEq] at h
      rw [← h, List.length_dropLast, List.length_cons]; omega
    · simp at h
  · simp at h

def textOfBytes (bytes : List UInt8) : List Char := bytes.map fun b => Char.ofNat b.toNat

theorem length_textOfBytes (bytes : List UInt8) : (textOfBytes bytes).length = bytes.length :=
  List.length_map _

def slice (bytes : List UInt8) (start stop : Nat) : List UInt8 :=
  (bytes.take stop).drop start

def splitIndex (bytes : List UInt8) (start stop : Nat) (symbols : List UInt8)
    (side : Side) : Except Unpaired (Option Nat) :=
  match find side (textOfBytes symbols) (textOfBytes (slice bytes start stop)) with
  | .ok p => .ok (p.map fun p => start + p.index)
  | .error u => .error ⟨start + u.index, u.opening⟩

def partnerIndex (bytes : List UInt8) (start stop : Nat) : Option Nat :=
  (partner (textOfBytes (slice bytes start stop))).map (start + ·)

end Fluxion.Scan
