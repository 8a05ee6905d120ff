import Fluxion.Proofs.Checked.Scan
import Fluxion.Proofs.Parse.Log

/-!
# Reading by index

The reader as it goes over the bytes of the stripped text: tiers are handed ranges of bytes, texts
are cut out of the bytes, and places are looked up in the table of offsets. All of this can trap. A
tier hands on the range that it was given to a tighter tier, or smaller ranges.
-/

set_option autoImplicit false

namespace Fluxion.Checked
open Parse (Cause Refusal Tier)

structure Machine where
  /-- The largest number that it counts to. -/
  most : Nat
  source : Text.Stripped
  limit : Nat

def size (range : Text.Span) : Nat := range.stop - range.start

/-- How often a range can be handed on as it is. -/
def handings : Tier → Nat
  | .sum => 3
  | .product => 2
  | .power | .base => 1
  | .primary => 0

namespace Machine
variable (m : Machine)

def letters : List Char := Scan.spell m.source.text

def cut (range : Text.Span) : Except Trap (List Char) :=
  if range.start ≤ range.stop ∧ Text.isBoundary range.start m.source.text = true ∧
      Text.isBoundary range.stop m.source.text = true then
    .ok (Text.slice m.source.text range)
  else .error (.slice range)

def origin (range : Text.Span) : Except Trap Text.Span :=
  if range.stop ≤ range.start then
    .ok ⟨m.source.place range.start, m.source.place range.start⟩
  else do
    let first ← lookUp m.source.offsets range.start
    let before ← sub range.stop 1
    let last ← lookUp m.source.offsets before
    let stop ← add m.most last 1
    pure ⟨first, stop⟩

def group? (range : Text.Span) : Except Trap (Option Text.Span) :=
  if range.stop ≤ range.start then pure none
  else do
    let c ← lookUp m.letters range.start
    if c = '(' then do
      let close? ← partner m.most m.letters range
      match close? with
      | none => pure none
      | some close => do
        let first ← add m.most range.start 1
        let behind ← add m.most close 1
        pure (if behind = range.stop then some ⟨first, close⟩ else none)
    else pure none

def call? (range : Text.Span) : Except Trap (Option Text.Span) := do
  let text ← m.cut range
  if ['l', 'o', 'g', '('].isPrefixOf text then do
    let start ← add m.most range.start 3
    m.group? ⟨start, range.stop⟩
  else pure none

def fail {α : Type} (fragment span : Text.Span) (cause : Cause) : Reading α := do
  let text ← m.cut fragment
  Reading.note ⟨.debug, Refusal.message ⟨cause, text⟩⟩
  let place ← m.origin span
  Reading.refuse ⟨⟨cause, text⟩, place⟩

def descend (range : Text.Span) (depth : Nat) : Reading Nat :=
  if m.limit ≤ depth then m.fail range range (.tooDeep m.limit)
  else liftM (add m.most depth 1)

def split (ops : List Operator) (side : Side) (range : Text.Span) : Reading (Option Nat) := do
  let found ← find m.most m.letters (ops.map Operator.symbol) side range
  match found with
  | .ok index? => pure index?
  | .error u => do
    let stop ← add m.most u.index 1
    m.fail range ⟨u.index, stop⟩ (.unpaired u.opening)

def operands (range : Text.Span) (index : Nat) : Reading (Text.Span × Text.Span) := do
  let behind ← add m.most index 1
  let c ← lookUp m.letters index
  let lhs : Text.Span := ⟨range.start, index⟩
  let rhs : Text.Span := ⟨behind, range.stop⟩
  if lhs.stop ≤ lhs.start then
    m.fail range ⟨index, behind⟩ (.missingOperand (.ofSymbol c) .left)
  else if rhs.stop ≤ rhs.start then
    m.fail range ⟨index, behind⟩ (.missingOperand (.ofSymbol c) .right)
  else do
    let whole ← m.cut range
    let left ← m.cut lhs
    let right ← m.cut rhs
    Reading.note (Parse.splitRecord whole left (.ofSymbol c) right)
    pure (lhs, rhs)

section
variable (part : Tier → Text.Span → Nat → Reading Expr)

def joined (left right : Tier) (range : Text.Span) (depth index : Nat) : Reading Expr := do
  let sides ← m.operands range index
  let deeper ← m.descend range depth
  let l ← part left sides.1 deeper
  let r ← part right sides.2 deeper
  let c ← lookUp m.letters index
  pure (Expr.combine (.ofSymbol c) l r)

def wrapped (op : Wrapper) (range interior : Text.Span) (depth : Nat) : Reading Expr :=
  if interior.stop ≤ interior.start then m.fail range range .emptyGroup
  else do
    let deeper ← m.descend interior depth
    let e ← part .sum interior deeper
    pure (.unary op e)

end

def leaf (range : Text.Span) : Reading Expr := do
  let text ← m.cut range
  if text = ['x'] then pure .var
  else
    match Literal.ofText? text with
    | some v => pure (.literal v)
    | none => m.fail range range .unrecognized

def read (tier : Tier) (range : Text.Span) (depth : Nat) : Reading Expr :=
  if range.stop ≤ range.start ∨ m.letters.length < range.stop then Reading.trap (.piece range)
  else
    let part (t : Tier) (piece : Text.Span) (deeper : Nat) : Reading Expr :=
      if size piece < size range then read t piece deeper else Reading.trap (.endless piece)
    match tier with
    | .sum => do
      match ← m.split [.add, .sub] .right range with
      | some index => m.joined part .sum .product range depth index
      | none => read .product range depth
    | .product => do
      match ← m.split [.mul, .div] .right range with
      | some index => m.joined part .product .power range depth index
      | none => read .power range depth
    | .power => do
      match ← m.split [.pow] .left range with
      | some index => m.joined part .base .power range depth index
      | none =>
        match ← m.call? range with
        | some argument => m.wrapped part .log range argument depth
        | none => read .primary range depth
    | .base => do
      match ← m.call? range with
      | some _ => m.fail range range .bareLogBase
      | none => read .primary range depth
    | .primary => do
      match ← m.group? range with
      | some interior => m.wrapped part .paren range interior depth
      | none => m.leaf range
termination_by (size range, handings tier)
decreasing_by
  · exact .left _ _ ‹_›
  · exact .right _ (by decide)
  · exact .right _ (by decide)
  · exact .right _ (by decide)
  · exact .right _ (by decide)

end Machine

def parse (most limit : Nat) (given : List Char) : Reading Expr :=
  let m : Machine := ⟨most, .ofText given, limit⟩
  if m.letters.isEmpty then m.fail ⟨0, 0⟩ ⟨0, 0⟩ .empty
  else m.read .sum ⟨0, m.letters.length⟩ 0

end Fluxion.Checked
