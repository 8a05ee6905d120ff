import Fluxion.Parse.Shape
import Fluxion.Proofs.Scan.Partner

/-!
# What a tier makes of a text

A tier splits a text at an operator with an operand on both sides, or finds an operand missing, or a
parenthesis without its partner. Only balanced text is left to a tighter tier.
-/

set_option autoImplicit false

namespace Fluxion.Parse
open Scan

theorem ofSymbol_symbol (op : Operator) : Operator.ofSymbol op.symbol = op := by
  cases op <;> rfl

theorem drop_behind (l r : List Char) (c : Char) : (l ++ c :: r).drop (l.length + 1) = r := by
  simp

/-- What splitting a text at the operators of one tier comes to. -/
inductive Splits (side : Side) (ops : List Operator) (tighter : List Char → Except Fault Shape) :
    List Char → Except Fault Shape → Prop
  | pass {text : List Char} {result : Except Fault Shape} (h : Balanced .left text)
      (ht : tighter text = result) : Splits side ops tighter text result
  | split {l r : List Char} {op : Operator} (ho : op ∈ ops) (hl : l ≠ []) (hr : r ≠ [])
      (hp : Balanced .left (passed side l r))
      (hs : isOperator (ops.map Operator.symbol) l.getLast? op.symbol = true) :
      Splits side ops tighter (l ++ op.symbol :: r) (.ok (.split l op r))
  | missingLeft {r : List Char} {op : Operator} (ho : op ∈ ops)
      (hs : isOperator (ops.map Operator.symbol) none op.symbol = true) :
      Splits side ops tighter (op.symbol :: r)
        (.error (.atByte (.missingOperand op .left) (op.symbol :: r) 0))
  | missingRight {l : List Char} {op : Operator} (ho : op ∈ ops) (hl : l ≠ [])
      (hs : isOperator (ops.map Operator.symbol) l.getLast? op.symbol = true) :
      Splits side ops tighter (l ++ [op.symbol])
        (.error (.atByte (.missingOperand op .right) (l ++ [op.symbol]) (Text.byteSize l)))
  | lonely {l r : List Char} {c : Char} (hp : Balanced .left (passed side l r))
      (hl : Lonely l c r) :
      Splits side ops tighter (l ++ c :: r)
        (.error (.atByte (.unpaired (c == '(')) (l ++ c :: r) (Text.byteSize l)))

theorem splits (side : Side) (ops : List Operator) (tighter : List Char → Except Fault Shape)
    (text : List Char) : Splits side ops tighter text (splitShape side ops tighter text) := by
  have hf := found side (ops.map Operator.symbol) text
  rw [splitShape]
  generalize find side (ops.map Operator.symbol) text = result at hf
  cases hf with
  | nothing h => exact .pass h rfl
  | @operator l r c hp hc hs =>
    obtain ⟨op, ho, rfl⟩ : ∃ op ∈ ops, op.symbol = c := by
      simp only [isOperator, Bool.and_eq_true, List.contains_iff_mem, List.mem_map] at hs
      exact hs.1
    dsimp only
    rw [List.take_left, drop_behind, ofSymbol_symbol]
    cases l with
    | nil => exact .missingLeft ho hs
    | cons d l =>
      cases r with
      | nil => exact .missingRight ho (List.cons_ne_nil d l) hs
      | cons e r => exact .split ho (List.cons_ne_nil d l) (List.cons_ne_nil e r) hp hs
  | @lonely l r c hp hl =>
    dsimp only
    rw [List.take_left]
    exact .lonely hp hl

end Fluxion.Parse
