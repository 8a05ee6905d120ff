import Fluxion.Parse.Shape
import Fluxion.Proofs.Literal.Spelling

/-!
# The grammar of formulas

A derivation is a tree of productions. It has a text, the formula that the constructors build from
it, and a nesting: the most operators, calls and groups around one of its leaves. Whatever is derived
at a tier is clear of the operators of all looser tiers, so a scan finds the operator of the
production at the root.
-/

set_option autoImplicit false

namespace Fluxion.Parse

inductive Phrase where
  | sum
  | product
  | power
  | primary
  deriving DecidableEq, Repr

def Phrase.rank : Phrase → Nat
  | .sum => 0
  | .product => 1
  | .power => 2
  | .primary => 3

/-- Each constructor is one production of the grammar. -/
inductive Derivation : Phrase → Type
  | sum (lhs : Derivation .sum) (op : Operator) (h : op.precedence = .term)
      (rhs : Derivation .product) : Derivation .sum
  | ofProduct (d : Derivation .product) : Derivation .sum
  | product (lhs : Derivation .product) (op : Operator) (h : op.precedence = .factor)
      (rhs : Derivation .power) : Derivation .product
  | ofPower (d : Derivation .power) : Derivation .product
  | call (argument : Derivation .sum) : Derivation .power
  | power (base : Derivation .primary) (exponent : Derivation .power) : Derivation .power
  | ofPrimary (d : Derivation .primary) : Derivation .power
  | group (interior : Derivation .sum) : Derivation .primary
  | literal (lexeme : List Char) (value : Float) (h : Literal.ofText? lexeme = some value) :
      Derivation .primary
  | var : Derivation .primary

namespace Derivation

def text {n : Phrase} : Derivation n → List Char
  | .sum l op _ r => l.text ++ op.symbol :: r.text
  | .ofProduct d => d.text
  | .product l op _ r => l.text ++ op.symbol :: r.text
  | .ofPower d => d.text
  | .call a => 'l' :: 'o' :: 'g' :: '(' :: (a.text ++ [')'])
  | .power b e => b.text ++ '^' :: e.text
  | .ofPrimary d => d.text
  | .group a => '(' :: (a.text ++ [')'])
  | .literal lexeme _ _ => lexeme
  | .var => ['x']

def tree {n : Phrase} : Derivation n → Expr
  | .sum l op _ r => Expr.combine op l.tree r.tree
  | .ofProduct d => d.tree
  | .product l op _ r => Expr.combine op l.tree r.tree
  | .ofPower d => d.tree
  | .call a => Expr.log a.tree
  | .power b e => Expr.power b.tree e.tree
  | .ofPrimary d => d.tree
  | .group a => Expr.paren a.tree
  | .literal _ value _ => .literal value
  | .var => .var

def nesting {n : Phrase} : Derivation n → Nat
  | .sum l _ _ r => 1 + max l.nesting r.nesting
  | .ofProduct d => d.nesting
  | .product l _ _ r => 1 + max l.nesting r.nesting
  | .ofPower d => d.nesting
  | .call a => 1 + a.nesting
  | .power b e => 1 + max b.nesting e.nesting
  | .ofPrimary d => d.nesting
  | .group a => 1 + a.nesting
  | .literal _ _ _ => 0
  | .var => 0

end Derivation

theorem depth_combine (op : Operator) (l r : Expr) :
    (Expr.combine op l r).depth = 1 + max l.depth r.depth := by
  cases op <;> rfl

theorem Derivation.depth_tree {n : Phrase} (d : Derivation n) :
    d.tree.depth = d.nesting + 1 := by
  induction d with
  | sum l op _ r ihl ihr =>
    simp only [tree, nesting, depth_combine]
    omega
  | ofProduct d ih => exact ih
  | product l op _ r ihl ihr =>
    simp only [tree, nesting, depth_combine]
    omega
  | ofPower d ih => exact ih
  | call a ih =>
    simp only [tree, nesting, Expr.log, Expr.depth]
    omega
  | power b e ihb ihe =>
    simp only [tree, nesting, Expr.power, Expr.depth]
    omega
  | ofPrimary d ih => exact ih
  | group a ih =>
    simp only [tree, nesting, Expr.paren, Expr.depth]
    omega
  | literal => rfl
  | var => rfl

def operators : Precedence → List Operator
  | .term => [.add, .sub]
  | .factor => [.mul, .div]
  | .exp => [.pow]
  | .primary => []

def symbols (p : Precedence) : List Char := (operators p).map Operator.symbol

theorem mem_symbols (op : Operator) : op.symbol ∈ symbols op.precedence := by
  cases op <;> decide

theorem isParen_symbol (op : Operator) : Scan.isParen op.symbol = false := by
  cases op <;> rfl

theorem endsOperand_symbol (op : Operator) : Scan.endsOperand op.symbol = false := by
  cases op <;> rfl

theorem precedence_of_mem_symbols (op : Operator) (p : Precedence)
    (h : op.symbol ∈ symbols p) : op.precedence = p := by
  revert h
  cases op <;> cases p <;> decide

theorem isOperator_symbol (op : Operator) {p : Precedence} (h : op.precedence ≠ p)
    (previous : Option Char) : Scan.isOperator (symbols p) previous op.symbol = false := by
  have hn : op.symbol ∉ symbols p := fun hm => h (precedence_of_mem_symbols op p hm)
  simp [Scan.isOperator, hn]

namespace Derivation
open Scan

theorem balanced {n : Phrase} (d : Derivation n) : Balanced .left d.text := by
  induction d with
  | sum l op _ r ihl ihr => exact ihl.append (.char (isParen_symbol op) ihr)
  | ofProduct d ih => exact ih
  | product l op _ r ihl ihr => exact ihl.append (.char (isParen_symbol op) ihr)
  | ofPower d ih => exact ih
  | call a ih => exact .char rfl (.char rfl (.char rfl ih.enclose))
  | power b e ihb ihe => exact ihb.append (.char rfl ihe)
  | ofPrimary d ih => exact ih
  | group a ih => exact ih.enclose
  | literal lexeme _ h =>
    exact balanced_of_forall fun c hc =>
      Literal.isParen_of_isLetter (Literal.letters_of_ofText? h c hc)
  | var => exact .char rfl .nil

theorem endsOperand {n : Phrase} (d : Derivation n) : EndsOperand d.text := by
  induction d with
  | sum l op _ r _ ihr =>
    exact (ihr.append [op.symbol]).append l.text
  | ofProduct d ih => exact ih
  | product l op _ r _ ihr =>
    exact (ihr.append [op.symbol]).append l.text
  | ofPower d ih => exact ih
  | call a _ => exact EndsOperand.append (b := [')']) rfl ('l' :: 'o' :: 'g' :: '(' :: a.text)
  | power b e _ ihe =>
    exact (ihe.append ['^']).append b.text
  | ofPrimary d ih => exact ih
  | group a _ => exact EndsOperand.append (b := [')']) rfl ('(' :: a.text)
  | literal lexeme _ h => exact Literal.endsOperand_of_ofText? h
  | var => rfl

theorem text_ne_nil {n : Phrase} (d : Derivation n) : d.text ≠ [] := by
  intro h
  have he := d.endsOperand
  rw [h] at he
  exact Bool.false_ne_true he

theorem clear_call (a : Derivation .sum) {p : Precedence} {beyond met : Option Char} :
    Clear .left (symbols p) beyond met (call a).text := by
  have hname : Clear .left (symbols p) (some '(') met ['l', 'o', 'g'] := by
    cases p <;> exact clear_of_all rfl
  exact hname.append (.group a.balanced .nil)

/-- Where no operand ends, the text of a phrase is clear of all operators of looser tiers. -/
theorem clear {n : Phrase} (d : Derivation n) {p : Precedence} {beyond met : Option Char}
    (hp : p.rank < n.rank) (hm : met.any Scan.endsOperand = false) :
    Clear .left (symbols p) beyond met d.text := by
  have after (op : Operator) : (some op.symbol).any Scan.endsOperand = false :=
    endsOperand_symbol op
  induction d generalizing beyond met with
  | sum => exact absurd hp (Nat.not_lt_zero _)
  | ofProduct => exact absurd hp (Nat.not_lt_zero _)
  | product l op h r ihl ihr =>
    have hne : op.precedence ≠ p := by
      rintro rfl
      simp [h, Precedence.rank, Phrase.rank] at hp
    refine (ihl hp hm).append (.char (isParen_symbol op) (isOperator_symbol op hne _) ?_)
    exact ihr (Nat.lt_succ_of_lt hp) (after op)
  | ofPower d ih => exact ih (Nat.lt_succ_of_lt hp) hm
  | call a => exact a.clear_call
  | power b e ihb ihe =>
    have hne : Operator.precedence .pow ≠ p := by
      rintro rfl
      simp [Operator.precedence, Precedence.rank, Phrase.rank] at hp
    refine (ihb (Nat.lt_succ_of_lt hp) hm).append (.char rfl (isOperator_symbol .pow hne _) ?_)
    exact ihe hp (after .pow)
  | ofPrimary d ih => exact ih (Nat.lt_succ_of_lt hp) hm
  | group a => exact .group a.balanced .nil
  | literal lexeme _ h =>
    cases p with
    | term => exact Literal.clear_term_of_ofText? h hm
    | factor => exact Literal.clear_of_ofText? h rfl
    | exp => exact Literal.clear_of_ofText? h rfl
    | primary => exact Literal.clear_of_ofText? h rfl
  | var =>
    have ho : isOperator (symbols p) met 'x' = false := by
      cases p <;> rfl
    exact .char rfl ho .nil

end Derivation

end Fluxion.Parse
