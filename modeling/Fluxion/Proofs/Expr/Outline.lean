import Fluxion.Expr.Outline
import Fluxion.Proofs.Expr.PowerForm
import Fluxion.Proofs.Literal.ReadBack
import Fluxion.Proofs.Literal.Spelling

/-!
# An outline keeps the whole formula

The heading of a line tells which node it is, the tabs in front tell where the line begins, and a
node tells how many operands follow. So an outline with anything behind it is read in one way only.
The form of a power is not written, but the operands decide it.
-/

set_option autoImplicit false

namespace Fluxion.Expr

inductive Node where
  | literal (v : Float)
  | var
  | wrapper (op : Wrapper)
  | operator (op : Operator)

def node : Expr → Node
  | .literal v => .literal v
  | .var => .var
  | .unary op _ => .wrapper op
  | .binary _ op _ => .operator op.operator

namespace Node

def heading : Node → List Char
  | .literal v => Literal.outlineText v
  | .var => ['x']
  | .wrapper op => op.sign
  | .operator op => [op.symbol]

def marks : List Node :=
  [.var, .wrapper .log, .wrapper .paren, .operator .add, .operator .sub, .operator .mul,
    .operator .div, .operator .pow]

def ofHeading? (text : List Char) : Option Node :=
  match Literal.ofText? text with
  | some v => some (.literal v)
  | none => marks.find? fun mark => mark.heading == text

theorem ofHeading?_heading (k : Node) : ofHeading? k.heading = some k := by
  cases k with
  | literal v => rw [ofHeading?, heading, Literal.ofText?_outlineText]
  | var => rfl
  | wrapper op => cases op <;> rfl
  | operator op => cases op <;> rfl

theorem heading_inj {j k : Node} (h : j.heading = k.heading) : j = k := by
  have hj := ofHeading?_heading j
  rw [h, ofHeading?_heading] at hj
  exact (Option.some.inj hj).symm

theorem heading_plain (k : Node) : '\t' ∉ k.heading ∧ '\n' ∉ k.heading := by
  cases k with
  | literal v =>
    have hletters := Literal.letters_of_ofText? (Literal.ofText?_outlineText v)
    exact ⟨fun ht => absurd (hletters _ ht) (by decide),
      fun hn => absurd (hletters _ hn) (by decide)⟩
  | var => decide
  | wrapper op => cases op <;> decide
  | operator op => cases op <;> decide

end Node

def line (indent : Nat) (heading below : List Char) : List Char :=
  List.replicate indent '\t' ++ (heading ++ '\n' :: below)

def operandLines (indent : Nat) : Expr → List Char
  | .literal _ | .var => []
  | .unary _ e => e.outline (indent + 1)
  | .binary l _ r => l.outline (indent + 1) ++ r.outline (indent + 1)

theorem outline_append (indent : Nat) (e : Expr) (rest : List Char) :
    e.outline indent ++ rest = line indent e.node.heading (e.operandLines indent ++ rest) := by
  cases e with
  | literal | var => simp [outline, outlineItems, line, operandLines, node, heading, Node.heading]
  | unary | binary =>
    simp [outline, outlineItems, line, operandLines, node, heading, Node.heading]

theorem takeWhile_line (indent : Nat) {heading : List Char} (ht : '\t' ∉ heading)
    (below : List Char) :
    (line indent heading below).takeWhile (· == '\t') = List.replicate indent '\t' := by
  have htabs : ∀ c ∈ List.replicate indent '\t', (c == '\t') = true := by
    intro c hc
    rw [(List.mem_replicate.1 hc).2]
    rfl
  rw [line, List.takeWhile_append_of_pos htabs]
  cases heading with
  | nil => simp
  | cons c heading =>
    have hc : c ≠ '\t' := fun h => ht (h ▸ List.mem_cons_self)
    simp [hc]

theorem takeWhile_heading {heading : List Char} (hn : '\n' ∉ heading) (below : List Char) :
    (heading ++ '\n' :: below).takeWhile (· != '\n') = heading := by
  have hne : ∀ c ∈ heading, (c != '\n') = true :=
    fun c hc => bne_iff_ne.2 fun h => hn (h ▸ hc)
  rw [List.takeWhile_append_of_pos hne, List.takeWhile_cons_of_neg (by decide), List.append_nil]

theorem line_inj {m n : Nat} {j k : Node} {r s : List Char}
    (h : line m j.heading r = line n k.heading s) : m = n ∧ j = k ∧ r = s := by
  have hm := takeWhile_line m j.heading_plain.1 r
  rw [h, takeWhile_line n k.heading_plain.1 s] at hm
  have hmn : m = n := by simpa using (congrArg List.length hm).symm
  subst hmn
  have hline := List.append_cancel_left h
  have hj := takeWhile_heading j.heading_plain.2 r
  rw [hline, takeWhile_heading k.heading_plain.2 s] at hj
  rw [hj] at hline
  exact ⟨rfl, Node.heading_inj hj.symm, (List.cons.inj (List.append_cancel_left hline)).2⟩

theorem Built.eq_combine {l r : Expr} {op : Connective} (h : (binary l op r).Built) :
    binary l op r = Expr.combine op.operator l r := by
  cases op with
  | pow form =>
    rw [← h.form]
    rfl
  | _ => rfl

/-- What follows an outline begins where the outline ends. -/
theorem outline_append_inj {a b : Expr} (ha : a.Built) (hb : b.Built) {m n : Nat}
    {r s : List Char} (h : a.outline m ++ r = b.outline n ++ s) : m = n ∧ a = b ∧ r = s := by
  induction a generalizing b m n r s with
  | literal v =>
    rw [outline_append, outline_append] at h
    obtain ⟨rfl, hnode, hrest⟩ := line_inj h
    cases b with
    | literal w =>
      cases hnode
      exact ⟨rfl, rfl, hrest⟩
    | _ => cases hnode
  | var =>
    rw [outline_append, outline_append] at h
    obtain ⟨rfl, hnode, hrest⟩ := line_inj h
    cases b with
    | var => exact ⟨rfl, rfl, hrest⟩
    | _ => cases hnode
  | unary op e ih =>
    rw [outline_append, outline_append] at h
    obtain ⟨rfl, hnode, hrest⟩ := line_inj h
    cases b with
    | unary op' e' =>
      cases hnode
      obtain ⟨_, rfl, hrs⟩ := ih ha.operand hb.operand hrest
      exact ⟨rfl, rfl, hrs⟩
    | _ => cases hnode
  | binary l op r' ihl ihr =>
    rw [outline_append, outline_append] at h
    obtain ⟨rfl, hnode, hrest⟩ := line_inj h
    cases b with
    | binary l' op' r'' =>
      have hop : op.operator = op'.operator := by simpa [node] using hnode
      rw [operandLines, operandLines, List.append_assoc, List.append_assoc] at hrest
      obtain ⟨_, rfl, hr⟩ := ihl ha.operands.1 hb.operands.1 hrest
      obtain ⟨_, rfl, hrs⟩ := ihr ha.operands.2 hb.operands.2 hr
      refine ⟨rfl, ?_, hrs⟩
      rw [ha.eq_combine, hb.eq_combine, hop]
    | _ => cases hnode

/-- Two formulas that the constructors build have the same outline only if they are one formula,
with the same literals and the same forms of its powers, and indented alike. -/
theorem outline_inj {a b : Expr} (ha : a.Built) (hb : b.Built) {m n : Nat} :
    a.outline m = b.outline n ↔ m = n ∧ a = b := by
  constructor
  · intro h
    obtain ⟨hmn, hab, _⟩ := outline_append_inj ha hb (congrArg (· ++ []) h)
    exact ⟨hmn, hab⟩
  · rintro ⟨rfl, rfl⟩
    rfl

theorem outline_inj_power :
    (power .var (paren .var)).outline 0 ≠ (power (paren .var) .var).outline 0 := by
  have hparen : (paren .var).Built := .wrap .paren .var
  intro h
  have hab := ((outline_inj (.combine .pow .var hparen) (.combine .pow hparen .var)).1 h).2
  cases hab

end Fluxion.Expr
