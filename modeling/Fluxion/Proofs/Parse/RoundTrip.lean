import Fluxion.Proofs.Expr.Grouping
import Fluxion.Proofs.Expr.Rules
import Fluxion.Proofs.Literal.ReadBack
import Fluxion.Proofs.Parse.Recognition
import Fluxion.Proofs.Text.Origin

/-!
# Printing and parsing

An operand goes without parentheses just where its root is a production of the phrase that stands on
that side. So the text of a formula without added parentheses derives from the grammar with that
formula, and the formulas of derivations are all of this kind. Parsing a text gives back the formula
with a node for each pair of parentheses.
-/

set_option autoImplicit false

namespace Fluxion

namespace Parse

/-- The tightest phrase that derives the text of a formula. -/
def phrase : Expr → Phrase
  | .literal _ | .var | .unary .paren _ => .primary
  | .unary .log _ => .power
  | .binary _ op _ => rootPhrase op.operator

/-- The printer puts parentheses around exactly the operands that the grammar wants them for. -/
theorem needsParens_eq (op : Operator) (side : Side) (e : Expr) :
    Expr.needsParens op side e =
      decide ((phrase e).rank < (operandPhrase op side).rank) := by
  cases e with
  | literal v => cases op <;> cases side <;> rfl
  | var => cases op <;> cases side <;> rfl
  | unary w e => cases op <;> cases side <;> cases w <;> rfl
  | binary l c r => cases op <;> cases side <;> cases c <;> rfl

theorem needsParens_iff {op : Operator} {side : Side} {e : Expr} :
    Expr.needsParens op side e = false ↔ (operandPhrase op side).rank ≤ (phrase e).rank := by
  rw [needsParens_eq, decide_eq_false_iff_not, Nat.not_lt]

theorem phrase_combine (op : Operator) (l r : Expr) :
    phrase (Expr.combine op l r) = rootPhrase op := by
  cases op <;> rfl

theorem plain_combine {op : Operator} {l r : Expr} :
    (Expr.combine op l r).Plain ↔
      (Expr.needsParens op .left l = false ∧ l.Plain) ∧
        (Expr.needsParens op .right r = false ∧ r.Plain) := by
  cases op <;> rfl

theorem text_combine (op : Operator) (l r : Expr) :
    (Expr.combine op l r).text =
      Expr.bracket (Expr.needsParens op .left l) l.text ++
        op.symbol :: Expr.bracket (Expr.needsParens op .right r) r.text := by
  cases op <;> rfl

theorem derives_text {e : Expr} (h : e.Built) (hp : e.Plain) : Derives (phrase e) e.text e := by
  induction h with
  | literal v => exact ⟨.literal (Literal.text v) v (Literal.ofText?_text v), rfl, rfl⟩
  | var => exact ⟨.var, rfl, rfl⟩
  | wrap op _ ih =>
    have hs := (ih hp).loosen (m := .sum) (Nat.zero_le _)
    cases op with
    | log => exact hs.call
    | paren => exact hs.group
  | combine op _ _ ihl ihr =>
    obtain ⟨⟨hl, hlp⟩, hr, hrp⟩ := plain_combine.1 hp
    have hsplit := ((ihl hlp).loosen (needsParens_iff.1 hl)).split
      ((ihr hrp).loosen (needsParens_iff.1 hr))
    rw [phrase_combine, text_combine, hl, hr]
    exact hsplit

namespace Derivation

theorem rank_phrase_tree {n : Phrase} (d : Derivation n) : n.rank ≤ (phrase d.tree).rank := by
  induction d with
  | sum => exact Nat.zero_le _
  | ofProduct => exact Nat.zero_le _
  | product l op h r =>
    rw [tree, phrase_combine, rank_rootPhrase, h]
    exact Nat.le_refl _
  | ofPower d ih => exact Nat.le_of_succ_le ih
  | call => exact Nat.le_refl _
  | power => exact Nat.le_refl _
  | ofPrimary d ih => exact Nat.le_of_succ_le ih
  | group => exact Nat.le_refl _
  | literal => exact Nat.le_refl _
  | var => exact Nat.le_refl _

theorem built_tree {n : Phrase} (d : Derivation n) : d.tree.Built := by
  induction d with
  | sum l op _ r ihl ihr => exact .combine op ihl ihr
  | ofProduct d ih => exact ih
  | product l op _ r ihl ihr => exact .combine op ihl ihr
  | ofPower d ih => exact ih
  | call a ih => exact ih.wrap .log
  | power b e ihb ihe => exact .combine .pow ihb ihe
  | ofPrimary d ih => exact ih
  | group a ih => exact ih.wrap .paren
  | literal _ v _ => exact .literal v
  | var => exact .var

theorem plain_operands {m n : Phrase} (l : Derivation m) (op : Operator) (r : Derivation n)
    (hm : (operandPhrase op .left).rank = m.rank) (hn : (operandPhrase op .right).rank = n.rank)
    (hl : l.tree.Plain) (hr : r.tree.Plain) : (Expr.combine op l.tree r.tree).Plain := by
  refine plain_combine.2 ⟨⟨needsParens_iff.2 ?_, hl⟩, needsParens_iff.2 ?_, hr⟩
  · rw [hm]
    exact l.rank_phrase_tree
  · rw [hn]
    exact r.rank_phrase_tree

theorem plain_tree {n : Phrase} (d : Derivation n) : d.tree.Plain := by
  induction d with
  | sum l op h r ihl ihr =>
    refine plain_operands l op r ?_ ?_ ihl ihr
    · rw [rank_operandPhrase, (operandTier_term h).1]
      rfl
    · rw [rank_operandPhrase, (operandTier_term h).2]
      rfl
  | ofProduct d ih => exact ih
  | product l op h r ihl ihr =>
    refine plain_operands l op r ?_ ?_ ihl ihr
    · rw [rank_operandPhrase, (operandTier_factor h).1]
      rfl
    · rw [rank_operandPhrase, (operandTier_factor h).2]
      rfl
  | ofPower d ih => exact ih
  | call a ih => exact ih
  | power b e ihb ihe => exact plain_operands b .pow e rfl rfl ihb ihe
  | ofPrimary d ih => exact ih
  | group a ih => exact ih
  | literal => trivial
  | var => trivial

theorem strip_text {n : Phrase} (d : Derivation n) : Text.strip d.text = d.text := by
  have symbol (op : Operator) : Text.isBlank op.symbol = false := by
    cases op <;> rfl
  have close : Text.strip [')'] = [')'] := rfl
  induction d with
  | sum l op _ r ihl ihr => rw [text, Text.strip_append, Text.strip_cons (symbol op), ihl, ihr]
  | ofProduct d ih => exact ih
  | product l op _ r ihl ihr => rw [text, Text.strip_append, Text.strip_cons (symbol op), ihl, ihr]
  | ofPower d ih => exact ih
  | call a ih =>
    rw [text, Text.strip_cons rfl, Text.strip_cons rfl, Text.strip_cons rfl, Text.strip_cons rfl,
      Text.strip_append, ih, close]
  | power b e ihb ihe => rw [text, Text.strip_append, Text.strip_cons rfl, ihb, ihe]
  | ofPrimary d ih => exact ih
  | group a ih => rw [text, Text.strip_cons rfl, Text.strip_append, ih, close]
  | literal lexeme _ h =>
    refine List.filter_eq_self.2 fun c hc => ?_
    rw [Literal.isBlank_of_isLetter (Literal.letters_of_ofText? h c hc)]
    rfl
  | var => rfl

end Derivation

end Parse

theorem parse_text_of_plain {e : Expr} (h : e.Built) (hp : e.Plain) {limit : Nat}
    (hd : e.depth ≤ limit + 1) : (parse limit e.text).outcome = .ok e := by
  obtain ⟨d, htext, htree⟩ :=
    (Parse.derives_text h hp).loosen (m := .sum) (Nat.zero_le _)
  have hstrip : Text.strip e.text = e.text := htext ▸ d.strip_text
  rw [parse_ok_iff_derives, hstrip]
  exact ⟨⟨d, htext, htree⟩, hd⟩

theorem plain_of_parse {limit : Nat} {given : List Char} {e : Expr}
    (h : (parse limit given).outcome = .ok e) : e.Built ∧ e.Plain ∧ e.depth ≤ limit + 1 := by
  obtain ⟨⟨d, _, rfl⟩, hd⟩ := parse_ok_iff_derives.1 h
  exact ⟨d.built_tree, d.plain_tree, hd⟩

theorem parse_text_grouped {e : Expr} (h : e.Built) {limit : Nat}
    (hd : e.grouped.depth ≤ limit + 1) : (parse limit e.text).outcome = .ok e.grouped := by
  have hparse := parse_text_of_plain h.grouped e.plain_grouped hd
  rwa [e.text_grouped] at hparse

/-- Printing and parsing a formula that the constructors build gives the formula with a node for
each pair of parentheses, which has the same text and the same values. Derivatives are such formulas
as well. -/
theorem parse_text {e : Expr} (h : e.Built) :
    (∀ limit, e.grouped.depth ≤ limit + 1 → (parse limit e.text).outcome = .ok e.grouped) ∧
      e.grouped.text = e.text ∧ (∀ x, e.grouped.evaluate x = e.evaluate x) ∧
      ∀ n d, (Expr.iteratedDerivative n e).outcome = .ok d → d.Built := by
  refine ⟨?_, e.text_grouped, e.evaluate_grouped, fun _ _ => h.iteratedDerivative⟩
  intro limit hd
  exact parse_text_grouped h hd

theorem parse_text_power_of_log :
    (Expr.power (Expr.log .var) .var).Built ∧
      (parse 3 "(log(x))^x".toList).outcome =
        .ok (Expr.power (Expr.paren (Expr.log .var)) .var) :=
  have h : (Expr.power (Expr.log .var) .var).Built := .combine .pow (.wrap .log .var) .var
  ⟨h, (parse_text h).1 3 (by decide)⟩

/-- What is read has no added parentheses and is read back from its own text within the same limit,
equal to itself unless there is a literal in it that is not a number. Within a limit the formulas
that are read are those that the constructors build, without added parentheses and not too deep, and
each is read from its own text. -/
theorem parse_image (limit : Nat) :
    (∀ given e, (parse limit given).outcome = .ok e →
      e.Plain ∧ (parse limit e.text).outcome = .ok e ∧ ((e == e) = true ↔ ¬ e.HasNaN)) ∧
    (∀ e : Expr, e.Built → e.Plain → e.depth ≤ limit + 1 →
      (parse limit e.text).outcome = .ok e) ∧
    ∀ e, (∃ given, (parse limit given).outcome = .ok e) ↔
      e.Built ∧ e.Plain ∧ e.depth ≤ limit + 1 := by
  refine ⟨?_, fun e h hp hd => parse_text_of_plain h hp hd, fun e => ⟨?_, ?_⟩⟩
  · intro given e he
    obtain ⟨h, hp, hd⟩ := plain_of_parse he
    exact ⟨hp, parse_text_of_plain h hp hd, h.beq_self_iff⟩
  · rintro ⟨given, he⟩
    exact plain_of_parse he
  · rintro ⟨h, hp, hd⟩
    exact ⟨e.text, parse_text_of_plain h hp hd⟩

end Fluxion
