import Fluxion.Proofs.Parse.Pieces
import Fluxion.Proofs.Text.Origin

/-!
# Parentheses without partners

Reading a text that is not balanced goes down its left operands, which keep all that is not
balanced, until a scan meets the last parenthesis without a partner. Only a plus or minus at the
very end comes before it.
-/

set_option autoImplicit false

namespace Fluxion

namespace Parse
open Scan

/-- The text ends with a plus or minus behind an operand. -/
def Dangling (text : List Char) (op : Operator) : Prop :=
  op.precedence = .term ∧ ∃ front, text = front ++ [op.symbol] ∧ EndsOperand front

theorem not_dangling {text : List Char} (h : EndsOperand text) (op : Operator) :
    ¬ Dangling text op := by
  rintro ⟨-, front, rfl, -⟩
  rw [EndsOperand, List.getLast?_concat, Option.any_some, endsOperand_symbol] at h
  exact Bool.false_ne_true h

theorem shape_dangling {text : List Char} {op : Operator} (h : Dangling text op) :
    ∃ byte, shape .sum text = .error (.atByte (.missingOperand op .right) text byte) := by
  obtain ⟨hp, front, rfl, hf⟩ := h
  have hne : front ≠ [] := by
    rintro rfl
    exact Bool.false_ne_true hf
  have hfind : find .right ((operators .term).map Operator.symbol) (front ++ [op.symbol]) =
      .ok (some ⟨front.length, op.symbol⟩) :=
    find_right .nil (isParen_symbol op) front (hf.isOperator (hp ▸ mem_symbols op))
  have hs : splitShape .right (operators .term) productShape (front ++ [op.symbol]) =
      .error (.atByte (.missingOperand op .right) (front ++ [op.symbol])
        (Text.byteSize front)) := by
    simp [splitShape, hfind, ofSymbol_symbol, hne]
  exact ⟨_, hs⟩

theorem sum_error {text : List Char} {f : Fault} (h : shape .sum text = .error f)
    (hb : ¬ Balanced .left text) (hd : ∀ op, ¬ Dangling text op) :
    ∃ l c r, text = l ++ c :: r ∧ Lonely l c r ∧ Balanced .left r ∧
      f = .atByte (.unpaired (c == '(')) text (Text.byteSize l) := by
  have hs : Splits .right (operators .term) productShape text (shape .sum text) := splits ..
  rw [h] at hs
  have hterm {op : Operator} (ho : op ∈ operators .term) : op.precedence = .term :=
    precedence_of_mem_symbols op .term (List.mem_map_of_mem ho)
  cases hs with
  | pass hbal => exact absurd hbal hb
  | missingLeft ho hop => exact absurd (any_endsOperand (hterm ho) hop) Bool.false_ne_true
  | missingRight ho _ hop =>
    exact absurd ⟨hterm ho, _, rfl, any_endsOperand (hterm ho) hop⟩ (hd _)
  | @lonely l r c hr hl => exact ⟨l, c, r, rfl, hl, hr, rfl⟩

/-- A reading of a text that is not balanced fails for want of room, or at the last parenthesis
without a partner. -/
theorem Fails.lonely {limit room : Nat} {tier : Tier} {span : Text.Span} {text : List Char}
    {f : Fault} (h : Fails limit room tier span text f) (ht : tier = .sum)
    (hb : ¬ Balanced .left text) (hd : ∀ op, ¬ Dangling text op) :
    f.cause = .tooDeep limit ∨ ∃ l c r, text = l ++ c :: r ∧ Lonely l c r ∧ Balanced .left r ∧
      f.cause = .unpaired (c == '(') ∧
      f.span = ⟨span.start + Text.byteSize l, span.start + Text.byteSize l + 1⟩ := by
  induction h with
  | shape hs =>
    subst ht
    obtain ⟨l, c, r, ht, hl, hr, rfl⟩ := sum_error hs hb hd
    exact .inr ⟨l, c, r, ht, hl, hr, rfl, rfl⟩
  | wrappedTooDeep => exact .inl rfl
  | splitTooDeep => exact .inl rfl
  | interior hs =>
    obtain ⟨rfl, hi⟩ := (shape_forms hs).wrapped
    exact absurd (balanced_wrapped hi _) hb
  | @left _ _ span _ lhs rhs op _ hs _ ih =>
    subst ht
    rcases sum_split hs with hbal | ⟨hop, rfl, he, hr⟩
    · exact absurd hbal hb
    · have hrest : Balanced .left (op.symbol :: rhs) := .char (isParen_symbol op) hr
      have hlhs : ¬ Balanced .left lhs := fun hl => hb (hl.append hrest)
      rcases ih (operandTier_term hop).1 hlhs (not_dangling he) with
        hdeep | ⟨l, c, r, rfl, hl, hbal, hc, hspan⟩
      · exact .inl hdeep
      · have hbehind := hbal.append hrest
        exact .inr ⟨l, c, r ++ op.symbol :: rhs, by simp, hl.behind hbehind, hbehind, hc, hspan⟩
  | @right _ _ _ _ _ rhs op _ _ hs hl =>
    subst ht
    -- what is read in front is balanced, so all of the text would be
    obtain ⟨d, rfl, _⟩ := derives_of_reads (n := .sum) hl (Nat.zero_le _)
    rcases sum_split hs with hbal | ⟨_, rfl, _, hr⟩
    · exact absurd hbal hb
    · exact absurd (d.balanced.append (.char (isParen_symbol op) hr)) hb

theorem readAll_lonely {limit : Nat} {text : List Char} {f : Fault}
    (h : (readAll limit text).outcome = .error f) (hb : ¬ Balanced .left text)
    (hd : ∀ op, ¬ Dangling text op) :
    f.cause = .tooDeep limit ∨ ∃ l c r, text = l ++ c :: r ∧ Lonely l c r ∧ Balanced .left r ∧
      f.cause = .unpaired (c == '(') ∧ f.span = ⟨Text.byteSize l, Text.byteSize l + 1⟩ := by
  rcases fails_of_readAll h with ⟨rfl, _⟩ | hf
  · exact absurd .nil hb
  · simpa [Text.Span.whole] using hf.lonely rfl hb hd

theorem readAll_dangling {text : List Char} {op : Operator} (h : Dangling text op) (limit : Nat) :
    ∃ f, (readAll limit text).outcome = .error f ∧ f.cause = .missingOperand op .right ∧
      f.fragment = text := by
  have hne : text ≠ [] := by
    obtain ⟨_, front, rfl, _⟩ := h
    simp
  obtain ⟨byte, hs⟩ := shape_dangling h
  rw [readAll_of_ne_nil hne, read_error hs]
  exact ⟨_, rfl, rfl, rfl⟩

theorem readAll_unpaired {limit : Nat} {text : List Char} {f : Fault} {opening : Bool}
    (h : (readAll limit text).outcome = .error f) (hc : f.cause = .unpaired opening) :
    ¬ Balanced .left text ∧ ∃ piece g, Handed text .sum piece ∧ shape .sum piece = .error g ∧
      f.toRefusal = g.toRefusal := by
  rcases fails_of_readAll h with ⟨_, rfl⟩ | hf
  · cases hc
  · rcases hf.handed .whole with hd | ⟨tier, piece, g, hh, hg, hr⟩
    · rw [hc] at hd
      cases hd
    · have hcause : g.cause = .unpaired opening := by rw [← hr, hc]
      refine ⟨fun hb => cause_of_balanced (hh.balanced_of_whole hb) hg opening hcause, ?_⟩
      by_cases ht : tier = .sum
      · exact ⟨piece, g, ht ▸ hh, ht ▸ hg, hr⟩
      · exact absurd hcause (cause_of_balanced (hh.balanced ht) hg opening)

theorem exists_error (limit : Nat) {text : List Char} (hb : ¬ Balanced .left text) :
    ∃ f, (readAll limit text).outcome = .error f := by
  cases h : (readAll limit text).outcome with
  | error f => exact ⟨f, rfl⟩
  | ok e =>
    obtain ⟨⟨d, rfl, _⟩, _⟩ := readAll_ok_iff.1 h
    exact absurd d.balanced hb

end Parse

open Parse Scan

/-- Reading a balanced text never ends at a parenthesis without a partner. Any other text fails
within all limits: with the sign at its end for an operator without an operand, if it ends like
that, and else for want of room or at the last of its parentheses that have no partner. Such a fault
is always one of the loosest tier, and no tighter tier has one with any of the pieces that it is
handed. -/
theorem parse_unpaired (given : List Char) :
    (Balanced .left (Text.strip given) → ∀ limit f, (parse limit given).outcome = .error f →
      ∀ opening, f.cause ≠ .unpaired opening) ∧
    (¬ Balanced .left (Text.strip given) → ∀ limit, ∃ f, (parse limit given).outcome = .error f ∧
      (∀ op, Dangling (Text.strip given) op →
        f.cause = .missingOperand op .right ∧ f.fragment = Text.strip given) ∧
      ((∀ op, ¬ Dangling (Text.strip given) op) →
        f.cause = .tooDeep limit ∨
        ∃ front c behind, given = front ++ c :: behind ∧
          f.cause = .unpaired (c == '(') ∧
          f.span = ⟨Text.byteSize front, Text.byteSize front + 1⟩ ∧
          Lonely (Text.strip front) c (Text.strip behind) ∧
          ∀ l d r, Text.strip behind = l ++ d :: r →
            ¬ Lonely (Text.strip front ++ c :: l) d r)) ∧
    (∀ limit f opening, (parse limit given).outcome = .error f → f.cause = .unpaired opening →
      ∃ piece g, Handed (Text.strip given) .sum piece ∧ shape .sum piece = .error g ∧
        f.toRefusal = g.toRefusal) ∧
    ∀ tier piece g, Handed (Text.strip given) tier piece → tier ≠ .sum →
      shape tier piece = .error g → ∀ opening, g.cause ≠ .unpaired opening := by
  refine ⟨?_, ?_, ?_, ?_⟩
  · intro hb limit f h opening hc
    obtain ⟨g, hg, rfl⟩ := parse_error_iff.1 h
    exact (readAll_unpaired hg hc).1 hb
  · intro hb limit
    obtain ⟨g, hg⟩ := exists_error limit hb
    refine ⟨_, parse_error_iff.2 ⟨g, hg, rfl⟩, ?_, ?_⟩
    · intro op hd
      obtain ⟨g', hg', hc, hf⟩ := readAll_dangling hd limit
      obtain rfl := Except.error.inj (hg.symm.trans hg')
      exact ⟨hc, hf⟩
    · intro hd
      rcases readAll_lonely hg hb hd with hdeep | ⟨l, c, r, ht, hl, hr, hc, hs⟩
      · exact .inl hdeep
      · obtain ⟨front, behind, rfl, hblank, rfl, rfl⟩ := Text.exists_of_strip ht
        refine .inr ⟨front, c, behind, rfl, hc, ?_, hl, ?_⟩
        · exact (congrArg _ hs).trans (Text.Stripped.origin_byte front behind hblank)
        · intro l d r hbehind hlonely
          have hp := (hr.partnered hbehind hlonely.1).extend (Text.strip front ++ [c]) []
          exact hlonely.2 (by simpa using hp)
  · intro limit f opening h hc
    obtain ⟨g, hg, rfl⟩ := parse_error_iff.1 h
    exact (readAll_unpaired hg hc).2
  · exact fun tier piece g hh ht hs => cause_of_balanced (hh.balanced ht) hs

example : (parse 2 "(x)) + (x)".toList).outcome =
    .error ⟨⟨.unpaired false, ['(', 'x', ')', ')']⟩, ⟨3, 4⟩⟩ := by cbv

end Fluxion
