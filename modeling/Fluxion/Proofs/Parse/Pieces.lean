import Fluxion.Proofs.Parse.Recognition

/-!
# The pieces of a reading

A tier hands its text to the next one if it finds no operator in it, and the pieces of a shape to
those of its operands. Every fault but those of the limit is a fault of the shape of such a piece.
All tiers but the loosest are handed balanced text only. Each piece comes with the span that it
covers.
-/

set_option autoImplicit false

namespace Fluxion.Parse
open Scan

/-- The pieces that a reading of a whole text comes to, with the tiers that they are handed to. -/
inductive Handed (whole : List Char) : Tier → List Char → Prop
  | whole : Handed whole .sum whole
  | product {text : List Char} (h : Handed whole .sum text)
      (hf : find .right (symbols .term) text = .ok none) : Handed whole .product text
  | power {text : List Char} (h : Handed whole .product text)
      (hf : find .right (symbols .factor) text = .ok none) : Handed whole .power text
  | primary {text : List Char} (h : Handed whole .power text)
      (hf : find .left (symbols .exp) text = .ok none) : Handed whole .primary text
  | interior {tier : Tier} {text interior : List Char} {op : Wrapper} (h : Handed whole tier text)
      (hs : shape tier text = .ok (.wrapped op interior)) : Handed whole .sum interior
  | left {tier : Tier} {text l r : List Char} {op : Operator} (h : Handed whole tier text)
      (hs : shape tier text = .ok (.split l op r)) : Handed whole (operandTier op .left) l
  | right {tier : Tier} {text l r : List Char} {op : Operator} (h : Handed whole tier text)
      (hs : shape tier text = .ok (.split l op r)) : Handed whole (operandTier op .right) r

theorem Fails.handed {limit room : Nat} {tier : Tier} {span : Text.Span} {text whole : List Char}
    {f : Fault} (h : Fails limit room tier span text f) (hh : Handed whole tier text) :
    f.cause = .tooDeep limit ∨ ∃ t piece g, Handed whole t piece ∧ Parse.shape t piece = .error g ∧
      f.toRefusal = g.toRefusal := by
  induction h with
  | shape hs => exact .inr ⟨_, _, _, hh, hs, rfl⟩
  | wrappedTooDeep => exact .inl rfl
  | splitTooDeep => exact .inl rfl
  | interior hs _ ih => exact ih (hh.interior hs)
  | left hs _ ih => exact ih (hh.left hs)
  | right hs _ _ ih => exact ih (hh.right hs)

theorem Handed.balanced_of_whole {whole text : List Char} {tier : Tier}
    (h : Handed whole tier text) (hw : Balanced .left whole) : Balanced .left text := by
  induction h with
  | whole => exact hw
  | product _ _ ih => exact ih
  | power _ _ ih => exact ih
  | primary _ _ ih => exact ih
  | interior _ hs ih => exact (shape_forms hs).balanced ih _ (List.mem_singleton.2 rfl)
  | left _ hs ih => exact (shape_forms hs).balanced ih _ List.mem_cons_self
  | right _ hs ih =>
    exact (shape_forms hs).balanced ih _ (List.mem_cons_of_mem _ (List.mem_singleton.2 rfl))

theorem balanced_of_find {side : Side} {symbols text : List Char}
    (h : find side symbols text = .ok none) : Balanced .left text := by
  have hf := found side symbols text
  rw [h] at hf
  cases hf with
  | nothing hb => exact hb

/-- At the loosest tier a text that is not balanced is split at a plus or minus behind an operand. -/
theorem sum_split {text l r : List Char} {op : Operator}
    (h : shape .sum text = .ok (.split l op r)) :
    Balanced .left text ∨ op.precedence = .term ∧ text = l ++ op.symbol :: r ∧ EndsOperand l ∧
      Balanced .left r := by
  have hs : Splits .right (operators .term) productShape text (shape .sum text) := splits ..
  rw [h] at hs
  cases hs with
  | pass hb => exact .inl hb
  | split ho _ _ hb hop =>
    have hp := precedence_of_mem_symbols op .term (List.mem_map_of_mem ho)
    exact .inr ⟨hp, rfl, any_endsOperand hp hop, hb⟩

theorem Handed.balanced {whole text : List Char} {tier : Tier} (h : Handed whole tier text)
    (ht : tier ≠ .sum) : Balanced .left text := by
  induction h with
  | whole => exact absurd rfl ht
  | product _ hf => exact balanced_of_find hf
  | power _ hf => exact balanced_of_find hf
  | primary _ hf => exact balanced_of_find hf
  | interior => exact absurd rfl ht
  | @left tier text l r op _ hs ih =>
    by_cases htier : tier = .sum
    · subst htier
      rcases sum_split hs with hb | ⟨hop, -⟩
      · exact (shape_forms hs).balanced hb l List.mem_cons_self
      · exact absurd (operandTier_term hop).1 ht
    · exact (shape_forms hs).balanced (ih htier) l List.mem_cons_self
  | @right tier text l r op _ hs ih =>
    have hr : r ∈ (Shape.split l op r).pieces := List.mem_cons_of_mem _ (List.mem_singleton.2 rfl)
    by_cases htier : tier = .sum
    · subst htier
      rcases sum_split hs with hb | ⟨_, _, _, hb⟩
      · exact (shape_forms hs).balanced hb r hr
      · exact hb
    · exact (shape_forms hs).balanced (ih htier) r hr

theorem balanced_wrapped {interior : List Char} (h : Balanced .left interior) (op : Wrapper) :
    Balanced .left (op.opening ++ (interior ++ [')'])) := by
  cases op with
  | log => exact .char rfl (.char rfl (.char rfl h.enclose))
  | paren => exact h.enclose

theorem cause_of_balanced {tier : Tier} {text : List Char} {f : Fault}
    (hb : Balanced .left text) (h : shape tier text = .error f) (opening : Bool) :
    f.cause ≠ .unpaired opening := by
  cases shape_unshaped h with
  | lonely hl => exact absurd (hb.partnered rfl hl.1) hl.2
  | _ => exact Cause.noConfusion

def Covers (whole : List Char) (span : Text.Span) (piece : List Char) : Prop :=
  ∃ a b, whole = a ++ (piece ++ b) ∧
    span = ⟨Text.byteSize a, Text.byteSize a + Text.byteSize piece⟩

theorem utf8Size_symbol (op : Operator) : op.symbol.utf8Size = 1 := by
  cases op <;> rfl

theorem covers_whole (text : List Char) : Covers text (.whole text) text :=
  ⟨[], [], by simp, by simp [Text.Span.whole]⟩

namespace Covers
variable {whole : List Char} {span : Text.Span}

theorem slice {piece : List Char} (h : Covers whole span piece) :
    Text.slice whole span = piece := by
  obtain ⟨a, b, rfl, rfl⟩ := h
  exact Text.slice_append a piece b

theorem part {front piece behind : List Char}
    (h : Covers whole span (front ++ (piece ++ behind))) :
    Covers whole ⟨span.start + Text.byteSize front,
      span.start + Text.byteSize front + Text.byteSize piece⟩ piece := by
  obtain ⟨a, b, rfl, rfl⟩ := h
  exact ⟨a ++ front, behind ++ b, by simp, by simp⟩

theorem interior {op : Wrapper} {piece : List Char}
    (h : Covers whole span (op.opening ++ (piece ++ [')']))) :
    Covers whole (interiorSpan op span) piece := by
  have hp := h.part
  obtain ⟨a, b, rfl, rfl⟩ := h
  have hstop : (interiorSpan op ⟨Text.byteSize a,
      Text.byteSize a + Text.byteSize (op.opening ++ (piece ++ [')']))⟩).stop =
      Text.byteSize a + Text.byteSize op.opening + Text.byteSize piece := by
    have hclose : (')' : Char).utf8Size = 1 := rfl
    simp only [interiorSpan, Text.byteSize_append, Text.byteSize_cons, Text.byteSize_nil, hclose]
    omega
  rw [← hstop] at hp
  exact hp

section
variable {l r : List Char} {op : Operator}

theorem before (h : Covers whole span (l ++ op.symbol :: r)) :
    Covers whole (span.before (span.start + Text.byteSize l)) l := by
  obtain ⟨a, b, hwhole, rfl⟩ := h
  exact ⟨a, op.symbol :: (r ++ b), by simpa using hwhole, rfl⟩

theorem behind (h : Covers whole span (l ++ op.symbol :: r)) :
    Covers whole (span.behind (span.start + Text.byteSize l)) r := by
  obtain ⟨a, b, rfl, rfl⟩ := h
  refine ⟨a ++ (l ++ [op.symbol]), b, by simp, ?_⟩
  simp [Text.Span.behind, utf8Size_symbol]
  omega

end

end Covers

end Fluxion.Parse
