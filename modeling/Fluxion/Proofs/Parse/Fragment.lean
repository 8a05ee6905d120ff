import Fluxion.Proofs.Parse.Location
import Fluxion.Proofs.Scan.Passed

/-!
# Faults of a fragment alone

Every piece of a reading is clear of the operators of all looser tiers, as a text of its own. So a
piece has the same shape at the loosest tier, and a fault of its shape is found again, at once and
within any limit, when the piece is read alone.
-/

set_option autoImplicit false

namespace Fluxion

namespace Parse
open Scan

/-- The text is clear of all operators that are looser than the rank. -/
def Tight (rank : Nat) (text : List Char) : Prop :=
  ∀ p : Precedence, p.rank < rank → Clear .left (symbols p) none none text

theorem Tight.next {p : Precedence} {text : List Char} (h : Tight p.rank text)
    (hc : Clear .left (symbols p) none none text) : Tight (p.rank + 1) text := by
  intro q hq
  rcases Nat.lt_or_eq_of_le (Nat.le_of_lt_succ hq) with hlt | heq
  · exact h q hlt
  · obtain rfl : q = p := by
      revert heq
      cases q <;> cases p <;> decide
    exact hc

/-- A text that is split at an operator: clear of all looser ones, and of those of the same tier on
the side that was scanned. -/
structure Parts (l : List Char) (op : Operator) (r : List Char) : Prop where
  tight : Tight op.precedence.rank (l ++ op.symbol :: r)
  split : At op.associativity.other (symbols op.precedence) l op.symbol r

section
variable {text l r : List Char} {op : Operator}

theorem primaryShape_ne_split : primaryShape text ≠ .ok (.split l op r) := by
  intro h
  unfold primaryShape at h
  split at h
  · cases (wrappedShape_ok h).2
  · split at h
    · cases h
    · split at h <;> cases h

theorem callShape_ne_split : callShape text ≠ .ok (.split l op r) := by
  intro h
  unfold callShape at h
  split at h
  · cases (wrappedShape_ok h).2
  · exact primaryShape_ne_split h

theorem parts_of_splitShape {side : Side} {p : Precedence}
    {tighter : List Char → Except Fault Shape} (ht : Tight p.rank text)
    (hside : ∀ op ∈ operators p, op.associativity.other = side)
    (hnext : Tight (p.rank + 1) text → tighter text = .ok (.split l op r) → Parts l op r)
    (h : splitShape side (operators p) tighter text = .ok (.split l op r)) : Parts l op r := by
  unfold splitShape at h
  split at h
  · cases h
  · next hf => exact hnext (ht.next (clear_of_find hf)) h
  · next hf =>
    obtain ⟨l', c, r', rfl, rfl, hat⟩ := at_of_find hf
    obtain ⟨op', ho, rfl⟩ : ∃ op' ∈ operators p, op'.symbol = c := by
      have hc := hat.operator
      simp only [isOperator, Bool.and_eq_true, List.contains_iff_mem, List.mem_map] at hc
      exact hc.1
    have hp := precedence_of_mem_symbols op' p (List.mem_map_of_mem ho)
    dsimp only at h
    rw [List.take_left, drop_behind, ofSymbol_symbol] at h
    split at h
    · cases h
    · split at h
      · cases h
      · cases h
        rw [← hside op ho] at hat
        subst hp
        exact ⟨ht, hat⟩

theorem parts_of_shape {tier : Tier} (ht : Tight tier.rank text)
    (h : shape tier text = .ok (.split l op r)) : Parts l op r := by
  have power (ht : Tight 2 text) (h : powerShape text = .ok (.split l op r)) : Parts l op r :=
    parts_of_splitShape (p := .exp) ht (by decide) (fun _ h => absurd h callShape_ne_split) h
  have product (ht : Tight 1 text) (h : productShape text = .ok (.split l op r)) : Parts l op r :=
    parts_of_splitShape (p := .factor) ht (by decide) power h
  cases tier with
  | sum => exact parts_of_splitShape (p := .term) ht (by decide) product h
  | product => exact product ht h
  | power => exact power ht h
  | base => exact absurd (baseShape_eq h) primaryShape_ne_split
  | primary => exact absurd h primaryShape_ne_split

theorem clear_behind {symbols : List Char} {beyond : Option Char}
    (h : Clear .left symbols beyond (some op.symbol) r) : Clear .left symbols beyond none r :=
  h.of_met (endsOperand_symbol op)

theorem tight_operands {tier : Tier} (ht : Tight tier.rank text)
    (h : shape tier text = .ok (.split l op r)) :
    Tight (operandTier op .left).rank l ∧ Tight (operandTier op .right).rank r := by
  have hparts := parts_of_shape ht h
  obtain rfl := (shape_forms h).eq_append
  have balanced {p : Precedence} (hp : p.rank < op.precedence.rank) : Balanced .left l :=
    (shape_forms h).balanced (hparts.tight p hp).balanced l List.mem_cons_self
  constructor
  · intro p hp
    by_cases hlt : p.rank < op.precedence.rank
    · exact ((hparts.tight p hlt).parts (balanced hlt)).1
    · obtain ⟨rfl, rfl⟩ : op = .pow ∧ p = .exp := by
        revert hp hlt
        cases op <;> cases p <;> decide
      exact hparts.split.clear
  · intro p hp
    by_cases hlt : p.rank < op.precedence.rank
    · have hfront : Balanced .left (l ++ [op.symbol]) :=
        (balanced hlt).append (.char (isParen_symbol op) .nil)
      have hclear := hparts.tight p hlt
      rw [List.append_cons] at hclear
      have hbehind := (hclear.parts hfront).2
      rw [List.getLast?_concat] at hbehind
      exact clear_behind hbehind
    · obtain ⟨hside, rfl⟩ : op.associativity.other = .right ∧ p = op.precedence := by
        revert hp hlt
        cases op <;> cases p <;> decide
      have hclear := hparts.split.clear
      rw [hside] at hclear
      exact clear_behind hclear

end

section
variable {tier : Tier} {text : List Char} {f : Fault}

theorem fragment_of_shape (h : shape tier text = .error f) : f.fragment = text := by
  cases shape_unshaped h <;> rfl

/-- A tight text has the same shape at the loosest tier, but for the complaint about the base of a
power. -/
theorem sum_shape (ht : Tight tier.rank text) (hp : tier ≠ .primary)
    (h : shape tier text = .error f) : f.cause = .bareLogBase ∨ shape .sum text = .error f := by
  have product (ht : Tight 1 text) : shape .sum text = productShape text :=
    splitShape_clear (ht .term (by decide))
  have power (ht : Tight 2 text) : shape .sum text = powerShape text :=
    (product fun p h => ht p (Nat.lt_succ_of_lt h)).trans
      (splitShape_clear (ht .factor (by decide)))
  have call (ht : Tight 3 text) : shape .sum text = callShape text :=
    (power fun p h => ht p (Nat.lt_succ_of_lt h)).trans (splitShape_clear (ht .exp (by decide)))
  cases tier with
  | sum => exact .inr h
  | product => exact .inr ((product ht).trans h)
  | power => exact .inr ((power ht).trans h)
  | base =>
    change baseShape text = .error f at h
    unfold baseShape at h
    split at h
    · exact .inl (Except.error.inj h ▸ rfl)
    · next hc =>
      refine .inr ((call ht).trans ?_)
      rw [callShape, hc]
      exact h
  | primary => exact absurd rfl hp

theorem operandTier_ne_primary (op : Operator) (side : Side) :
    operandTier op side ≠ .primary := by
  cases op <;> cases side <;> decide

theorem Forms.ne_nil {s : Shape} (h : Forms tier text s) {piece : List Char}
    (hp : piece ∈ s.pieces) : piece ≠ [] := by
  rintro rfl
  exact absurd (h.piece_size hp).1 (Nat.lt_irrefl 0)

/-- A reading fails for want of room, or at the bare base of a power, or with the fault that its
fragment has at the loosest tier. -/
theorem Fails.alone {limit room : Nat} {span : Text.Span}
    (h : Fails limit room tier span text f) (ht : Tight tier.rank text) (hp : tier ≠ .primary)
    (hne : text ≠ []) :
    f.cause = .tooDeep limit ∨ f.cause = .bareLogBase ∨
      f.fragment ≠ [] ∧ ∃ g, Parse.shape .sum f.fragment = .error g ∧
        g.toRefusal = f.toRefusal := by
  induction h with
  | @shape _ _ _ _ g hs =>
    have hfragment := fragment_of_shape hs
    rcases sum_shape ht hp hs with hb | hs
    · exact .inr (.inl hb)
    · rw [← hfragment] at hne hs
      exact .inr (.inr ⟨hne, g, hs, rfl⟩)
  | wrappedTooDeep => exact .inl rfl
  | splitTooDeep => exact .inl rfl
  | interior hs _ ih =>
    refine ih (fun p hrank => absurd hrank (Nat.not_lt_zero _)) nofun ?_
    exact (shape_forms hs).ne_nil (List.mem_singleton.2 rfl)
  | left hs _ ih =>
    exact ih (tight_operands ht hs).1 (operandTier_ne_primary _ _)
      ((shape_forms hs).ne_nil List.mem_cons_self)
  | right hs _ _ ih =>
    exact ih (tight_operands ht hs).2 (operandTier_ne_primary _ _)
      ((shape_forms hs).ne_nil (List.mem_cons_of_mem _ (List.mem_singleton.2 rfl)))

end

theorem readAll_fragment {limit : Nat} {text : List Char} {f : Fault}
    (h : (readAll limit text).outcome = .error f) (hlog : f.cause ≠ .bareLogBase)
    (hdeep : ∀ n, f.cause ≠ .tooDeep n) (limit' : Nat) :
    ∃ g, (readAll limit' f.fragment).outcome = .error g ∧ g.toRefusal = f.toRefusal := by
  by_cases hne : text = []
  · subst hne
    obtain rfl := Except.error.inj h
    exact ⟨_, rfl, rfl⟩
  · rcases fails_of_readAll h with ⟨hnil, _⟩ | hf
    · exact absurd hnil hne
    · have htight : Tight (Tier.rank .sum) text := fun p hrank => absurd hrank (Nat.not_lt_zero _)
      rcases hf.alone htight nofun hne with hd | hb | ⟨hfragment, g, hs, hg⟩
      · exact absurd hd (hdeep limit)
      · exact absurd hb hlog
      · rw [readAll_of_ne_nil hfragment, read_error hs]
        exact ⟨_, rfl, hg⟩

theorem strip_fragment {limit : Nat} {given : List Char} {f : Fault}
    (h : (readAll limit (Text.strip given)).outcome = .error f) :
    Text.strip f.fragment = f.fragment := by
  obtain ⟨a, _, _, _, b, _, _, ht, _⟩ := readAll_located h
  refine List.filter_eq_self.2 fun c hc => ?_
  have hmem : c ∈ Text.strip given := by
    rw [ht]
    simp [hc]
  exact (List.mem_filter.1 hmem).2

end Parse

/-- The fragment of a fault is faulty by itself. Parsed alone, within any limit, it fails with the
same cause and is itself the fragment, unless the fault is the limit's or the base of a power's. -/
theorem parse_fragment {limit : Nat} {given : List Char} {f : Parse.Fault}
    (h : (parse limit given).outcome = .error f) (hlog : f.cause ≠ .bareLogBase)
    (hdeep : ∀ n, f.cause ≠ .tooDeep n) (limit' : Nat) :
    ∃ g, (parse limit' f.fragment).outcome = .error g ∧ g.cause = f.cause ∧
      g.fragment = f.fragment := by
  obtain ⟨f, hf, rfl⟩ := parse_error_iff.1 h
  obtain ⟨g, hg, hr⟩ := Parse.readAll_fragment hf hlog hdeep limit'
  rw [← Parse.strip_fragment hf] at hg
  exact ⟨_, parse_error_iff.2 ⟨g, hg, rfl⟩, congrArg _ hr, congrArg _ hr⟩

theorem parse_fragment_signed_base :
    (parse 9 "x - x * - 2 ^".toList).outcome =
        .error ⟨⟨.missingOperand .pow .right, ['-', '2', '^']⟩, ⟨12, 13⟩⟩ ∧
      ∃ g, (parse 0 ['-', '2', '^']).outcome = .error g ∧
        g.cause = .missingOperand .pow .right ∧ g.fragment = ['-', '2', '^'] :=
  have h : (parse 9 "x - x * - 2 ^".toList).outcome =
      .error ⟨⟨.missingOperand .pow .right, ['-', '2', '^']⟩, ⟨12, 13⟩⟩ := by with_unfolding_all rfl
  ⟨h, parse_fragment h nofun nofun 0⟩

end Fluxion
