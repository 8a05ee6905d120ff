import Mathlib.Order.Bounds.Basic
import Fluxion.Proofs.Scan.Passed
import Fluxion.Proofs.Text.Encoding
import Fluxion.Scan.Bytes

/-!
# Scans of ranges of bytes

In a range of bytes an operator counts if it stands outside of all parentheses, as far as the scan
has come. A scan ends at the first such operator; without one it ends at the first parenthesis that
has no partner in the range, or all parentheses have theirs. In a balanced range both directions
know the same operators.
-/

set_option autoImplicit false

namespace Fluxion.Scan

def letter (b : UInt8) : Char := Char.ofNat b.toNat

def BalancedBytes (bytes : List UInt8) : Prop := Balanced .left (textOfBytes bytes)

/-- The bytes of a range that a scan has passed when it comes to an index. -/
def scanned (bytes : List UInt8) (start stop : Nat) (side : Side) (index : Nat) : List UInt8 :=
  match side with
  | .left => slice bytes start index
  | .right => slice bytes (index + 1) stop

/-- An index of a range with an operator that counts. -/
structure Candidate (bytes : List UInt8) (start stop : Nat) (symbols : List UInt8) (side : Side)
    (index : Nat) : Prop where
  start_le : start ≤ index
  lt_stop : index < stop
  operator : ∃ b ∈ symbols, bytes[index]? = some b ∧ letter b ≠ '(' ∧ letter b ≠ ')' ∧
    (letter b = '+' ∨ letter b = '-' → start < index ∧ ∃ a, bytes[index - 1]? = some a ∧
      letter a ∉ ['+', '-', '*', '/', '^', '(', 'e', 'E'])
  balanced : BalancedBytes (scanned bytes start stop side index)

/-- Two indices of a range with an opening parenthesis and its partner. -/
structure Pair (bytes : List UInt8) (start stop i j : Nat) : Prop where
  start_le : start ≤ i
  lt : i < j
  lt_stop : j < stop
  opening : ∃ b, bytes[i]? = some b ∧ letter b = '('
  closing : ∃ b, bytes[j]? = some b ∧ letter b = ')'
  balanced : BalancedBytes (slice bytes (i + 1) j)

/-- An index of a range with a parenthesis that has no partner in the range. -/
structure Unmatched (bytes : List UInt8) (start stop index : Nat) : Prop where
  start_le : start ≤ index
  lt_stop : index < stop
  paren : ∃ b, bytes[index]? = some b ∧ (letter b = '(' ∨ letter b = ')')
  alone : ¬ ∃ j, Pair bytes start stop index j ∨ Pair bytes start stop j index

/-- The first index with a property that a scan comes to. -/
def IsFirst (side : Side) (p : Nat → Prop) (i : Nat) : Prop := p i ∧ ∀ j, p j → NoLater side i j

theorem IsFirst.unique {side : Side} {p : Nat → Prop} {i j : Nat} (hi : IsFirst side p i)
    (hj : IsFirst side p j) : i = j := by
  have hij := hi.2 j hj.1
  have hji := hj.2 i hi.1
  cases side with
  | left => exact Nat.le_antisymm hij hji
  | right => exact Nat.le_antisymm hji hij

theorem isFirst_left {p : Nat → Prop} {i : Nat} : IsFirst .left p i ↔ IsLeast {j | p j} i :=
  Iff.rfl

theorem isFirst_right {p : Nat → Prop} {i : Nat} : IsFirst .right p i ↔ IsGreatest {j | p j} i :=
  Iff.rfl

theorem letter_inj {a b : UInt8} : letter a = letter b ↔ a = b := by
  constructor
  · intro h
    have hn := congrArg Char.toNat h
    rw [letter, letter, Text.toNat_letter, Text.toNat_letter] at hn
    exact UInt8.toNat_inj.1 hn
  · rintro rfl
    rfl

theorem contains_letter {symbols : List UInt8} {b : UInt8} :
    (textOfBytes symbols).contains (letter b) = true ↔ b ∈ symbols := by
  rw [List.contains_iff_mem, textOfBytes, List.mem_map]
  constructor
  · rintro ⟨a, ha, h⟩
    exact letter_inj.1 h ▸ ha
  · intro h
    exact ⟨b, h, rfl⟩

theorem textOfBytes_append (a : List UInt8) (b : UInt8) (c : List UInt8) :
    textOfBytes (a ++ b :: c) = textOfBytes a ++ letter b :: textOfBytes c := by
  simp [textOfBytes, letter]

section
variable {bytes l r : List UInt8} {start stop i : Nat} {b : UInt8}

theorem slice_split (hstart : start ≤ i) (hstop : i < stop) (hb : bytes[i]? = some b) :
    slice bytes start stop = slice bytes start i ++ b :: slice bytes (i + 1) stop ∧
      (slice bytes start i).length = i - start := by
  obtain ⟨hlt, hget⟩ := List.getElem?_eq_some_iff.1 hb
  obtain ⟨front, behind, rfl, rfl⟩ : ∃ front behind, bytes = front ++ b :: behind ∧
      i = front.length := by
    refine ⟨bytes.take i, bytes.drop (i + 1), ?_, by rw [List.length_take]; omega⟩
    rw [← hget, List.getElem_cons_drop, List.take_append_drop]
  obtain ⟨k, rfl⟩ : ∃ k, stop = front.length + (k + 1) := ⟨stop - front.length - 1, by omega⟩
  have hfront : slice (front ++ b :: behind) start front.length = front.drop start := by
    rw [slice, List.take_left]
  have hbehind : slice (front ++ b :: behind) (front.length + 1) (front.length + (k + 1)) =
      behind.take k := by
    rw [slice, List.take_length_add_append, List.take_succ_cons, List.drop_length_add_append,
      List.drop_one, List.tail_cons]
  rw [hfront, hbehind, slice, List.take_length_add_append, List.take_succ_cons,
    List.drop_append_of_le_length hstart]
  exact ⟨rfl, List.length_drop⟩

theorem split_slice (h : slice bytes start stop = l ++ b :: r) :
    start + l.length < stop ∧ bytes[start + l.length]? = some b ∧
      slice bytes start (start + l.length) = l ∧ slice bytes (start + l.length + 1) stop = r := by
  have hget : (slice bytes start stop)[l.length]? = some b := by simp [h]
  rw [slice, List.getElem?_drop, List.getElem?_take] at hget
  split at hget
  · next hlt =>
    obtain ⟨hsplit, hlen⟩ := slice_split (Nat.le_add_right start l.length) hlt hget
    rw [h, Nat.add_sub_cancel_left] at *
    obtain ⟨hl, hr⟩ := List.append_inj hsplit hlen.symm
    exact ⟨hlt, hget, hl.symm, (List.cons.inj hr).2.symm⟩
  · cases hget

theorem split_text {text rest : List Char} {c : Char}
    (h : textOfBytes bytes = text ++ c :: rest) :
    ∃ l b r, bytes = l ++ b :: r ∧ textOfBytes l = text ∧ letter b = c ∧ textOfBytes r = rest := by
  obtain ⟨l, behind, rfl, hl, hbehind⟩ := List.map_eq_append_iff.1 h
  obtain ⟨b, r, rfl, hb, hr⟩ := List.map_eq_cons_iff.1 hbehind
  exact ⟨l, b, r, rfl, hl, hb, hr⟩

theorem isParen_letter : isParen (letter b) = true ↔ letter b = '(' ∨ letter b = ')' := by
  simp [isParen]

theorem passed_split (h : slice bytes start stop = l ++ b :: r) (side : Side) :
    BalancedBytes (scanned bytes start stop side (start + l.length)) ↔
      Balanced .left (passed side (textOfBytes l) (textOfBytes r)) := by
  obtain ⟨-, -, hl, hr⟩ := split_slice h
  cases side with
  | left =>
    rw [scanned, hl]
    rfl
  | right =>
    rw [scanned, hr]
    rfl

theorem previous_split (h : slice bytes start stop = l ++ b :: r) :
    (textOfBytes l).getLast?.any endsOperand = true ↔
      start < start + l.length ∧ ∃ a, bytes[start + l.length - 1]? = some a ∧
        letter a ∉ ['+', '-', '*', '/', '^', '(', 'e', 'E'] := by
  obtain ⟨-, -, hl, -⟩ := split_slice h
  rcases List.eq_nil_or_concat l with rfl | ⟨front, a, rfl⟩
  · simp [textOfBytes]
  · rw [List.concat_eq_append] at hl ⊢
    obtain ⟨-, hget, -, -⟩ := split_slice hl
    have hlast : (textOfBytes (front ++ [a])).getLast? = some (letter a) := by
      simp [textOfBytes, letter]
    have hlength : start + (front ++ [a]).length = start + front.length + 1 := by
      simp [Nat.add_assoc]
    rw [hlast, hlength, Nat.add_sub_cancel, hget]
    constructor
    · intro hends
      exact ⟨Nat.lt_succ_of_le (Nat.le_add_right _ _), a, rfl, of_decide_eq_true hends⟩
    · rintro ⟨-, a', ha, hends⟩
      obtain rfl := Option.some.inj ha
      exact decide_eq_true hends

theorem candidate_split (h : slice bytes start stop = l ++ b :: r) (symbols : List UInt8)
    (side : Side) :
    Candidate bytes start stop symbols side (start + l.length) ↔
      isParen (letter b) = false ∧
        isOperator (textOfBytes symbols) (textOfBytes l).getLast? (letter b) = true ∧
        Balanced .left (passed side (textOfBytes l) (textOfBytes r)) := by
  obtain ⟨hlt, hget, -, -⟩ := split_slice h
  have hoperator : isOperator (textOfBytes symbols) (textOfBytes l).getLast? (letter b) = true ↔
      b ∈ symbols ∧ (letter b = '+' ∨ letter b = '-' →
        start < start + l.length ∧ ∃ a, bytes[start + l.length - 1]? = some a ∧
          letter a ∉ ['+', '-', '*', '/', '^', '(', 'e', 'E']) := by
    rw [isOperator, Bool.and_eq_true, contains_letter, Bool.or_eq_true, previous_split h]
    simp [imp_iff_not_or]
  have hparen : isParen (letter b) = false ↔ letter b ≠ '(' ∧ letter b ≠ ')' := by
    rw [← Bool.not_eq_true, isParen_letter, not_or]
  rw [hoperator, hparen, ← passed_split h]
  constructor
  · rintro ⟨-, -, ⟨b', hb', hget', hopen, hclose, hsign⟩, hbalanced⟩
    obtain rfl : b = b' := Option.some.inj (hget.symm.trans hget')
    exact ⟨⟨hopen, hclose⟩, ⟨hb', hsign⟩, hbalanced⟩
  · rintro ⟨⟨hopen, hclose⟩, ⟨hb, hsign⟩, hbalanced⟩
    exact ⟨Nat.le_add_right _ _, hlt, ⟨b, hb, hget, hopen, hclose, hsign⟩, hbalanced⟩

theorem exists_split_at (hstart : start ≤ i) (hstop : i < stop) (hb : bytes[i]? = some b) :
    ∃ l r, slice bytes start stop = l ++ b :: r ∧ i = start + l.length := by
  obtain ⟨hsplit, hlen⟩ := slice_split hstart hstop hb
  exact ⟨_, _, hsplit, by omega⟩

theorem partnered_split (h : slice bytes start stop = l ++ b :: r) :
    Partnered (textOfBytes l) (letter b) (textOfBytes r) ↔
      ∃ j, Pair bytes start stop (start + l.length) j ∨
        Pair bytes start stop j (start + l.length) := by
  obtain ⟨hlt, hget, hl, hr⟩ := split_slice h
  constructor
  · rintro (⟨hb, inner, rest, htext, hi⟩ | ⟨hb, front, inner, htext, hi⟩)
    · obtain ⟨bytesIn, b', bytesAfter, rfl, rfl, hb', -⟩ := split_text htext
      have hlater : slice bytes start stop = (l ++ b :: bytesIn) ++ b' :: bytesAfter := by
        rw [h, List.append_assoc, List.cons_append]
      obtain ⟨hlt', hget', hfront, -⟩ := split_slice hlater
      obtain ⟨hbetween, -, -, hinner⟩ := split_slice hfront
      refine ⟨_, .inl ⟨Nat.le_add_right _ _, hbetween, hlt', ⟨b, hget, hb⟩, ⟨b', hget', hb'⟩, ?_⟩⟩
      rw [BalancedBytes, hinner]
      exact hi
    · obtain ⟨bytesFront, b', bytesIn, rfl, -, hb', rfl⟩ := split_text htext
      obtain ⟨hbetween, hget', -, hinner⟩ := split_slice hl
      refine ⟨_, .inr ⟨Nat.le_add_right _ _, hbetween, hlt, ⟨b', hget', hb'⟩, ⟨b, hget, hb⟩, ?_⟩⟩
      rw [BalancedBytes, hinner]
      exact hi
  · rintro ⟨j, hpair | hpair⟩
    · obtain ⟨a, ha, hopen⟩ := hpair.opening
      obtain ⟨b', hb', hclose⟩ := hpair.closing
      obtain rfl : b = a := Option.some.inj (hget.symm.trans ha)
      obtain ⟨hsplit, -⟩ := slice_split (Nat.succ_le_of_lt hpair.lt) hpair.lt_stop hb'
      have htext := congrArg textOfBytes (hr.symm.trans hsplit)
      rw [textOfBytes_append, hclose] at htext
      exact .inl ⟨hopen, _, _, htext, hpair.balanced⟩
    · obtain ⟨a, ha, hopen⟩ := hpair.opening
      obtain ⟨b', hb', hclose⟩ := hpair.closing
      obtain rfl : b = b' := Option.some.inj (hget.symm.trans hb')
      obtain ⟨hsplit, -⟩ := slice_split hpair.start_le hpair.lt ha
      have htext := congrArg textOfBytes (hl.symm.trans hsplit)
      rw [textOfBytes_append, hopen] at htext
      exact .inr ⟨hclose, _, _, htext, hpair.balanced⟩

theorem unmatched_split (h : slice bytes start stop = l ++ b :: r) :
    Unmatched bytes start stop (start + l.length) ↔
      Lonely (textOfBytes l) (letter b) (textOfBytes r) := by
  obtain ⟨hlt, hget, -, -⟩ := split_slice h
  rw [Lonely, partnered_split h, isParen_letter]
  constructor
  · rintro ⟨-, -, ⟨a, ha, hparen⟩, halone⟩
    obtain rfl : b = a := Option.some.inj (hget.symm.trans ha)
    exact ⟨hparen, halone⟩
  · rintro ⟨hparen, halone⟩
    exact ⟨Nat.le_add_right _ _, hlt, ⟨b, hget, hparen⟩, halone⟩

theorem not_unmatched_of_balanced (h : BalancedBytes (slice bytes start stop)) :
    ¬ Unmatched bytes start stop i := by
  intro hi
  obtain ⟨b, hb, -⟩ := hi.paren
  obtain ⟨l, r, hsplit, rfl⟩ := exists_split_at hi.start_le hi.lt_stop hb
  have htext : textOfBytes (slice bytes start stop) =
      textOfBytes l ++ letter b :: textOfBytes r := by
    rw [hsplit, textOfBytes_append]
  exact balanced_iff.1 h _ _ _ htext ((unmatched_split hsplit).1 hi)

theorem Pair.within {s e j : Nat} (h : Pair bytes s e i j) (hs : start ≤ i) (he : j < stop) :
    Pair bytes start stop i j :=
  ⟨hs, h.lt, he, h.opening, h.closing, h.balanced⟩

theorem Unmatched.within {s e : Nat} (h : Unmatched bytes start stop i) (hs : start ≤ s)
    (he : e ≤ stop) (hsi : s ≤ i) (hie : i < e) : Unmatched bytes s e i := by
  refine ⟨hsi, hie, h.paren, ?_⟩
  rintro ⟨j, hj⟩
  refine h.alone ⟨j, hj.imp ?_ ?_⟩
  · intro hp
    exact hp.within h.start_le (Nat.lt_of_lt_of_le hp.lt_stop he)
  · intro hp
    exact hp.within (Nat.le_trans hs hp.start_le) h.lt_stop

end

section
variable {bytes symbols : List UInt8} {start stop i : Nat} {side : Side}

theorem Candidate.reached (h : Candidate bytes start stop symbols side i) :
    ∃ j, splitIndex bytes start stop symbols side = .ok (some j) ∧ NoLater side j i := by
  obtain ⟨b, -, hb, -⟩ := h.operator
  obtain ⟨l, r, hsplit, rfl⟩ := exists_split_at h.start_le h.lt_stop hb
  obtain ⟨hparen, hoperator, hbalanced⟩ := (candidate_split hsplit symbols side).1 h
  obtain ⟨p, hp, hlater⟩ := find_reaches hbalanced hparen hoperator
  refine ⟨start + p.index, ?_, ?_⟩
  · rw [splitIndex, hsplit, textOfBytes_append, hp]
    rfl
  · rw [length_textOfBytes] at hlater
    cases side with
    | left => exact Nat.add_le_add_left hlater start
    | right => exact Nat.add_le_add_left hlater start

theorem splitIndex_some (h : splitIndex bytes start stop symbols side = .ok (some i)) :
    IsFirst side (Candidate bytes start stop symbols side) i := by
  constructor
  · have hf := found side (textOfBytes symbols) (textOfBytes (slice bytes start stop))
    rw [splitIndex] at h
    generalize find side (textOfBytes symbols) (textOfBytes (slice bytes start stop)) = result
      at h hf
    generalize htext : textOfBytes (slice bytes start stop) = text at hf
    cases hf with
    | nothing => cases h
    | lonely => cases h
    | operator hb hc ho =>
      obtain ⟨l, b, r, hsplit, rfl, rfl, rfl⟩ := split_text htext
      obtain rfl : start + (textOfBytes l).length = i := Option.some.inj (Except.ok.inj h)
      rw [length_textOfBytes]
      exact (candidate_split hsplit symbols side).2 ⟨hc, ho, hb⟩
  · intro j hj
    obtain ⟨k, hk, hlater⟩ := hj.reached
    obtain rfl : i = k := Option.some.inj (Except.ok.inj (h.symm.trans hk))
    exact hlater

theorem splitIndex_none (h : splitIndex bytes start stop symbols side = .ok none) :
    BalancedBytes (slice bytes start stop) := by
  have hf := found side (textOfBytes symbols) (textOfBytes (slice bytes start stop))
  rw [splitIndex] at h
  generalize find side (textOfBytes symbols) (textOfBytes (slice bytes start stop)) = result at h hf
  generalize htext : textOfBytes (slice bytes start stop) = text at hf
  cases hf with
  | nothing hb =>
    rw [BalancedBytes, htext]
    exact hb
  | lonely => cases h
  | operator => cases h

theorem splitIndex_error {u : Unpaired}
    (h : splitIndex bytes start stop symbols side = .error u) :
    IsFirst side (Unmatched bytes start stop) u.index ∧
      (u.opening = true ↔ ∃ b, bytes[u.index]? = some b ∧ letter b = '(') := by
  have hf := found side (textOfBytes symbols) (textOfBytes (slice bytes start stop))
  rw [splitIndex] at h
  generalize find side (textOfBytes symbols) (textOfBytes (slice bytes start stop)) = result at h hf
  generalize htext : textOfBytes (slice bytes start stop) = text at hf
  cases hf with
  | nothing => cases h
  | operator => cases h
  | lonely hb hl =>
    obtain ⟨l, b, r, hsplit, rfl, rfl, rfl⟩ := split_text htext
    obtain rfl := Except.error.inj h
    obtain ⟨hlt, hget, -, -⟩ := split_slice hsplit
    dsimp only
    rw [length_textOfBytes]
    refine ⟨⟨(unmatched_split hsplit).2 hl, ?_⟩, ?_⟩
    · -- the bytes that were passed are balanced, so all that is alone lies behind them
      intro j hj
      have hpassed := (passed_split hsplit side).2 hb
      cases side with
      | left =>
        refine Nat.le_of_not_lt fun hlt' => ?_
        exact not_unmatched_of_balanced hpassed
          (hj.within (Nat.le_refl _) (Nat.le_of_lt hlt) hj.start_le hlt')
      | right =>
        refine Nat.le_of_not_lt fun hlt' => ?_
        exact not_unmatched_of_balanced hpassed
          (hj.within (by omega) (Nat.le_refl _) hlt' hj.lt_stop)
    · simp [hget]

theorem candidate_sides (h : BalancedBytes (slice bytes start stop)) :
    Candidate bytes start stop symbols .left i ↔ Candidate bytes start stop symbols .right i := by
  have ends {side : Side} (hi : Candidate bytes start stop symbols side i) :
      ∃ b l r, slice bytes start stop = l ++ b :: r ∧ i = start + l.length := by
    obtain ⟨b, -, hb, -⟩ := hi.operator
    obtain ⟨l, r, hsplit, hi⟩ := exists_split_at hi.start_le hi.lt_stop hb
    exact ⟨b, l, r, hsplit, hi⟩
  constructor
  · intro hi
    obtain ⟨b, l, r, hsplit, rfl⟩ := ends hi
    rw [candidate_split hsplit] at hi ⊢
    obtain ⟨hparen, hoperator, hl⟩ := hi
    rw [BalancedBytes, hsplit, textOfBytes_append] at h
    have hr : Balanced .left ([letter b] ++ textOfBytes r) := Balanced.back h hl
    have hb : Balanced .left [letter b] := .char hparen .nil
    exact ⟨hparen, hoperator, hr.back hb⟩
  · intro hi
    obtain ⟨b, l, r, hsplit, rfl⟩ := ends hi
    rw [candidate_split hsplit] at hi ⊢
    obtain ⟨hparen, hoperator, hr⟩ := hi
    rw [BalancedBytes, hsplit, textOfBytes_append] at h
    exact ⟨hparen, hoperator, Balanced.front h (.char hparen hr)⟩

end

section
variable (bytes : List UInt8) (start stop : Nat) (symbols : List UInt8) (side : Side)

/-- A scan of a range ends at the first operator that counts, in the order of the scan. Without one
it ends with the first parenthesis that has no partner in the range, and says which one it is. If
there is no such parenthesis either, the range is balanced. In a balanced range the same operators
count for both directions, and a scan ends at the least or at the greatest of them. -/
theorem splitIndex_spec :
    (∀ i, splitIndex bytes start stop symbols side = .ok (some i) ↔
      IsFirst side (Candidate bytes start stop symbols side) i) ∧
    (∀ u, splitIndex bytes start stop symbols side = .error u ↔
      (¬ ∃ i, Candidate bytes start stop symbols side i) ∧
        IsFirst side (Unmatched bytes start stop) u.index ∧
        (u.opening = true ↔ ∃ b, bytes[u.index]? = some b ∧ letter b = '(')) ∧
    (splitIndex bytes start stop symbols side = .ok none ↔
      (¬ ∃ i, Candidate bytes start stop symbols side i) ∧
        BalancedBytes (slice bytes start stop)) ∧
    (BalancedBytes (slice bytes start stop) → ∀ i,
      (Candidate bytes start stop symbols .left i ↔ Candidate bytes start stop symbols .right i) ∧
      (splitIndex bytes start stop symbols .left = .ok (some i) ↔
        IsLeast {j | Candidate bytes start stop symbols side j} i) ∧
      (splitIndex bytes start stop symbols .right = .ok (some i) ↔
        IsGreatest {j | Candidate bytes start stop symbols side j} i)) := by
  -- the conditions exclude each other, so each of them is met only by the result it belongs to
  have hsome (side : Side) (i : Nat) : splitIndex bytes start stop symbols side = .ok (some i) ↔
      IsFirst side (Candidate bytes start stop symbols side) i := by
    refine ⟨splitIndex_some, fun hi => ?_⟩
    obtain ⟨j, hj, -⟩ := hi.1.reached
    rw [hj, (splitIndex_some hj).unique hi]
  have hnever {result : Except Unpaired (Option Nat)}
      (h : splitIndex bytes start stop symbols side = result) (hr : ∀ j, result ≠ .ok (some j)) :
      ¬ ∃ i, Candidate bytes start stop symbols side i := by
    rintro ⟨i, hi⟩
    obtain ⟨j, hj, -⟩ := hi.reached
    exact hr j (h.symm.trans hj)
  refine ⟨hsome side, fun u => ⟨fun h => ?_, ?_⟩, ⟨fun h => ?_, ?_⟩, fun hbalanced i => ?_⟩
  · exact ⟨hnever h nofun, splitIndex_error h⟩
  · rintro ⟨hnone, hfirst, hopening⟩
    cases h : splitIndex bytes start stop symbols side with
    | error v =>
      obtain ⟨hv, hw⟩ := splitIndex_error h
      have hindex : v.index = u.index := hv.unique hfirst
      rw [hindex] at hw
      have hkind : v.opening = u.opening := Bool.eq_iff_iff.2 (hw.trans hopening.symm)
      exact congrArg Except.error (congrArg₂ Unpaired.mk hindex hkind)
    | ok p =>
      cases p with
      | none => exact absurd hfirst.1 (not_unmatched_of_balanced (splitIndex_none h))
      | some i => exact absurd ⟨i, (splitIndex_some h).1⟩ hnone
  · exact ⟨hnever h nofun, splitIndex_none h⟩
  · rintro ⟨hnone, hbalanced⟩
    cases h : splitIndex bytes start stop symbols side with
    | error v => exact absurd (splitIndex_error h).1.1 (not_unmatched_of_balanced hbalanced)
    | ok p =>
      cases p with
      | none => rfl
      | some i => exact absurd ⟨i, (splitIndex_some h).1⟩ hnone
  · have hsides (side' : Side) : Candidate bytes start stop symbols side' =
        Candidate bytes start stop symbols side := by
      funext j
      have hj : Candidate bytes start stop symbols .left j ↔
          Candidate bytes start stop symbols .right j := candidate_sides hbalanced
      cases side <;> cases side' <;> simp [hj]
    refine ⟨candidate_sides hbalanced, ?_, ?_⟩
    · rw [hsome, isFirst_left, hsides]
    · rw [hsome, isFirst_right, hsides]

end

theorem splitIndex_spec_of_difference :
    let bytes := "a-(b+c)-d".toUTF8.toList
    let symbols := "+-".toUTF8.toList
    BalancedBytes (slice bytes 0 9) ∧
      IsLeast {i | Candidate bytes 0 9 symbols .left i} 1 ∧
      IsGreatest {i | Candidate bytes 0 9 symbols .left i} 7 := by
  intro bytes symbols
  have hnone : splitIndex bytes 0 9 [] .left = .ok none := by decide +kernel
  have hbalanced := splitIndex_none hnone
  have hspec := (splitIndex_spec bytes 0 9 symbols .left).2.2.2 hbalanced
  have hleft : splitIndex bytes 0 9 symbols .left = .ok (some 1) := by decide +kernel
  have hright : splitIndex bytes 0 9 symbols .right = .ok (some 7) := by decide +kernel
  exact ⟨hbalanced, (hspec 1).2.1.1 hleft, (hspec 7).2.2.1 hright⟩

end Fluxion.Scan
