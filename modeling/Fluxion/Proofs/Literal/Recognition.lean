import Fluxion.Proofs.Decimal.Rounding
import Fluxion.Proofs.Literal.Pattern

/-!
# Literals are recognized exactly

A text is a literal if it matches one of the patterns. A decimal has the value that is nearest to
the number it writes. A text is cut into items from its beginning to its end, each of them the
longest literal that begins there, or a mismatch where none does.
-/

set_option autoImplicit false

namespace Fluxion

def Numeral.number (n : Numeral) : ℚ :=
  (Nat.ofDigitChars 10 n.whole 0 +
    Nat.ofDigitChars 10 n.fraction 0 / 10 ^ n.fraction.length) * 10 ^ n.exponent

theorem Numeral.number_decimal (n : Numeral) : n.decimal.number = n.number := by
  have hten : (10 : ℚ) ^ n.fraction.length ≠ 0 := pow_ne_zero _ (by norm_num)
  rw [Decimal.number, Numeral.number, Numeral.decimal, Nat.ofDigitChars_append,
    Nat.ofDigitChars_eq_ofDigitChars_zero, zpow_sub₀ (by norm_num), zpow_natCast]
  push_cast
  field_simp

namespace Literal

/-- What the value of a literal is, down to its bits. -/
inductive Denotes : Literal → Float → Prop
  | decimal {negative : Bool} {n : Numeral} {m : ℕ} {v : Float}
      (hm : Binary64.Rounds n.number m) (hv : Binary64.HasBits v negative m) :
      Denotes (.decimal negative n) v
  | nan {v : Float} (hv : v.isNaN = true) : Denotes .nan v
  | infinity {negative : Bool} {v : Float}
      (hv : Binary64.HasBits v negative Binary64.infinityBits) : Denotes (.infinity negative) v

theorem denotes_iff {l : Literal} {v : Float} : Denotes l v ↔ v = l.value := by
  cases l with
  | decimal negative n =>
    have hround := Decimal.rounds_magnitude n.decimal
    rw [Numeral.number_decimal] at hround
    rw [value, ← Binary64.hasBits_iff hround.le_infinity]
    constructor
    · intro h
      cases h with
      | decimal hm hv => rwa [hm.unique hround] at hv
    · exact .decimal hround
  | nan =>
    rw [value, ← Binary64.isNaN_iff]
    constructor
    · intro h
      cases h with
      | nan hv => exact hv
    · exact .nan
  | infinity negative =>
    rw [value, Binary64.infinity, ← Binary64.hasBits_iff (Nat.le_refl _)]
    constructor
    · intro h
      cases h with
      | infinity hv => exact hv
    · exact .infinity

structure IsLongest (p text : List Char) : Prop where
  ne_nil : p ≠ []
  at_start : p <+: text
  literal : p ∈ literalPattern.matches'
  longest : ∀ q, q <+: text → q ∈ literalPattern.matches' → q.length ≤ p.length

/-- A text begins with literals that are longest where they begin, up to where there is none. -/
inductive Tokenized : List Char → List Token → List Char → Prop
  | stop {text : List Char} (h : ∀ p, p <+: text → p ∉ literalPattern.matches') :
      Tokenized text [] text
  | token {t : Token} {ts : List Token} {rest left : List Char}
      (hp : IsLongest t.text (t.text ++ rest)) (hl : t.text ∈ t.literal.pattern.matches')
      (h : Tokenized rest ts left) : Tokenized (t.text ++ rest) (t :: ts) left

/-- A whole text is cut into items: the longest literal where one begins, and where none does the
characters that the lexer passes over. -/
inductive Itemized (r : Recovery) : List Char → List Item → Prop
  | done : Itemized r [] []
  | token {t : Token} {rest : List Char} {more : List Item}
      (hp : IsLongest t.text (t.text ++ rest)) (hl : t.text ∈ t.literal.pattern.matches')
      (h : Itemized r rest more) : Itemized r (t.text ++ rest) (.token t :: more)
  | mismatch {passed rest : List Char} {more : List Item} (hne : passed ≠ [])
      (hpassed : passed = (passed ++ rest).take (r.passed (passed ++ rest)))
      (hno : ∀ p, p <+: passed ++ rest → p ∉ literalPattern.matches')
      (h : Itemized r rest more) : Itemized r (passed ++ rest) (.mismatch passed :: more)

theorem Written.ne_nil {l : Literal} {p : List Char} (h : Written l p) : p ≠ [] := by
  rintro rfl
  exact Nat.lt_irrefl _ (read_length_lt (read_exact h))

theorem read_longest {text rest : List Char} {l : Literal} (h : read text = some (l, rest))
    {q : List Char} (hq : q <+: text) (hl : q ∈ literalPattern.matches') :
    q.length + rest.length ≤ text.length := by
  obtain ⟨l', hl'⟩ := mem_literal.1 hl
  obtain ⟨behind, rfl⟩ := hq
  obtain ⟨l'', left, hread, hleft⟩ := read_append hl' behind
  obtain ⟨rfl, rfl⟩ := Prod.mk.inj (Option.some.inj (h.symm.trans hread))
  rw [List.length_append]
  exact Nat.add_le_add_left hleft.length_le _

theorem read_none {text : List Char} (h : read text = none) {q : List Char} (hq : q <+: text) :
    q ∉ literalPattern.matches' := by
  intro hl
  obtain ⟨l, hl⟩ := mem_literal.1 hl
  obtain ⟨behind, rfl⟩ := hq
  obtain ⟨l', left, hread, -⟩ := read_append hl behind
  rw [h] at hread
  cases hread

theorem tokenized_tokens (text : List Char) : Tokenized text (tokens text).1 (tokens text).2 := by
  induction text using tokens.induct with
  | case1 text h =>
    rw [tokens_none h]
    exact .stop fun p hp => read_none h hp
  | case2 text l rest h ih =>
    obtain ⟨p, hp, rfl⟩ := read_written h
    rw [tokens_some h, List.length_append, Nat.add_sub_cancel, List.take_left]
    have hlongest : IsLongest p (p ++ rest) := by
      refine ⟨hp.ne_nil, List.prefix_append p rest, mem_literal.2 ⟨l, hp⟩, fun q hq hl => ?_⟩
      have hlength := read_longest h hq hl
      rw [List.length_append] at hlength
      exact Nat.le_of_add_le_add_right hlength
    exact Tokenized.token (t := ⟨l, p⟩) hlongest hp.mem_pattern ih

example : (tokens "1.5.5e+x".toList).1.map Token.text = ["1.5".toList, ".5".toList] ∧
    (tokens "1.5.5e+x".toList).2 = "e+x".toList := by cbv

theorem Tokenized.none_left {text left : List Char} {ts : List Token} (h : Tokenized text ts left)
    {p : List Char} (hp : p <+: left) : p ∉ literalPattern.matches' := by
  induction h with
  | stop hno => exact hno p hp
  | token _ _ _ ih => exact ih hp

theorem Tokenized.itemized {r : Recovery} {text left : List Char} {ts : List Token}
    {more : List Item} (h : Tokenized text ts left) (hmore : Itemized r left more) :
    Itemized r text (ts.map .token ++ more) := by
  induction h with
  | stop => exact hmore
  | token hp hl _ ih => exact .token hp hl (ih hmore)

theorem Itemized.pass {r : Recovery} {left : List Char} {more : List Item} (hne : left ≠ [])
    (hno : ∀ p, p <+: left → p ∉ literalPattern.matches')
    (h : Itemized r (left.drop (r.passed left)) more) :
    Itemized r left (.mismatch (left.take (r.passed left)) :: more) := by
  have hpassed : left.take (r.passed left) ≠ [] := by
    rw [Ne, List.take_eq_nil_iff, not_or]
    exact ⟨(r.passed_pos left).ne', hne⟩
  have hsplit := List.take_append_drop (r.passed left) left
  have hmismatch := Itemized.mismatch hpassed (by rw [hsplit]) (by rwa [hsplit]) h
  rwa [hsplit] at hmismatch

theorem itemized_items (r : Recovery) (text : List Char) : Itemized r text (items r text) := by
  induction text using items.induct r with
  | case1 text run ih =>
    have hrun := tokenized_tokens text
    rw [items]
    refine hrun.itemized ?_
    split
    · next hend =>
      rw [hend]
      exact .done
    · next hend => exact .pass hend (fun p hp => hrun.none_left hp) (ih hend)

/-- A text is a literal when the first of its items is one and takes up the whole text. -/
theorem ofText?_eq_first (r : Recovery) (text : List Char) :
    ofText? text =
      match (items r text).head? with
      | some (.token t) => if t.text = text then some t.literal.value else none
      | _ => none := by
  cases h : read text with
  | none =>
    rw [ofText?, h]
    by_cases hne : text = []
    · rw [hne, items_nil]
      rfl
    · rw [items_mismatch r h hne]
      rfl
  | some first =>
    obtain ⟨l, rest⟩ := first
    rw [items_token r h, ofText?, h]
    obtain ⟨p, -, rfl⟩ := read_written h
    rw [List.length_append, Nat.add_sub_cancel, List.take_left]
    cases rest with
    | nil => exact (if_pos (List.append_nil p).symm).symm
    | cons c rest => exact (if_neg (by simp)).symm

/-- A text is a literal if and only if it matches the pattern of one, and its value is what such a
text denotes. Every text is cut into items from its beginning to its end, whatever the lexer passes
over where no literal begins. -/
theorem literals_recognized (r : Recovery) (text : List Char) :
    ((ofText? text).isSome = true ↔ text ∈ literalPattern.matches') ∧
    (∀ v, ofText? text = some v ↔
      ∃ l, text ∈ l.pattern.matches' ∧ Written l text ∧ Denotes l v) ∧
    Itemized r text (items r text) := by
  refine ⟨?_, fun v => ?_, itemized_items r text⟩
  · rw [Option.isSome_iff_exists, mem_literal]
    constructor
    · rintro ⟨v, hv⟩
      obtain ⟨l, hl, -⟩ := ofText?_iff.1 hv
      exact ⟨l, hl⟩
    · rintro ⟨l, hl⟩
      exact ⟨l.value, ofText?_iff.2 ⟨l, hl, rfl⟩⟩
  · rw [ofText?_iff]
    constructor
    · rintro ⟨l, hl, hv⟩
      exact ⟨l, hl.mem_pattern, hl, denotes_iff.2 hv⟩
    · rintro ⟨l, -, hl, hv⟩
      exact ⟨l, hl, denotes_iff.1 hv⟩

theorem literals_recognized_around_mismatch :
    Itemized .single "1x2".toList
      [.token ⟨.decimal false ⟨['1'], [], 0⟩, ['1']⟩, .mismatch ['x'],
        .token ⟨.decimal false ⟨['2'], [], 0⟩, ['2']⟩] := by
  have h := (literals_recognized .single "1x2".toList).2.2
  have hitems : items .single "1x2".toList =
      [.token ⟨.decimal false ⟨['1'], [], 0⟩, ['1']⟩, .mismatch ['x'],
        .token ⟨.decimal false ⟨['2'], [], 0⟩, ['2']⟩] := by with_unfolding_all rfl
  rwa [hitems] at h

/-- A lexer does not stop where no literal begins. -/
theorem not_items_stop :
    ¬ ∃ r : Recovery, ∃ ts left, items r "1x2".toList = ts.map .token ∧
      Tokenized "1x2".toList ts left := by
  rintro ⟨r, ts, left, h, -⟩
  have hread : read "1x2".toList = some (.decimal false ⟨['1'], [], 0⟩, ['x', '2']) := rfl
  rw [items_token r hread, items_mismatch r rfl (List.cons_ne_nil _ _)] at h
  cases ts with
  | nil => cases h
  | cons t ts =>
    cases ts with
    | nil => cases h
    | cons t ts => cases h

end Literal

end Fluxion
