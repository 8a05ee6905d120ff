import Fluxion.Text.Stripped

/-!
# From the stripped text back to the given one

A kept character stands in the given text behind the bytes of everything in front of it, blanks
included. So a span of the stripped text comes from the shortest part of the given text that is
stripped to it.
-/

set_option autoImplicit false

namespace Fluxion.Text

theorem strip_append (a b : List Char) : strip (a ++ b) = strip a ++ strip b :=
  List.filter_append a b

theorem strip_cons {c : Char} (h : isBlank c = false) (rest : List Char) :
    strip (c :: rest) = c :: strip rest :=
  List.filter_cons_of_pos (by rw [h]; rfl)

theorem strip_blank {c : Char} (h : isBlank c = true) (rest : List Char) :
    strip (c :: rest) = strip rest :=
  List.filter_cons_of_neg (by rw [h]; exact Bool.false_ne_true)

theorem exists_of_strip {given a c : List Char} {x : Char} (h : strip given = a ++ x :: c) :
    ∃ l r, given = l ++ x :: r ∧ isBlank x = false ∧ strip l = a ∧ strip r = c := by
  obtain ⟨front, back, rfl, ha, hb⟩ := List.filter_eq_append_iff.1 h
  obtain ⟨blanks, r, rfl, hblank, hx, hr⟩ := List.filter_eq_cons_iff.1 hb
  have hnil : strip blanks = [] := List.filter_eq_nil_iff.2 hblank
  refine ⟨front ++ blanks, r, by rw [List.append_assoc], by simpa using hx, ?_, hr⟩
  rw [strip_append, hnil, List.append_nil]
  exact ha

theorem byteSize_strip_le (text : List Char) : byteSize (strip text) ≤ byteSize text := by
  induction text with
  | nil => exact Nat.le_refl _
  | cons c rest ih =>
    rw [byteSize_cons]
    cases h : isBlank c with
    | true =>
      rw [strip_blank h]
      omega
    | false =>
      rw [strip_cons h, byteSize_cons]
      omega

theorem trim_of_ends {text : List Char} (hf : text.head?.any isBlank = false)
    (hl : text.getLast?.any isBlank = false) : trim text = text := by
  have keep {a : List Char} (h : a.head?.any isBlank = false) : a.dropWhile isBlank = a := by
    cases a with
    | nil => rfl
    | cons c rest => exact List.dropWhile_cons_of_neg (by simpa using h)
  rw [trim, trimStart, keep hf, trimEnd, keep, List.reverse_reverse]
  rwa [List.head?_reverse]

namespace Stripped

def offsetsFrom (start : Nat) (text : List Char) : List Nat :=
  ((placedFrom start text).filter fun p => !isBlank p.char).flatMap Placed.bytes

theorem offsetsFrom_cons (start : Nat) {c : Char} (h : isBlank c = false) (rest : List Char) :
    offsetsFrom start (c :: rest) =
      List.range' start c.utf8Size ++ offsetsFrom (start + c.utf8Size) rest := by
  simp [offsetsFrom, placedFrom, h, Placed.bytes]

theorem offsetsFrom_blank (start : Nat) {c : Char} (h : isBlank c = true) (rest : List Char) :
    offsetsFrom start (c :: rest) = offsetsFrom (start + c.utf8Size) rest := by
  simp [offsetsFrom, placedFrom, h]

theorem length_offsetsFrom (start : Nat) (text : List Char) :
    (offsetsFrom start text).length = byteSize (strip text) := by
  induction text generalizing start with
  | nil => rfl
  | cons c rest ih =>
    cases h : isBlank c with
    | true => rw [offsetsFrom_blank start h, strip_blank h, ih]
    | false =>
      rw [offsetsFrom_cons start h, strip_cons h, List.length_append, List.length_range', ih,
        byteSize_cons]

theorem offsetsFrom_append (start : Nat) (a b : List Char) :
    offsetsFrom start (a ++ b) = offsetsFrom start a ++ offsetsFrom (start + byteSize a) b := by
  induction a generalizing start with
  | nil => rfl
  | cons c a ih =>
    have hstart : start + (c.utf8Size + byteSize a) = start + c.utf8Size + byteSize a := by
      omega
    rw [List.cons_append, byteSize_cons, hstart]
    cases h : isBlank c with
    | true => rw [offsetsFrom_blank start h, offsetsFrom_blank start h, ih]
    | false =>
      rw [offsetsFrom_cons start h, offsetsFrom_cons start h, ih, List.append_assoc]

theorem offsetsFrom_lt {start : Nat} {text : List Char} :
    ∀ place ∈ offsetsFrom start text, place < start + byteSize text := by
  induction text generalizing start with
  | nil => exact nofun
  | cons c rest ih =>
    intro place hp
    have hrest : place ∈ offsetsFrom (start + c.utf8Size) rest →
        place < start + byteSize (c :: rest) := by
      intro hp
      have hlt := ih place hp
      rw [byteSize_cons]
      omega
    cases h : isBlank c with
    | true =>
      rw [offsetsFrom_blank start h] at hp
      exact hrest hp
    | false =>
      rw [offsetsFrom_cons start h] at hp
      rcases List.mem_append.1 hp with hp | hp
      · obtain ⟨-, hlt⟩ := List.mem_range'_1.1 hp
        rw [byteSize_cons]
        omega
      · exact hrest hp

theorem place_kept (l r : List Char) {x : Char} (hx : isBlank x = false) {i : Nat}
    (hi : i < x.utf8Size) :
    (ofText (l ++ x :: r)).place (byteSize (strip l) + i) = byteSize l + i := by
  have hoffsets : (ofText (l ++ x :: r)).offsets =
      offsetsFrom 0 l ++ (List.range' (byteSize l) x.utf8Size ++
        offsetsFrom (byteSize l + x.utf8Size) r) := by
    rw [← offsetsFrom_cons _ hx, ← Nat.zero_add (byteSize l), ← offsetsFrom_append]
    rfl
  have hlen := length_offsetsFrom 0 l
  rw [place, hoffsets, List.getElem?_append_right (by omega), hlen, Nat.add_sub_cancel_left,
    List.getElem?_append_left (by simpa using hi), List.getElem?_range' hi]
  simp

theorem place_end (given : List Char) {byte : Nat} (h : byteSize (strip given) ≤ byte) :
    (ofText given).place byte = byteSize given := by
  have hlen := length_offsetsFrom 0 given
  have hnone : (ofText given).offsets[byte]? = none :=
    List.getElem?_eq_none (Nat.le_trans (Nat.le_of_eq hlen) h)
  rw [place, hnone]
  rfl

theorem origin_byte (l r : List Char) {x : Char} (hx : isBlank x = false) :
    (ofText (l ++ x :: r)).origin ⟨byteSize (strip l), byteSize (strip l) + 1⟩ =
      ⟨byteSize l, byteSize l + 1⟩ := by
  have hplace := place_kept l r hx x.utf8Size_pos
  rw [Nat.add_zero, Nat.add_zero] at hplace
  rw [origin, if_neg (by simp), Nat.add_sub_cancel, hplace]

theorem origin_empty {given a c : List Char} (h : strip given = a ++ c) :
    ∃ l r, given = l ++ r ∧ strip l = a ∧ strip r = c ∧
      (ofText given).origin ⟨byteSize a, byteSize a⟩ = ⟨byteSize l, byteSize l⟩ := by
  have horigin : (ofText given).origin ⟨byteSize a, byteSize a⟩ =
      ⟨(ofText given).place (byteSize a), (ofText given).place (byteSize a)⟩ :=
    if_pos (Nat.le_refl _)
  rw [horigin]
  cases c with
  | nil =>
    rw [List.append_nil] at h
    exact ⟨given, [], by simp, h, rfl, by rw [place_end given (Nat.le_of_eq (congrArg byteSize h))]⟩
  | cons x c =>
    obtain ⟨l, r, rfl, hx, rfl, hr⟩ := exists_of_strip h
    have hplace := place_kept l r hx x.utf8Size_pos
    exact ⟨l, x :: r, rfl, rfl, by rw [strip_cons hx, hr], by simpa using hplace⟩

theorem origin_kept {given a b c : List Char} (hb : b ≠ []) (h : strip given = a ++ (b ++ c)) :
    ∃ l m r, given = l ++ (m ++ r) ∧ strip l = a ∧ strip m = b ∧ strip r = c ∧ trim m = m ∧
      (ofText given).origin ⟨byteSize a, byteSize a + byteSize b⟩ =
        ⟨byteSize l, byteSize l + byteSize m⟩ := by
  obtain ⟨x, b', rfl⟩ := List.exists_cons_of_ne_nil hb
  obtain ⟨l, rest, rfl, hx, rfl, hrest⟩ := exists_of_strip h
  have hstart := place_kept l rest hx x.utf8Size_pos
  -- the last character of the span starts the part behind all others
  obtain ⟨b₀, y, hlast⟩ : ∃ b₀ y, x :: b' = b₀ ++ [y] :=
    ⟨_, _, (List.dropLast_concat_getLast hb).symm⟩
  have htail : strip (x :: rest) = b₀ ++ y :: c := by
    have hcons : strip (x :: rest) = (x :: b') ++ c := by rw [strip_cons hx, hrest]; rfl
    rw [hcons, hlast, List.append_assoc, List.singleton_append]
  obtain ⟨m₀, r, hsplit, hy, hm₀, hr⟩ := exists_of_strip htail
  have hpos := y.utf8Size_pos
  have hend := place_kept (l ++ m₀) r hy (Nat.sub_lt hpos Nat.one_pos)
  rw [hlast]
  refine ⟨l, m₀ ++ [y], r, by rw [hsplit]; simp, rfl, ?_, hr, ?_, ?_⟩
  · rw [strip_append, hm₀, strip_cons hy]
    rfl
  · refine trim_of_ends ?_ (by simpa using hy)
    have hhead : (m₀ ++ [y]).head? = some x := by
      have hhead := congrArg List.head? hsplit
      cases m₀ <;> simpa using hhead.symm
    simpa [hhead] using hx
  · have hrange : ¬ byteSize (strip l) + byteSize (b₀ ++ [y]) ≤ byteSize (strip l) := by
      simp only [byteSize_append, byteSize_cons]
      omega
    rw [origin, if_neg hrange]
    rw [Nat.add_zero, Nat.add_zero] at hstart
    rw [List.append_assoc, ← hsplit, strip_append, hm₀, byteSize_append, byteSize_append] at hend
    have hbyte : byteSize (strip l) + byteSize (b₀ ++ [y]) - 1 =
        byteSize (strip l) + byteSize b₀ + (y.utf8Size - 1) := by
      simp only [byteSize_append, byteSize_cons, byteSize_nil]
      omega
    rw [hstart, hbyte, hend]
    simp only [byteSize_append, byteSize_cons, byteSize_nil, Span.mk.injEq, true_and]
    omega

/-- A span of the stripped text comes from the part of the given text that it is left of. -/
theorem origin_append {given a b c : List Char} (h : strip given = a ++ (b ++ c)) :
    ∃ l m r, given = l ++ (m ++ r) ∧ strip l = a ∧ strip m = b ∧ strip r = c ∧ trim m = m ∧
      (ofText given).origin ⟨byteSize a, byteSize a + byteSize b⟩ =
        ⟨byteSize l, byteSize l + byteSize m⟩ := by
  by_cases hb : b = []
  · subst hb
    obtain ⟨l, r, hgiven, hl, hr, horigin⟩ := origin_empty h
    exact ⟨l, [], r, hgiven, hl, rfl, hr, rfl, horigin⟩
  · exact origin_kept hb h

end Stripped

end Fluxion.Text
