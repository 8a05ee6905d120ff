import Fluxion.Proofs.Text.Encoding
import Fluxion.Proofs.Text.Origin

/-!
# The way back to the given text is faithful

The places of the bytes that are kept increase, and the same bytes stand there in the given text. So
a span of the stripped text comes from a part of the given text with the same characters, which
begins and ends with one of them, and spans that follow each other come from parts that do.
-/

set_option autoImplicit false

namespace Fluxion.Text

theorem isBoundary_iff {byte : Nat} {text : List Char} :
    isBoundary byte text = true ↔ ∃ l r, text = l ++ r ∧ byteSize l = byte := by
  constructor
  · intro h
    induction text generalizing byte with
    | nil =>
      cases byte with
      | zero => exact ⟨[], [], rfl, rfl⟩
      | succ byte => cases h
    | cons c rest ih =>
      cases byte with
      | zero => exact ⟨[], c :: rest, rfl, rfl⟩
      | succ byte =>
        rw [isBoundary, Bool.and_eq_true, decide_eq_true_iff] at h
        obtain ⟨l, r, rfl, hl⟩ := ih h.2
        refine ⟨c :: l, r, rfl, ?_⟩
        rw [byteSize_cons, hl]
        omega
  · rintro ⟨l, r, rfl, rfl⟩
    exact isBoundary_append l r

namespace Span

structure OnBoundaries (text : List Char) (s : Span) : Prop where
  start : isBoundary s.start text = true
  stop : isBoundary s.stop text = true

def Apart (s t : Span) : Prop :=
  ∀ byte, ¬ ((s.start ≤ byte ∧ byte < s.stop) ∧ t.start ≤ byte ∧ byte < t.stop)

theorem apart_of_le {s t : Span} (h : s.stop ≤ t.start) : Apart s t := by
  rintro byte ⟨⟨-, hs⟩, ht, -⟩
  omega

theorem onBoundaries_part (a b c : List Char) :
    OnBoundaries (a ++ (b ++ c)) ⟨byteSize a, byteSize a + byteSize b⟩ where
  start := isBoundary_append a (b ++ c)
  stop := by
    rw [← byteSize_append, ← List.append_assoc]
    exact isBoundary_append (a ++ b) c

theorem OnBoundaries.exists_part {text : List Char} {s : Span} (h : OnBoundaries text s)
    (hlt : s.start < s.stop) :
    ∃ a b c, text = a ++ (b ++ c) ∧ b ≠ [] ∧ s = ⟨byteSize a, byteSize a + byteSize b⟩ := by
  obtain ⟨a, rest, htext, ha⟩ := isBoundary_iff.1 h.start
  obtain ⟨front, c, hfront, hstop⟩ := isBoundary_iff.1 h.stop
  rcases List.append_eq_append_iff.1 (htext.symm.trans hfront) with ⟨b, rfl, rfl⟩ | ⟨b, rfl, -⟩
  · rw [byteSize_append, ha] at hstop
    refine ⟨a, b, c, htext, ?_, ?_⟩
    · rintro rfl
      rw [byteSize_nil] at hstop
      omega
    · rw [ha, hstop]
  · rw [byteSize_append] at ha
    omega

end Span

structure Trimmed (text : List Char) : Prop where
  first : ∃ c, text.head? = some c ∧ isBlank c = false
  last : ∃ c, text.getLast? = some c ∧ isBlank c = false

theorem head_of_dropWhile {text : List Char} (hne : text ≠ [])
    (h : text.dropWhile isBlank = text) : ∃ c, text.head? = some c ∧ isBlank c = false := by
  obtain ⟨c, rest, rfl⟩ := List.exists_cons_of_ne_nil hne
  have hnot := List.head_dropWhile_not isBlank (h.symm ▸ hne)
  refine ⟨c, rfl, ?_⟩
  simpa only [h, List.head_cons] using hnot

theorem trimmed_of_trim {text : List Char} (hne : text ≠ []) (h : trim text = text) :
    Trimmed text := by
  -- nothing is cut off at the front, or less than the whole text would be left
  have hfront : text.dropWhile isBlank = text := by
    apply (List.dropWhile_suffix isBlank).eq_of_length_le
    have hlen := congrArg List.length h
    have hle := (List.dropWhile_sublist isBlank (l := (trimStart text).reverse)).length_le
    rw [trim, trimEnd, List.length_reverse] at hlen
    rw [hlen, List.length_reverse] at hle
    exact hle
  have hback : text.reverse.dropWhile isBlank = text.reverse := by
    have hstart : trimStart text = text := hfront
    rw [trim, hstart, trimEnd] at h
    rw [← List.reverse_inj, h, List.reverse_reverse]
  obtain ⟨d, hd, hblank⟩ := head_of_dropWhile (mt List.reverse_eq_nil_iff.1 hne) hback
  exact ⟨head_of_dropWhile hne hfront, d, by rwa [List.head?_reverse] at hd, hblank⟩

namespace Stripped

theorem le_offsetsFrom {start : Nat} {text : List Char} :
    ∀ place ∈ offsetsFrom start text, start ≤ place := by
  induction text generalizing start with
  | nil => exact nofun
  | cons c rest ih =>
    intro place hp
    by_cases h : isBlank c = true
    · rw [offsetsFrom_blank start h] at hp
      exact Nat.le_trans (Nat.le_add_right _ _) (ih place hp)
    · rw [offsetsFrom_cons start (by simpa using h)] at hp
      rcases List.mem_append.1 hp with hp | hp
      · exact (List.mem_range'_1.1 hp).1
      · exact Nat.le_trans (Nat.le_add_right _ _) (ih place hp)

theorem offsetsFrom_increasing (start : Nat) (text : List Char) :
    (offsetsFrom start text).Pairwise (· < ·) := by
  induction text generalizing start with
  | nil => exact .nil
  | cons c rest ih =>
    by_cases h : isBlank c = true
    · rw [offsetsFrom_blank start h]
      exact ih _
    · rw [offsetsFrom_cons start (by simpa using h)]
      apply List.pairwise_append.2
      refine ⟨List.pairwise_lt_range', ih _, ?_⟩
      intro here hh later hl
      have hlt := (List.mem_range'_1.1 hh).2
      have hle := le_offsetsFrom later hl
      omega

theorem map_range'_part {α : Type} (front part behind : List α) :
    (List.range' front.length part.length).map (fun i => (front ++ (part ++ behind))[i]?) =
      part.map some := by
  apply List.ext_getElem?
  intro i
  by_cases hi : i < part.length
  · rw [List.getElem?_map, List.getElem?_range' hi, List.getElem?_map, Option.map_some,
      Nat.one_mul, List.getElem?_append_right (Nat.le_add_right _ _), Nat.add_sub_cancel_left,
      List.getElem?_append_left hi, List.getElem?_eq_getElem hi, Option.map_some]
  · rw [List.getElem?_eq_none (by simpa using hi), List.getElem?_eq_none (by simpa using hi)]

theorem bytes_offsetsFrom (front text : List Char) :
    (offsetsFrom (byteSize front) text).map (fun place => (encode (front ++ text))[place]?) =
      (encode (strip text)).map some := by
  induction text generalizing front with
  | nil => rfl
  | cons c rest ih =>
    have hrest := ih (front ++ [c])
    have hsize : byteSize (front ++ [c]) = byteSize front + c.utf8Size := by simp
    rw [hsize, List.append_assoc, List.singleton_append] at hrest
    by_cases h : isBlank c = true
    · rw [offsetsFrom_blank _ h, strip_blank h]
      exact hrest
    · have h : isBlank c = false := by simpa using h
      have hbytes : encode (front ++ c :: rest) =
          encode front ++ (String.utf8EncodeChar c ++ encode rest) := encode_append front (c :: rest)
      have hpart := map_range'_part (encode front) (String.utf8EncodeChar c) (encode rest)
      rw [length_encode, String.length_utf8EncodeChar, ← hbytes] at hpart
      rw [offsetsFrom_cons _ h, List.map_append, hpart, hrest, strip_cons h, ← List.map_append]
      rfl

section
variable {given : List Char} {i j : Nat}

theorem length_offsets (given : List Char) :
    (ofText given).offsets.length = byteSize (ofText given).text := by
  rw [text_ofText]
  exact length_offsetsFrom 0 given

theorem exists_byte (hi : i < byteSize (ofText given).text) :
    ∃ place b, (ofText given).offsets[i]? = some place ∧
      (encode (ofText given).text)[i]? = some b ∧ (encode given)[place]? = some b := by
  have hplace : i < (ofText given).offsets.length := length_offsets given ▸ hi
  have hbyte : i < (encode (ofText given).text).length := by rwa [length_encode]
  refine ⟨_, _, List.getElem?_eq_getElem hplace, List.getElem?_eq_getElem hbyte, ?_⟩
  have hbytes := congrArg (fun bytes => bytes[i]?) (bytes_offsetsFrom [] given)
  have htable : offsetsFrom (byteSize []) given = (ofText given).offsets := rfl
  simp only [List.getElem?_map, htable, ← text_ofText, List.getElem?_eq_getElem hplace,
    List.getElem?_eq_getElem hbyte, Option.map_some, List.nil_append] at hbytes
  exact Option.some.inj hbytes

theorem place_eq (hi : i < (ofText given).offsets.length) :
    (ofText given).place i = (ofText given).offsets[i] := by
  rw [place, List.getElem?_eq_getElem hi]
  rfl

theorem place_lt_place (hi : i < byteSize (ofText given).text) (hij : i < j) :
    (ofText given).place i < (ofText given).place j := by
  rw [← length_offsets] at hi
  rw [place_eq hi]
  by_cases hj : j < (ofText given).offsets.length
  · rw [place_eq hj]
    exact List.pairwise_iff_getElem.1 (offsetsFrom_increasing 0 given) i j hi hj hij
  · have hend : byteSize (strip given) ≤ j := by
      rw [length_offsets, text_ofText] at hj
      exact Nat.le_of_not_lt hj
    rw [place_end given hend, ← Nat.zero_add (byteSize given)]
    exact offsetsFrom_lt _ (List.getElem_mem hi)

theorem origin_of_le (s : Stripped) (range : Span) (h : range.stop ≤ range.start) :
    s.origin range = ⟨s.place range.start, s.place range.start⟩ := if_pos h

theorem origin_start (s : Stripped) (range : Span) :
    (s.origin range).start = s.place range.start := by
  rw [origin]
  split <;> rfl

theorem origin_stop_le (hij : i ≤ j) (hj : i < j → j ≤ byteSize (ofText given).text) :
    ((ofText given).origin ⟨i, j⟩).stop ≤ (ofText given).place j := by
  by_cases hlt : i < j
  · have hplace : (ofText given).place (j - 1) < (ofText given).place j :=
      place_lt_place (Nat.lt_of_lt_of_le (by omega) (hj hlt)) (by omega)
    rw [origin, if_neg (Nat.not_le.2 hlt)]
    exact hplace
  · obtain rfl : i = j := by omega
    have horigin := origin_of_le (ofText given) ⟨i, i⟩ (Nat.le_refl i)
    exact Nat.le_of_eq (congrArg Span.stop horigin)

end

theorem origin_part {given : List Char} {range : Span} (hlt : range.start < range.stop)
    (h : range.OnBoundaries (ofText given).text) :
    ((ofText given).origin range).OnBoundaries given ∧
      Trimmed (slice given ((ofText given).origin range)) ∧
      strip (slice given ((ofText given).origin range)) = slice (ofText given).text range := by
  obtain ⟨a, b, c, htext, hb, rfl⟩ := h.exists_part hlt
  have hstrip : strip given = a ++ (b ++ c) := by rw [← text_ofText, htext]
  obtain ⟨l, m, r, hgiven, -, hm, -, htrim, horigin⟩ := origin_kept hb hstrip
  have hne : m ≠ [] := by
    rintro rfl
    exact hb hm.symm
  have hslice : slice given ((ofText given).origin ⟨byteSize a, byteSize a + byteSize b⟩) = m := by
    rw [horigin, hgiven, slice_append]
  rw [hslice, htext, slice_append, horigin]
  refine ⟨?_, trimmed_of_trim hne htrim, hm⟩
  rw [hgiven]
  exact Span.onBoundaries_part l m r

structure Faithful (given : List Char) (s : Stripped) : Prop where
  text : s.text = given.filter fun c => !isBlank c
  size : s.offsets.length = byteSize s.text
  increasing : s.offsets.Pairwise (· < ·)
  bytes : ∀ i < byteSize s.text, ∃ place b, s.offsets[i]? = some place ∧
    (encode s.text)[i]? = some b ∧ (encode given)[place]? = some b
  part : ∀ range : Span, range.start < range.stop → range.OnBoundaries s.text →
    (s.origin range).OnBoundaries given ∧ Trimmed (slice given (s.origin range)) ∧
      strip (slice given (s.origin range)) = slice s.text range
  empty : ∀ range : Span, range.stop ≤ range.start →
    (∀ place, s.offsets[range.start]? = some place → s.origin range = ⟨place, place⟩) ∧
      (byteSize s.text ≤ range.start → s.origin range = ⟨byteSize given, byteSize given⟩)
  /-- The first of the two ranges has no bytes, or it lies within the text. -/
  adjacent : ∀ a b c, (a < b → b ≤ byteSize s.text) →
    Span.Apart (s.origin ⟨a, b⟩) (s.origin ⟨b, c⟩) ∧
      (a ≤ b → (s.origin ⟨a, b⟩).stop ≤ (s.origin ⟨b, c⟩).start)

/-- Stripping keeps the characters that are not blank, and the way back leads each byte to the same
byte of the given text. A span between characters comes from a part that is stripped to it, without
blanks at its ends; an empty one from the place of the next byte that was kept, or from the end of
the text. Adjacent spans come from parts that do not overlap. -/
theorem stripping_faithful (given : List Char) : Faithful given (ofText given) where
  text := text_ofText given
  size := length_offsets given
  increasing := offsetsFrom_increasing 0 given
  bytes := fun _ hi => exists_byte hi
  part := fun _ hlt h => origin_part hlt h
  empty := by
    intro range hempty
    rw [origin_of_le _ _ hempty]
    constructor
    · intro place hplace
      rw [Stripped.place, hplace]
      rfl
    · intro hend
      rw [text_ofText] at hend
      rw [place_end given hend]
  adjacent := by
    intro a b c hb
    have hordered (hab : a ≤ b) :
        ((ofText given).origin ⟨a, b⟩).stop ≤ ((ofText given).origin ⟨b, c⟩).start := by
      rw [origin_start]
      exact origin_stop_le hab hb
    refine ⟨?_, hordered⟩
    by_cases hab : a ≤ b
    · exact Span.apart_of_le (hordered hab)
    · -- an inverted range has no bytes
      rw [origin_of_le _ _ (Nat.le_of_not_le hab)]
      rintro byte ⟨⟨hs, ht⟩, -⟩
      exact Nat.not_lt.2 hs ht

example : (ofText " é + x ".toList).offsets = [1, 2, 4, 6] := by decide

end Stripped

end Fluxion.Text
