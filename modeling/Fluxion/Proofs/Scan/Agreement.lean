import Fluxion.Proofs.Checked.Parse
import Fluxion.Proofs.Scan.Ranges

/-!
# Partners and scans agree

The search for a partner counts how many parentheses are open; a scan keeps the places of those that
wait. Both know the same pairs. So in a range that a scan has passed every opening parenthesis has a
partner that the search finds, and a range is recognised as a group by its first parenthesis and the
partner at the very end.
-/

set_option autoImplicit false

namespace Fluxion.Scan

theorem partner_eq_some_iff {rest : List Char} {k : Nat} :
    partner ('(' :: rest) = some k ↔
      ∃ inner more, rest = inner ++ ')' :: more ∧ Balanced .left inner ∧
        k = inner.length + 1 := by
  rw [partner, partnerFrom_open]
  constructor
  · intro h
    obtain ⟨inner, more, rfl, hi, rfl⟩ := partnerFrom_closes h
    exact ⟨inner, more, rfl, hi.balanced, Nat.add_comm _ _⟩
  · rintro ⟨inner, more, rfl, hi, rfl⟩
    rw [partnerFrom_balanced hi, partnerFrom_last]
    exact congrArg some (Nat.add_comm _ _)

def OpensAt (bytes : List UInt8) (index : Nat) : Prop :=
  ∃ b, bytes[index]? = some b ∧ letter b = '('

section
variable {bytes : List UInt8} {start stop first i : Nat}

theorem slice_empty (h : stop ≤ start) : slice bytes start stop = [] := by
  apply List.drop_eq_nil_of_le
  rw [List.length_take]
  omega

theorem length_slice (h : stop ≤ bytes.length) :
    (slice bytes start stop).length = stop - start := by
  rw [slice, List.length_drop, List.length_take, Nat.min_eq_left h]

theorem textOfBytes_slice (bytes : List UInt8) (start stop : Nat) :
    textOfBytes (slice bytes start stop) = ((textOfBytes bytes).take stop).drop start := by
  rw [textOfBytes, slice, List.map_drop, List.map_take]
  rfl

theorem slice_first {b : UInt8} (hstop : first < stop) (hb : bytes[first]? = some b) :
    slice bytes first stop = b :: slice bytes (first + 1) stop := by
  obtain ⟨hsplit, -⟩ := slice_split (Nat.le_refl first) hstop hb
  rwa [slice_empty (Nat.le_refl first), List.nil_append] at hsplit

theorem OpensAt.text (h : OpensAt bytes first) (hstop : first < stop) :
    textOfBytes (slice bytes first stop) = '(' :: textOfBytes (slice bytes (first + 1) stop) := by
  obtain ⟨b, hb, hopen⟩ := h
  rw [slice_first hstop hb, ← hopen]
  rfl

theorem pair_of_partnerIndex (h : OpensAt bytes first)
    (hfound : partnerIndex bytes first stop = some i) : Pair bytes first stop first i := by
  by_cases hstop : first < stop
  · rw [partnerIndex, h.text hstop] at hfound
    obtain ⟨k, hk, rfl⟩ := Option.map_eq_some_iff.1 hfound
    obtain ⟨inner, more, htext, hi, rfl⟩ := partner_eq_some_iff.1 hk
    obtain ⟨l, b, r, hslice, rfl, hb, -⟩ := split_text htext
    obtain ⟨hlt, hget, hinner, -⟩ := split_slice hslice
    have hindex : first + ((textOfBytes l).length + 1) = first + 1 + l.length := by
      rw [length_textOfBytes]
      omega
    rw [hindex]
    refine ⟨Nat.le_refl first, by omega, hlt, h, ⟨b, hget, hb⟩, ?_⟩
    rw [BalancedBytes, hinner]
    exact hi
  · rw [partnerIndex, slice_empty (Nat.le_of_not_lt hstop)] at hfound
    cases hfound

theorem Pair.partnerIndex_eq (hp : Pair bytes start stop first i) :
    partnerIndex bytes first stop = some i := by
  obtain ⟨b, hb, hclose⟩ := hp.closing
  have hlt := hp.lt
  have hopen : OpensAt bytes first := hp.opening
  obtain ⟨hsplit, hlen⟩ := slice_split (Nat.succ_le_of_lt hlt) hp.lt_stop hb
  have htext := congrArg textOfBytes hsplit
  rw [textOfBytes_append, hclose] at htext
  have hpartner := partner_eq_some_iff.2 ⟨_, _, htext, hp.balanced, rfl⟩
  rw [partnerIndex, hopen.text (Nat.lt_trans hlt hp.lt_stop), hpartner, length_textOfBytes, hlen,
    Option.map_some]
  congr 1
  omega

theorem partnerIndex_eq_some_iff (h : OpensAt bytes first) :
    partnerIndex bytes first stop = some i ↔ Pair bytes first stop first i := by
  constructor
  · exact pair_of_partnerIndex h
  · intro hp
    exact hp.partnerIndex_eq

theorem partnerIndex_eq_none_iff (h : OpensAt bytes first) (hstart : start ≤ first)
    (hstop : first < stop) :
    partnerIndex bytes first stop = none ↔ Unmatched bytes start stop first := by
  obtain ⟨b, hb, hopen⟩ := h
  have h : OpensAt bytes first := ⟨b, hb, hopen⟩
  constructor
  · intro hnone
    refine ⟨hstart, hstop, ⟨b, hb, .inl hopen⟩, ?_⟩
    rintro ⟨j, hp | hp⟩
    · rw [hp.partnerIndex_eq] at hnone
      cases hnone
    · obtain ⟨b', hb', hclose⟩ := hp.closing
      obtain rfl : b = b' := Option.some.inj (hb.symm.trans hb')
      rw [hopen] at hclose
      cases hclose
  · intro hu
    cases hk : partnerIndex bytes first stop with
    | none => rfl
    | some j =>
      have hp := pair_of_partnerIndex h hk
      exact absurd ⟨j, .inl (hp.within hstart hp.lt_stop)⟩ hu.alone

theorem exists_partnerIndex (hbalanced : BalancedBytes (slice bytes start stop))
    (hstart : start ≤ i) (hstop : i < stop) (h : OpensAt bytes i) :
    ∃ j, i < j ∧ j < stop ∧ ∀ limit, stop ≤ limit → partnerIndex bytes i limit = some j := by
  cases hk : partnerIndex bytes i stop with
  | none =>
    have hu := (partnerIndex_eq_none_iff h hstart hstop).1 hk
    exact absurd hu (not_unmatched_of_balanced hbalanced)
  | some j =>
    have hp := pair_of_partnerIndex h hk
    refine ⟨j, hp.lt, hp.lt_stop, ?_⟩
    intro limit hlimit
    have hwide := hp.within (Nat.le_refl i) (Nat.lt_of_lt_of_le hp.lt_stop hlimit)
    exact hwide.partnerIndex_eq

theorem opensAt_of_group? {inside : List Char}
    (h : group? (textOfBytes (slice bytes start stop)) = some inside) :
    OpensAt bytes start ∧ start < stop := by
  obtain ⟨htext, -⟩ := group?_eq_some h
  have htext : textOfBytes (slice bytes start stop) = [] ++ '(' :: (inside ++ [')']) := htext
  obtain ⟨l, b, r, hslice, hl, hb, -⟩ := split_text htext
  obtain rfl : l = [] := List.map_eq_nil_iff.1 hl
  obtain ⟨hlt, hget, -, -⟩ := split_slice hslice
  exact ⟨⟨b, hget, hb⟩, hlt⟩

theorem dropLast_slice (hstop : stop ≤ bytes.length) :
    (slice bytes start stop).dropLast = slice bytes start (stop - 1) := by
  rw [List.dropLast_eq_take, length_slice hstop, slice, slice, List.drop_take, List.drop_take,
    List.take_take]
  congr 1
  omega

theorem group?_slice (h : OpensAt bytes start) (hlt : start < stop) (hstop : stop ≤ bytes.length) :
    group? (textOfBytes (slice bytes start stop)) =
      if partnerIndex bytes start stop = some (stop - 1) then
        some (textOfBytes (slice bytes (start + 1) (stop - 1)))
      else none := by
  have hlen : (textOfBytes (slice bytes (start + 1) stop)).length = stop - (start + 1) := by
    rw [length_textOfBytes, length_slice hstop]
  have hlast : partnerIndex bytes start stop = some (stop - 1) ↔
      partner ('(' :: textOfBytes (slice bytes (start + 1) stop)) =
        some (textOfBytes (slice bytes (start + 1) stop)).length := by
    rw [partnerIndex, h.text hlt, hlen]
    cases partner ('(' :: textOfBytes (slice bytes (start + 1) stop)) with
    | none => exact iff_of_false nofun nofun
    | some k =>
      rw [Option.map_some, Option.some.injEq, Option.some.injEq]
      omega
  have hinside : textOfBytes (slice bytes (start + 1) (stop - 1)) =
      (textOfBytes (slice bytes (start + 1) stop)).dropLast := by
    rw [← dropLast_slice hstop, textOfBytes, List.map_dropLast]
    rfl
  rw [h.text hlt, hinside]
  exact if_congr hlast.symm rfl rfl

theorem group?_slice_eq_some_iff (hstop : stop ≤ bytes.length) {inside : List Char} :
    group? (textOfBytes (slice bytes start stop)) = some inside ↔
      inside = textOfBytes (slice bytes (start + 1) (stop - 1)) ∧
        Pair bytes start stop start (stop - 1) := by
  constructor
  · intro h
    obtain ⟨ho, hlt⟩ := opensAt_of_group? h
    rw [group?_slice ho hlt hstop, Option.ite_none_right_eq_some] at h
    obtain ⟨hlast, hinside⟩ := h
    exact ⟨(Option.some.inj hinside).symm, pair_of_partnerIndex ho hlast⟩
  · rintro ⟨rfl, hp⟩
    have ho : OpensAt bytes start := hp.opening
    have hlt : start < stop := Nat.lt_trans hp.lt hp.lt_stop
    rw [group?_slice ho hlt hstop, if_pos hp.partnerIndex_eq]

theorem partner_range {most : Nat} (hrange : start ≤ stop) (hstop : stop ≤ bytes.length)
    (hmost : bytes.length ≤ most) :
    Checked.partner most (textOfBytes bytes) ⟨start, stop⟩ =
      .ok (partnerIndex bytes start stop) := by
  have hlen : (textOfBytes (slice bytes start stop)).length = stop - start := by
    rw [length_textOfBytes, length_slice hstop]
  have hfit : start + 0 + (textOfBytes (slice bytes start stop)).length ≤ most := by omega
  rw [Checked.partner, ← textOfBytes_slice]
  exact Checked.partnerFrom_eq hfit (by omega)

theorem lookUp_letter {b : UInt8} (hb : bytes[i]? = some b) :
    Checked.lookUp (textOfBytes bytes) i = .ok (letter b) := by
  apply Checked.lookUp_ok
  rw [textOfBytes, List.getElem?_map, hb]
  rfl

theorem group?_found {close : Nat} (h : 0 < close) (inside : List Char) :
    (if close + 1 = stop then some (⟨start + 1, close⟩ : Text.Span) else none) =
      (if some close = some (stop - 1) then some inside else none).map
        fun _ => ⟨start + 1, stop - 1⟩ := by
  by_cases hend : close + 1 = stop
  · have hlast : close = stop - 1 := by omega
    rw [if_pos hend, if_pos (congrArg some hlast), hlast]
    rfl
  · have hlast : some close ≠ some (stop - 1) := by
      intro heq
      have hclose := Option.some.inj heq
      omega
    rw [if_neg hend, if_neg hlast]
    rfl

theorem group?_range {m : Checked.Machine} (hbytes : Text.encode m.source.text = bytes)
    (hmost : bytes.length ≤ m.most) (hstop : stop ≤ bytes.length) :
    m.group? ⟨start, stop⟩ =
      .ok ((group? (textOfBytes (slice bytes start stop))).map fun _ => ⟨start + 1, stop - 1⟩) := by
  have hletters : m.letters = textOfBytes bytes := congrArg textOfBytes hbytes
  rw [Checked.Machine.group?, hletters]
  by_cases hempty : stop ≤ start
  · rw [if_pos hempty, slice_empty hempty]
    rfl
  · have hlt : start < stop := Nat.lt_of_not_le hempty
    obtain ⟨b, hb⟩ : ∃ b, bytes[start]? = some b :=
      ⟨_, List.getElem?_eq_getElem (Nat.lt_of_lt_of_le hlt hstop)⟩
    rw [if_neg hempty, Checked.ok_bind (lookUp_letter hb)]
    by_cases hopen : letter b = '('
    · have ho : OpensAt bytes start := ⟨b, hb, hopen⟩
      rw [if_pos hopen, Checked.ok_bind (partner_range (Nat.le_of_lt hlt) hstop hmost),
        group?_slice ho hlt hstop]
      cases hk : partnerIndex bytes start stop with
      | none => rfl
      | some close =>
        have hp := pair_of_partnerIndex ho hk
        have hclose := hp.lt_stop
        have hfirst : Checked.add m.most start 1 = .ok (start + 1) := Checked.add_ok (by omega)
        have hbehind : Checked.add m.most close 1 = .ok (close + 1) := Checked.add_ok (by omega)
        dsimp only
        rw [Checked.ok_bind hfirst, Checked.ok_bind hbehind]
        exact congrArg Except.ok (group?_found (Nat.zero_lt_of_lt hp.lt) _)
    · rw [if_neg hopen]
      cases hg : group? (textOfBytes (slice bytes start stop)) with
      | none => rfl
      | some inside =>
        obtain ⟨⟨b', hb', hopen'⟩, -⟩ := opensAt_of_group? hg
        obtain rfl : b = b' := Option.some.inj (hb.symm.trans hb')
        exact absurd hopen' hopen

end

section
variable (bytes : List UInt8) (start stop : Nat)

/-- From an opening parenthesis the search finds the one index that makes a pair with it, and it
finds nothing where the parenthesis has no partner in the range of a scan. In a range where a scan of
either direction finds nothing, every opening parenthesis has its partner within the range. A range
is recognised as a group, by its text and by index, if its first byte and its last one are a pair;
what is inside is the range between them. -/
theorem partners_agree :
    (∀ first, OpensAt bytes first →
      (∀ i, partnerIndex bytes first stop = some i ↔ Pair bytes first stop first i) ∧
      (∀ i j, Pair bytes first stop first i → Pair bytes first stop first j → i = j) ∧
      (start ≤ first → first < stop →
        (partnerIndex bytes first stop = none ↔ Unmatched bytes start stop first))) ∧
    (∀ symbols side, splitIndex bytes start stop symbols side = .ok none →
      ∀ i, start ≤ i → i < stop → OpensAt bytes i →
        ∃ j, i < j ∧ j < stop ∧ ∀ limit, stop ≤ limit → partnerIndex bytes i limit = some j) ∧
    (stop ≤ bytes.length →
      (∀ inside, group? (textOfBytes (slice bytes start stop)) = some inside ↔
        inside = textOfBytes (slice bytes (start + 1) (stop - 1)) ∧
          Pair bytes start stop start (stop - 1)) ∧
      ∀ m : Checked.Machine, Text.encode m.source.text = bytes → bytes.length ≤ m.most →
        m.group? ⟨start, stop⟩ =
          .ok ((group? (textOfBytes (slice bytes start stop))).map
            fun _ => ⟨start + 1, stop - 1⟩)) := by
  refine ⟨?_, ?_, ?_⟩
  · intro first h
    refine ⟨fun i => partnerIndex_eq_some_iff h, ?_, partnerIndex_eq_none_iff h⟩
    intro i j hi hj
    exact Option.some.inj (hi.partnerIndex_eq.symm.trans hj.partnerIndex_eq)
  · intro symbols side hnone i hstart hstop h
    exact exists_partnerIndex (splitIndex_none hnone) hstart hstop h
  · intro hstop
    refine ⟨fun inside => group?_slice_eq_some_iff hstop, ?_⟩
    intro m hbytes hmost
    exact group?_range hbytes hmost hstop

end

theorem partners_agree_of_product :
    let bytes := "(a)*((b)-c)".toUTF8.toList
    Pair bytes 4 11 4 10 ∧
      (∃ j, 5 < j ∧ j < 11 ∧ ∀ limit, 11 ≤ limit → partnerIndex bytes 5 limit = some j) ∧
      Checked.Machine.group? ⟨11, .ofText "(a)*((b)-c)".toList, 256⟩ ⟨4, 11⟩ =
        .ok (some ⟨5, 10⟩) := by
  intro bytes
  obtain ⟨hpairs, hpassed, hgroups⟩ := partners_agree bytes 4 11
  have houter : OpensAt bytes 4 := ⟨40, by decide +kernel, by decide⟩
  have hinner : OpensAt bytes 5 := ⟨40, by decide +kernel, by decide⟩
  have hpair : Pair bytes 4 11 4 10 := ((hpairs 4 houter).1 10).1 (by decide +kernel)
  have hnone : splitIndex bytes 4 11 "+-".toUTF8.toList .right = .ok none := by decide +kernel
  have hlen : 11 ≤ bytes.length := by decide +kernel
  obtain ⟨hgroup, hrange⟩ := hgroups hlen
  refine ⟨hpair, hpassed _ _ hnone 5 (by decide) (by decide) hinner, ?_⟩
  rw [hrange _ (by decide +kernel) (by decide +kernel), (hgroup _).2 ⟨rfl, hpair⟩]
  rfl

end Fluxion.Scan
