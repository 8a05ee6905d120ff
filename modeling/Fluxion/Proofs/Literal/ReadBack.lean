import Fluxion.Literal.Basic
import Fluxion.Proofs.Decimal.Rounding
import Fluxion.Proofs.Literal.Written

/-!
# The text of a value reads back

A positional decimal is read as digits around a point, a scientific one with an exponent behind
them, and the digits give the same number. With the shortest decimal for the number this makes the
text of every value a literal of that value, in a line and in an outline.
-/

set_option autoImplicit false

namespace Fluxion

namespace Literal

theorem allDigits_toDigits (n : Nat) : AllDigits (Nat.toDigits 10 n) :=
  fun _ hc => Nat.isDigit_of_mem_toDigits (by decide) (by decide) hc

theorem allDigits_zeros (n : Nat) : AllDigits (List.replicate n '0') := by
  intro c hc
  rw [(List.mem_replicate.1 hc).2]
  rfl

theorem AllDigits.append {a b : List Char} (ha : AllDigits a) (hb : AllDigits b) :
    AllDigits (a ++ b) := by
  intro c hc
  rcases List.mem_append.1 hc with hc | hc
  · exact ha c hc
  · exact hb c hc

theorem AllDigits.take {a : List Char} (h : AllDigits a) (n : Nat) : AllDigits (a.take n) :=
  fun c hc => h c (List.mem_of_mem_take hc)

theorem AllDigits.drop {a : List Char} (h : AllDigits a) (n : Nat) : AllDigits (a.drop n) :=
  fun c hc => h c (List.mem_of_mem_drop hc)

/-- The text is a decimal of this magnitude, without a sign. -/
def Spells (body : List Char) (magnitude : Nat) : Prop :=
  ∃ numeral, IsNumeral numeral body ∧ numeral.decimal.magnitude = magnitude

theorem spells_whole {ds : List Char} (h : AllDigits ds) (hne : ds ≠ []) :
    Spells ds (⟨Nat.ofDigitChars 10 ds 0, 0⟩ : Decimal).magnitude := by
  have hds : IsNumeral ⟨ds, [], 0⟩ (ds ++ []) := .mk (.whole h hne) .absent
  rw [List.append_nil] at hds
  refine ⟨_, hds, ?_⟩
  rw [Numeral.decimal, List.append_nil]
  rfl

theorem spells_exponent {ds fs tail : List Char} {n : Int} (h : AllDigits ds) (hf : AllDigits fs)
    (hne : ds ≠ []) (he : IsExponent n tail) :
    Spells (ds ++ '.' :: (fs ++ tail))
      (⟨Nat.ofDigitChars 10 (ds ++ fs) 0, n - fs.length⟩ : Decimal).magnitude := by
  have hbody : IsNumeral ⟨ds, fs, n⟩ (ds ++ '.' :: fs ++ tail) := .mk (.pointed h hf (.inl hne)) he
  rw [List.append_assoc, List.cons_append] at hbody
  exact ⟨_, hbody, rfl⟩

theorem spells_pointed {ds fs : List Char} (h : AllDigits ds) (hf : AllDigits fs) (hne : ds ≠ []) :
    Spells (ds ++ '.' :: fs)
      (⟨Nat.ofDigitChars 10 (ds ++ fs) 0, -(fs.length : Int)⟩ : Decimal).magnitude := by
  have hs := spells_exponent h hf hne .absent
  rwa [List.append_nil, Int.zero_sub] at hs

theorem ofText?_signed {body : List Char} {magnitude : Nat} (h : Spells body magnitude)
    (negative : Bool) :
    ofText? (signed negative body) = some (Binary64.ofMagnitude negative magnitude) := by
  obtain ⟨numeral, hbody, rfl⟩ := h
  have hliteral : Written (.decimal negative numeral) (signed negative body) := by
    cases negative with
    | true => exact .mk .minus (.decimal hbody)
    | false => exact .mk .absent (.decimal hbody)
  rw [ofText?, read_exact hliteral]
  rfl

theorem ofDigitChars_zeros (c zeros : Nat) :
    Nat.ofDigitChars 10 (Nat.toDigits 10 c ++ List.replicate zeros '0') 0 =
      c * Nat.pow 10 zeros := by
  rw [Nat.ofDigitChars_append, Nat.ofDigitChars_replicate_zero, Nat.ofDigitChars_ten_toDigits,
    Nat.mul_comm]
  rfl

theorem allDigits_toDigits_zeros (c zeros : Nat) :
    AllDigits (Nat.toDigits 10 c ++ List.replicate zeros '0') ∧
      Nat.toDigits 10 c ++ List.replicate zeros '0' ≠ [] :=
  ⟨(allDigits_toDigits c).append (allDigits_zeros zeros),
    List.append_ne_nil_of_left_ne_nil Nat.toDigits_ne_nil _⟩

theorem spells_positional_ofNat (c zeros : Nat) :
    Spells (⟨c, .ofNat zeros⟩ : Decimal).positional (⟨c, .ofNat zeros⟩ : Decimal).magnitude := by
  obtain ⟨hds, hne⟩ := allDigits_toDigits_zeros c zeros
  have hs := spells_whole hds hne
  have hz := Decimal.magnitude_zeros c zeros
  rw [← ofDigitChars_zeros] at hz
  exact hz ▸ hs

theorem positional_negSucc (c m : Nat) :
    ∃ ds fs, (⟨c, .negSucc m⟩ : Decimal).positional = ds ++ '.' :: fs ∧
      (AllDigits ds ∧ ds ≠ []) ∧ AllDigits fs ∧ fs.length = m + 1 ∧
      Nat.ofDigitChars 10 (ds ++ fs) 0 = c := by
  obtain ⟨ds, hpad⟩ : ∃ ds, ds = List.replicate
      (m + 2 - (⟨c, .negSucc m⟩ : Decimal).digits.length) '0' ++
        (⟨c, .negSucc m⟩ : Decimal).digits := ⟨_, rfl⟩
  have htext : (⟨c, .negSucc m⟩ : Decimal).positional =
      ds.take (ds.length - (m + 1)) ++ '.' :: ds.drop (ds.length - (m + 1)) := by
    rw [hpad]
    rfl
  have hlen : m + 2 ≤ ds.length := by
    rw [hpad, List.length_append, List.length_replicate]
    omega
  have hall : AllDigits ds := hpad ▸ (allDigits_zeros _).append (allDigits_toDigits c)
  have hnumber : Nat.ofDigitChars 10 ds 0 = c := by
    rw [hpad, Nat.ofDigitChars_append, Nat.ofDigitChars_replicate_zero, Nat.mul_zero]
    exact Nat.ofDigitChars_ten_toDigits
  refine ⟨_, _, htext, ⟨hall.take _, ?_⟩, hall.drop _, ?_, ?_⟩
  · apply List.ne_nil_of_length_pos
    rw [List.length_take]
    omega
  · rw [List.length_drop]
    omega
  · rw [List.take_append_drop, hnumber]

theorem spells_positional_negSucc (c m : Nat) :
    Spells (⟨c, .negSucc m⟩ : Decimal).positional (⟨c, .negSucc m⟩ : Decimal).magnitude := by
  obtain ⟨ds, fs, htext, ⟨hds, hne⟩, hfs, hlen, hnumber⟩ := positional_negSucc c m
  have hs := spells_pointed hds hfs hne
  rw [hnumber, hlen] at hs
  exact htext ▸ hs

theorem spells_positional (d : Decimal) : Spells d.positional d.magnitude := by
  obtain ⟨c, exponent⟩ := d
  cases exponent with
  | ofNat zeros => exact spells_positional_ofNat c zeros
  | negSucc m => exact spells_positional_negSucc c m

theorem spells_point_zero {ds tail : List Char} {n : Int} (h : AllDigits ds) (hne : ds ≠ [])
    (he : IsExponent n tail) :
    Spells (ds ++ '.' :: '0' :: tail)
      (⟨Nat.ofDigitChars 10 ds 0 * 10, n - 1⟩ : Decimal).magnitude := by
  have hs := spells_exponent h (allDigits_zeros 1) hne he
  rwa [Nat.ofDigitChars_append, Nat.ofDigitChars_replicate_zero, Nat.pow_one, Nat.mul_comm] at hs

theorem spells_pointed_layout (d : Decimal) : Spells d.pointed d.magnitude := by
  obtain ⟨c, exponent⟩ := d
  cases exponent with
  | negSucc m => exact spells_positional_negSucc c m
  | ofNat zeros =>
    obtain ⟨hds, hne⟩ := allDigits_toDigits_zeros c zeros
    have hs := spells_point_zero hds hne .absent
    rw [ofDigitChars_zeros, Decimal.magnitude_tenfold, Decimal.magnitude_zeros] at hs
    exact hs

theorem isExponent_wholeText (n : Int) : IsExponent n ('E' :: Decimal.wholeText n) := by
  cases n with
  | ofNat k =>
    have he := IsExponent.written (.inr rfl) .absent (allDigits_toDigits k) Nat.toDigits_ne_nil
    rw [Nat.ofDigitChars_ten_toDigits] at he
    exact he
  | negSucc k =>
    have he := IsExponent.written (.inr rfl) .minus (allDigits_toDigits (k + 1))
      Nat.toDigits_ne_nil
    rw [Nat.ofDigitChars_ten_toDigits] at he
    exact he

theorem scientific_eq {c : Nat} {x : Char} {fs : List Char} (e : Int)
    (hds : Nat.toDigits 10 c = x :: fs) :
    (⟨c, e⟩ : Decimal).scientific =
      [x] ++ '.' :: ((if fs.isEmpty then ['0'] else fs) ++
        'E' :: Decimal.wholeText (e + fs.length)) := by
  simp [Decimal.scientific, Decimal.digits, hds]

theorem spells_scientific (d : Decimal) : Spells d.scientific d.magnitude := by
  obtain ⟨c, e⟩ := d
  obtain ⟨x, fs, hds⟩ := List.exists_cons_of_ne_nil (l := Nat.toDigits 10 c) Nat.toDigits_ne_nil
  have hall : AllDigits (x :: fs) := hds ▸ allDigits_toDigits c
  have hnumber : Nat.ofDigitChars 10 (x :: fs) 0 = c := by
    rw [← hds]
    exact Nat.ofDigitChars_ten_toDigits
  have hexponent := isExponent_wholeText (e + fs.length)
  rw [scientific_eq e hds]
  cases fs with
  | nil =>
    have hs := spells_point_zero hall (List.cons_ne_nil x []) hexponent
    rw [hnumber] at hs
    rw [← Decimal.magnitude_tenfold]
    simpa using hs
  | cons y fs =>
    have hx : AllDigits [x] := hall.take 1
    have hs := spells_exponent hx (hall.drop 1) (List.cons_ne_nil x []) hexponent
    have hexp : e + ((y :: fs).length : Int) - ((x :: y :: fs).drop 1).length = e := by
      rw [List.drop_one, List.tail_cons]
      omega
    rw [hexp] at hs
    rw [← hnumber]
    exact hs

theorem ofText?_value {v : Float} {finite : Bool → Nat → List Char}
    (h : ∀ negative magnitude, magnitude < Binary64.infinityBits →
      ∃ body, finite negative magnitude = signed negative body ∧ Spells body magnitude) :
    ofText? (match Binary64.Value.ofFloat v with
      | .nan => "NaN".toList
      | .infinite negative => signed negative "Infinity".toList
      | .finite negative magnitude => finite negative magnitude) = some v := by
  cases hv : Binary64.Value.ofFloat v with
  | nan =>
    rw [Binary64.eq_nan_of_ofFloat hv]
    rfl
  | infinite negative =>
    rw [Binary64.eq_infinity_of_ofFloat hv]
    cases negative <;> rfl
  | finite negative magnitude =>
    obtain ⟨hlt, hvalue⟩ := Binary64.eq_ofMagnitude_of_ofFloat hv
    obtain ⟨body, htext, hs⟩ := h negative magnitude hlt
    dsimp only
    rw [htext, hvalue]
    exact ofText?_signed hs negative

theorem ofText?_text (v : Float) : ofText? (text v) = some v := by
  refine ofText?_value fun negative magnitude hlt => ⟨_, rfl, ?_⟩
  have hmag := Decimal.magnitude_shortest hlt
  have hs := spells_positional (Decimal.shortest magnitude)
  rwa [hmag] at hs

/-- The text of a value in an outline is a literal of the value, whichever layout it has. -/
theorem ofText?_outlineText (v : Float) : ofText? (outlineText v) = some v := by
  refine ofText?_value fun negative magnitude hlt => ⟨_, rfl, ?_⟩
  have hmag := Decimal.magnitude_shortest hlt
  split
  · have hs := spells_pointed_layout (Decimal.shortest magnitude)
    rwa [hmag] at hs
  · have hs := spells_scientific (Decimal.shortest magnitude)
    rwa [hmag] at hs

end Literal

end Fluxion
