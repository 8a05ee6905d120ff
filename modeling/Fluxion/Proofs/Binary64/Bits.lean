import Fluxion.Binary64.Basic

/-!
# Numbers and their bits

A number is given back by its bits, and so by its sign and its magnitude; all that are not numbers
are one value. Only that value differs from itself.
-/

set_option autoImplicit false

namespace Fluxion.Binary64

open Float.Model Float.Model.UnpackedFloat

theorem binade_eq : binade = 0x10000000000000 := rfl

theorem signBit_eq : signBit = 0x8000000000000000 := rfl

theorem infinityBits_eq : infinityBits = 0x7ff0000000000000 := rfl

theorem toBitVec_ofBitVec (b : BitVec 1) : (Sign.ofBitVec b).toBitVec = b := by
  revert b
  decide

theorem packComponents_unpack (b : BitVec Format.binary64.numBits) :
    packComponents .binary64 (Sign.ofBitVec (unpackSign b)) (unpackExponent b)
      (unpackMantissa b) = b := by
  rw [packComponents, toBitVec_ofBitVec]
  apply BitVec.eq_of_getLsbD_eq
  intro i hi
  have hi : i < 64 := hi
  unfold unpackSign unpackExponent unpackMantissa
  simp only [BitVec.getLsbD_append, BitVec.getLsbD_cast, BitVec.getLsbD_extractLsb]
  split
  · simp only [Nat.zero_add, Bool.and_eq_right_iff_imp, decide_eq_true_eq]
    omega
  · split
    · have hi' : 52 + (i - 52) = i := by omega
      rw [hi', Bool.and_eq_right_iff_imp, decide_eq_true_eq]
      omega
    · have hi' : 52 + 11 + (i - 52 - 11) = i := by omega
      rw [hi', Bool.and_eq_right_iff_imp, decide_eq_true_eq]
      omega

theorem toNat_implicit (m : BitVec 52) : (1#1 ++ m).toNat = 0x10000000000000 + m.toNat := by
  rw [BitVec.toNat_append, ← Nat.shiftLeft_add_eq_or_of_lt m.isLt]
  rfl

theorem exponentBias_eq : (Format.binary64.exponentBias : Int) = 1023 := rfl

theorem pack_subnormal (s : Sign) (m : BitVec 52) (hpos : 0 < m.toNat) (e : Int)
    (he : e = -1074) :
    UnpackedFloat.pack .binary64 (.finite s m.toNat e hpos) =
      packComponents .binary64 s 0#11 m := by
  have hlog : m.toNat.log2 < 52 := (Nat.log2_lt (by omega)).2 m.isLt
  have hbits : Format.binary64.mantissaBits = 53 := rfl
  have hexp : (e + Format.binary64.exponentBias + Format.binary64.mantissaBitsWithoutImplicit).toNat
      = 1 := by
    rw [he]
    rfl
  unfold UnpackedFloat.pack
  rw [hexp, hbits, if_neg (by decide), if_neg (by omega), BitVec.ofNat_toNat, BitVec.setWidth_eq]

theorem pack_normal (s : Sign) (x : BitVec 11) (m : BitVec 52) (hpos : 0 < (1#1 ++ m).toNat)
    (e : Int) (hx : x ≠ -1#11) (he : e = x.toNat - 1075) :
    UnpackedFloat.pack .binary64 (.finite s (1#1 ++ m).toNat e hpos) =
      packComponents .binary64 s x m := by
  have hm := m.isLt
  have hlt := x.isLt
  have hmax : x.toNat ≠ 2047 := fun h => hx (BitVec.eq_of_toNat_eq h)
  have hlog : (0x10000000000000 + m.toNat).log2 = 52 := by
    rw [Nat.log2_eq_iff (by omega)]
    omega
  have hbits : Format.binary64.mantissaBits = 53 := rfl
  have hexp : (e + Format.binary64.exponentBias + Format.binary64.mantissaBitsWithoutImplicit).toNat
      = x.toNat := by
    rw [he, exponentBias_eq]
    change ((x.toNat : Int) - 1075 + 1023 + 52).toNat = _
    omega
  have hroom : ¬ 2 ^ Format.binary64.exponentBits ≤ x.toNat + 1 := by
    change ¬ 2048 ≤ _
    omega
  have hlow : BitVec.ofNat 52 (0x10000000000000 + m.toNat) = m := by
    apply BitVec.eq_of_toNat_eq
    rw [BitVec.toNat_ofNat]
    omega
  unfold UnpackedFloat.pack
  rw [hexp, hbits, toNat_implicit, hlog, if_neg hroom, if_pos rfl, BitVec.ofNat_toNat,
    BitVec.setWidth_eq, hlow]

theorem pack_unpack {b : BitVec Format.binary64.numBits} (h : Format.binary64.Valid b) :
    UnpackedFloat.pack .binary64 (UnpackedFloat.unpack .binary64 b) = b := by
  have hb := packComponents_unpack b
  unfold UnpackedFloat.unpack
  dsimp only
  by_cases he : unpackExponent b = -1#11
  · rw [if_pos he]
    by_cases hm : unpackMantissa b = 0#52
    · rw [if_pos hm]
      rw [he, hm] at hb
      exact hb
    · rw [if_neg hm]
      exact (h.eq_packedNaN he hm).symm
  · rw [if_neg he]
    by_cases hz : unpackExponent b = 0#11
    · rw [if_pos hz]
      rw [hz] at hb
      by_cases hm : unpackMantissa b = 0#52
      · rw [dif_pos hm]
        rw [hm] at hb
        exact hb
      · rw [dif_neg hm, pack_subnormal _ _ _ _ (by rw [hz]; rfl)]
        exact hb
    · rw [if_neg hz, pack_normal _ _ _ _ _ he (by rw [exponentBias_eq]; omega)]
      exact hb

theorem ofBits_toBits (v : Float) : Float.ofBits v.toBits = v := by
  obtain ⟨⟨bits, valid⟩⟩ := v
  have hbits : UInt64.ofBitVec (UnpackedFloat.pack .binary64
      (UnpackedFloat.unpack .binary64 bits.toBitVec)) = bits :=
    congrArg UInt64.ofBitVec (pack_unpack valid)
  exact congrArg Float.ofModel ((Float.Model.mk.injEq ..).mpr hbits)

theorem toBits_ofBits {bits : UInt64} (h : Format.binary64.Valid bits.toBitVec) :
    (Float.ofBits bits).toBits = bits :=
  congrArg UInt64.ofBitVec (pack_unpack h)

theorem toNat_unpackExponent (b : BitVec Format.binary64.numBits) :
    (unpackExponent b).toNat = b.toNat / 0x10000000000000 % 2048 := by
  unfold unpackExponent
  simp [Nat.shiftRight_eq_div_pow]

theorem toNat_unpackMantissa (b : BitVec Format.binary64.numBits) :
    (unpackMantissa b).toNat = b.toNat % 0x10000000000000 := by
  unfold unpackMantissa
  simp

theorem eq_nan_of_fields {v : Float}
    (he : @unpackExponent .binary64 v.toBits.toBitVec = -1#11)
    (hm : @unpackMantissa .binary64 v.toBits.toBitVec ≠ 0#52) : v = nan := by
  rw [← ofBits_toBits v]
  obtain ⟨⟨bits, valid⟩⟩ := v
  change Float.ofBits bits = _
  rw [← UInt64.ofBitVec_toBitVec bits, valid.eq_packedNaN he hm]
  rfl

theorem eq_nan_of_ofFloat {v : Float} (h : Value.ofFloat v = .nan) : v = nan := by
  have hlt : infinityBits < v.toBits.toNat % signBit := by
    unfold Value.ofFloat at h
    dsimp only at h
    split at h
    · next hlt => exact hlt
    · split at h <;> simp at h
  rw [infinityBits_eq, signBit_eq] at hlt
  have hbits : v.toBits.toBitVec.toNat = v.toBits.toNat := rfl
  apply eq_nan_of_fields
  · apply BitVec.eq_of_toNat_eq
    rw [toNat_unpackExponent, hbits]
    change _ = 2047
    omega
  · intro hz
    have hz := congrArg BitVec.toNat hz
    rw [toNat_unpackMantissa, hbits] at hz
    change _ = 0 at hz
    omega

theorem isNaN_iff {v : Float} : v.isNaN = true ↔ v = nan := by
  constructor
  · intro h
    change (UnpackedFloat.unpack .binary64 v.toBits.toBitVec).isNaN = true at h
    unfold UnpackedFloat.unpack at h
    dsimp only at h
    by_cases he : @unpackExponent .binary64 v.toBits.toBitVec = -1#11
    · by_cases hm : @unpackMantissa .binary64 v.toBits.toBitVec = 0#52
      · rw [if_pos he, if_pos hm] at h
        cases h
      · exact eq_nan_of_fields he hm
    · rw [if_neg he] at h
      by_cases hz : @unpackExponent .binary64 v.toBits.toBitVec = 0#11
      · by_cases hm : @unpackMantissa .binary64 v.toBits.toBitVec = 0#52
        · rw [if_pos hz, dif_pos hm] at h
          cases h
        · rw [if_pos hz, dif_neg hm] at h
          cases h
      · rw [if_neg hz] at h
        cases h
  · rintro rfl
    decide +kernel

def HasBits (v : Float) (negative : Bool) (magnitude : Nat) : Prop :=
  v.toBits.toNat = (if negative then signBit else 0) + magnitude

theorem hasBits_iff {v : Float} {negative : Bool} {m : Nat} (hm : m ≤ infinityBits) :
    HasBits v negative m ↔ v = ofMagnitude negative m := by
  rw [HasBits, ofMagnitude]
  constructor
  · intro h
    rw [← h, UInt64.ofNat_toNat, ofBits_toBits]
  · rintro rfl
    rw [infinityBits_eq] at hm
    obtain ⟨n, hn, hlt, hmod⟩ : ∃ n, n = (if negative then signBit else 0) + m ∧ n < 2 ^ 64 ∧
        n % 0x8000000000000000 = m := by
      refine ⟨_, rfl, ?_⟩
      rw [signBit_eq]
      split <;> omega
    have hnat : (UInt64.ofNat n).toBitVec.toNat = n := UInt64.toNat_ofNat_of_lt' hlt
    rw [← hn, toBits_ofBits]
    · exact hnat
    · -- only infinity has all bits of the exponent
      refine ⟨fun he hmantissa => absurd ?_ hmantissa⟩
      have he := congrArg BitVec.toNat he
      rw [toNat_unpackExponent, hnat] at he
      change _ = 2047 at he
      apply BitVec.eq_of_toNat_eq
      rw [toNat_unpackMantissa, hnat]
      change _ = 0
      omega

theorem ofMagnitude_split (v : Float) :
    ofMagnitude (decide (signBit ≤ v.toBits.toNat)) (v.toBits.toNat % signBit) = v := by
  have hlt := v.toBits.toNat_lt
  have hsum : (if signBit ≤ v.toBits.toNat then signBit else 0) + v.toBits.toNat % signBit =
      v.toBits.toNat := by
    rw [signBit_eq]
    split <;> omega
  simp only [ofMagnitude, decide_eq_true_eq, hsum]
  rw [UInt64.ofNat_toNat, ofBits_toBits]

theorem eq_infinity_of_ofFloat {v : Float} {negative : Bool}
    (h : Value.ofFloat v = .infinite negative) : v = infinity negative := by
  have hv := ofMagnitude_split v
  unfold Value.ofFloat at h
  dsimp only at h
  split at h
  · simp at h
  · split at h
    · next hm =>
      rw [← Value.infinite.inj h, infinity, ← hm]
      exact hv.symm
    · simp at h

theorem eq_ofMagnitude_of_ofFloat {v : Float} {negative : Bool} {magnitude : Nat}
    (h : Value.ofFloat v = .finite negative magnitude) :
    magnitude < infinityBits ∧ v = ofMagnitude negative magnitude := by
  have hv := ofMagnitude_split v
  unfold Value.ofFloat at h
  dsimp only at h
  split at h
  · simp at h
  · split at h
    · simp at h
    · obtain ⟨hn, hm⟩ := Value.finite.inj h
      rw [← hn, ← hm]
      exact ⟨by omega, hv.symm⟩

theorem beq_self_iff (v : Float) : (v == v) = true ↔ v.isNaN = false := by
  change (UnpackedFloat.compare v.toModel.unpack v.toModel.unpack == some .eq) = true ↔
    v.toModel.unpack.isNaN = false
  cases v.toModel.unpack with
  | notANumber => decide
  | infinity s => cases s <;> decide
  | zero s => cases s <;> decide
  | finite s m e h =>
    have hcompare : (compare e e).then (compare m m) = .eq := by simp
    cases s with
    | negative =>
      change (some ((compare e e).then (compare m m)).swap == some .eq) = true ↔ false = false
      rw [hcompare]
      decide
    | positive =>
      change (some ((compare e e).then (compare m m)) == some .eq) = true ↔ false = false
      rw [hcompare]
      decide

end Fluxion.Binary64
