import Fluxion.Proofs.Binary64.Nearest
import Fluxion.Proofs.Binary64.Rational

/-!
# The order of numbers

Two finite numbers without a sign are compared as their magnitudes are: the exponents first, and
then the significands. So a bound between two neighbouring magnitudes parts the values as it parts
the exact numbers.
-/

set_option autoImplicit false

namespace Fluxion.Binary64

open Float.Model Float.Model.UnpackedFloat

def signOf (v : Float) : Sign := Sign.ofBitVec (@unpackSign .binary64 v.toBits.toBitVec)

section
variable {v w : Float} {negative : Bool} {m n k r k' r' : ℕ}

theorem signOf_positive (h : HasBits v false m) (hm : m < infinityBits) :
    signOf v = .positive := by
  have hsign : (@unpackSign .binary64 v.toBits.toBitVec).toNat =
      v.toBits.toNat / 0x8000000000000000 % 2 := by
    unfold unpackSign
    simp [Nat.shiftRight_eq_div_pow]
  have hbits : v.toBits.toNat = 0 + m := h
  rw [infinityBits_eq] at hm
  have hz : @unpackSign .binary64 v.toBits.toBitVec = 0#1 := by
    apply BitVec.eq_of_toNat_eq
    rw [hsign, hbits]
    change _ = 0
    omega
  rw [signOf, hz]
  rfl

theorem exponent_toNat (h : HasBits v negative m) (hm : m < infinityBits) :
    (@unpackExponent .binary64 v.toBits.toBitVec).toNat = m / binade := by
  have hbits : v.toBits.toBitVec.toNat = (if negative then signBit else 0) + m := h
  rw [infinityBits_eq] at hm
  rw [toNat_unpackExponent, hbits, signBit_eq, binade_eq]
  split <;> omega

theorem mantissa_toNat (h : HasBits v negative m) :
    (@unpackMantissa .binary64 v.toBits.toBitVec).toNat = m % binade := by
  have hbits : v.toBits.toBitVec.toNat = (if negative then signBit else 0) + m := h
  rw [toNat_unpackMantissa, hbits, signBit_eq, binade_eq]
  split <;> omega

theorem unpack_zero (h : HasBits v negative 0) : v.toModel.unpack = .zero (signOf v) := by
  have he : @unpackExponent .binary64 v.toBits.toBitVec = 0#11 :=
    BitVec.eq_of_toNat_eq (exponent_toNat h (by decide))
  have hm : @unpackMantissa .binary64 v.toBits.toBitVec = 0#52 :=
    BitVec.eq_of_toNat_eq (mantissa_toNat h)
  change UnpackedFloat.unpack .binary64 v.toBits.toBitVec = _
  unfold UnpackedFloat.unpack
  dsimp only
  rw [if_neg (by rw [he]; decide), if_pos he, dif_pos hm]
  rfl

theorem finite_congr {s : Sign} {m m' : ℕ} {e e' : ℤ} {h : 0 < m} {h' : 0 < m'} (hm : m = m')
    (he : e = e') : UnpackedFloat.finite s m e h = .finite s m' e' h' := by
  subst hm he
  rfl

theorem unpack_subnormal (h : HasBits v negative m) (hm : m < binade) (hpos : 0 < m) :
    v.toModel.unpack = .finite (signOf v) m (-1074) hpos := by
  have hb := binade_eq
  have he : @unpackExponent .binary64 v.toBits.toBitVec = 0#11 := by
    apply BitVec.eq_of_toNat_eq
    rw [exponent_toNat h (by rw [infinityBits_eq]; omega)]
    exact Nat.div_eq_of_lt hm
  have hmantissa : (@unpackMantissa .binary64 v.toBits.toBitVec).toNat = m := by
    rw [mantissa_toNat h, Nat.mod_eq_of_lt hm]
  have hne : @unpackMantissa .binary64 v.toBits.toBitVec ≠ 0#52 := by
    intro hz
    rw [hz] at hmantissa
    exact absurd hmantissa.symm hpos.ne'
  change UnpackedFloat.unpack .binary64 v.toBits.toBitVec = _
  unfold UnpackedFloat.unpack
  dsimp only
  rw [if_neg (by rw [he]; decide), if_pos he, dif_neg hne]
  exact finite_congr hmantissa (by rw [he]; rfl)

theorem unpack_normal (h : HasBits v negative ((k + 1) * binade + r))
    (hlt : (k + 1) * binade + r < infinityBits) (hr : r < binade) (hpos : 0 < binade + r) :
    v.toModel.unpack = .finite (signOf v) (binade + r) (k - 1074) hpos := by
  have he : (@unpackExponent .binary64 v.toBits.toBitVec).toNat = k + 1 := by
    rw [exponent_toNat h hlt, Nat.mul_comm, Nat.mul_add_div (Nat.zero_lt_of_lt hr),
      Nat.div_eq_of_lt hr, Nat.add_zero]
  have hmantissa : (@unpackMantissa .binary64 v.toBits.toBitVec).toNat = r := by
    rw [mantissa_toNat h, Nat.mul_comm, Nat.mul_add_mod, Nat.mod_eq_of_lt hr]
  have hfinite : @unpackExponent .binary64 v.toBits.toBitVec ≠ -1#11 := by
    intro hall
    rw [hall] at he
    change 2047 = _ at he
    rw [infinityBits_eq, binade_eq] at hlt
    omega
  have hne : @unpackExponent .binary64 v.toBits.toBitVec ≠ 0#11 := by
    intro hz
    rw [hz] at he
    exact absurd he.symm (Nat.succ_ne_zero k)
  change UnpackedFloat.unpack .binary64 v.toBits.toBitVec = _
  unfold UnpackedFloat.unpack
  dsimp only
  rw [if_neg hfinite, if_neg hne]
  refine finite_congr ?_ ?_
  · exact (toNat_implicit _).trans (congrArg _ hmantissa)
  · rw [he, exponentBias_eq]
    change ((k + 1 : ℕ) : ℤ) - (1023 + 52) = _
    omega

theorem unpack_scale (h : HasBits v negative (k * binade + r))
    (hlt : k * binade + r < infinityBits) (hr : r < 2 * binade) (hk : k = 0 ∨ binade ≤ r)
    (hpos : 0 < r) : v.toModel.unpack = .finite (signOf v) r (k - 1074) hpos := by
  rcases Nat.lt_or_ge r binade with hlow | hlow
  · obtain rfl : k = 0 := hk.resolve_right (Nat.not_le.2 hlow)
    rw [Nat.zero_mul, Nat.zero_add] at h
    exact unpack_subnormal h hlow hpos
  · obtain ⟨f, rfl⟩ := Nat.exists_eq_add_of_le hlow
    have hsplit : k * binade + (binade + f) = (k + 1) * binade + f := by
      rw [Nat.succ_mul, Nat.add_assoc]
    rw [hsplit] at h hlt
    exact unpack_normal h hlt (by omega) hpos

theorem compare_scale (hr : r < 2 * binade) (hk : k = 0 ∨ binade ≤ r) (hr' : r' < 2 * binade)
    (hk' : k' = 0 ∨ binade ≤ r') :
    (compare (k - 1074 : ℤ) (k' - 1074)).then (compare r r') =
      compare (k * binade + r) (k' * binade + r') := by
  rcases Nat.lt_trichotomy k k' with h | rfl | h
  · have hless : compare (k - 1074 : ℤ) (k' - 1074) = .lt := compare_lt_iff_lt.2 (by omega)
    rw [hless, Ordering.lt_then, eq_comm, compare_lt_iff_lt]
    rw [binade_eq] at *
    omega
  · rw [compare_eq_iff_eq.2 rfl, Ordering.eq_then]
    rcases Nat.lt_trichotomy r r' with h | rfl | h
    · rw [compare_lt_iff_lt.2 h, compare_lt_iff_lt.2 (by omega)]
    · rw [compare_eq_iff_eq.2 rfl, compare_eq_iff_eq.2 rfl]
    · rw [compare_gt_iff_gt.2 h, compare_gt_iff_gt.2 (by omega)]
  · have hmore : compare (k - 1074 : ℤ) (k' - 1074) = .gt := compare_gt_iff_gt.2 (by omega)
    rw [hmore, Ordering.gt_then, eq_comm, compare_gt_iff_gt]
    rw [binade_eq] at *
    omega

theorem scale_pos (hk : k = 0 ∨ binade ≤ r) (h : 0 < k * binade + r) : 0 < r := by
  rw [binade_eq] at *
  omega

theorem compare_magnitudes (hv : HasBits v false m) (hm : m < infinityBits)
    (hw : HasBits w false n) (hn : n < infinityBits) :
    UnpackedFloat.compare v.toModel.unpack w.toModel.unpack = some (compare m n) := by
  have hpv := signOf_positive hv hm
  have hpw := signOf_positive hw hn
  rcases Nat.eq_zero_or_pos m with rfl | hmpos
  · rcases Nat.eq_zero_or_pos n with rfl | hnpos
    · rw [unpack_zero hv, unpack_zero hw]
      rfl
    · obtain ⟨k', r', rfl, hr', hk'⟩ := exists_scale n
      rw [unpack_zero hv, unpack_scale hw hn hr' hk' (scale_pos hk' hnpos), hpw,
        compare_lt_iff_lt.2 hnpos]
      rfl
  · obtain ⟨k, r, rfl, hr, hk⟩ := exists_scale m
    rcases Nat.eq_zero_or_pos n with rfl | hnpos
    · rw [unpack_zero hw, unpack_scale hv hm hr hk (scale_pos hk hmpos), hpv,
        compare_gt_iff_gt.2 hmpos]
      rfl
    · obtain ⟨k', r', rfl, hr', hk'⟩ := exists_scale n
      rw [unpack_scale hv hm hr hk (scale_pos hk hmpos),
        unpack_scale hw hn hr' hk' (scale_pos hk' hnpos), hpv, hpw]
      exact congrArg some (compare_scale hr hk hr' hk')

theorem abs_eq (h : v.toModel.unpack.abs = w.toModel.unpack) : v.abs = w :=
  (congrArg (fun u => Float.ofModel (Float.Model.pack u)) h).trans (ofBits_toBits w)

theorem abs_ofMagnitude (hm : m < infinityBits) :
    (ofMagnitude negative m).abs = ofMagnitude false m := by
  have hv : HasBits (ofMagnitude negative m) negative m := (hasBits_iff (Nat.le_of_lt hm)).2 rfl
  have hw : HasBits (ofMagnitude false m) false m := (hasBits_iff (Nat.le_of_lt hm)).2 rfl
  have hpos := signOf_positive hw hm
  apply abs_eq
  rcases Nat.eq_zero_or_pos m with rfl | hmpos
  · rw [unpack_zero hv, unpack_zero hw, hpos]
    rfl
  · obtain ⟨k, r, rfl, hr, hk⟩ := exists_scale m
    rw [unpack_scale hv hm hr hk (scale_pos hk hmpos), unpack_scale hw hm hr hk
      (scale_pos hk hmpos), hpos]
    rfl

end

section
variable {m n : ℕ} (hm : m < infinityBits) (hn : n < infinityBits)
include hm hn

theorem compare_ofMagnitude :
    UnpackedFloat.compare (ofMagnitude false m).toModel.unpack (ofMagnitude false n).toModel.unpack
      = some (compare m n) :=
  compare_magnitudes ((hasBits_iff (Nat.le_of_lt hm)).2 rfl) hm
    ((hasBits_iff (Nat.le_of_lt hn)).2 rfl) hn

theorem ofMagnitude_le_iff : ofMagnitude false m ≤ ofMagnitude false n ↔ m ≤ n := by
  refine decide_eq_true_iff.trans ?_
  change ((UnpackedFloat.compare _ _).any (·.isLE)) = true ↔ _
  rw [compare_ofMagnitude hm hn, Option.any_some]
  exact Nat.isLE_compare

theorem ofMagnitude_lt_iff : ofMagnitude false m < ofMagnitude false n ↔ m < n := by
  refine decide_eq_true_iff.trans ?_
  change (UnpackedFloat.compare _ _ == some .lt) = true ↔ _
  rw [compare_ofMagnitude hm hn, beq_iff_eq, Option.some_inj, compare_lt_iff_lt]

theorem ofMagnitude_beq_iff : (ofMagnitude false m == ofMagnitude false n) = true ↔ m = n := by
  change (UnpackedFloat.compare _ _ == some .eq) = true ↔ _
  rw [compare_ofMagnitude hm hn, beq_iff_eq, Option.some_inj, compare_eq_iff_eq]

end

theorem le_size_iff {m n : ℕ} {q : ℚ} (hlow : size n < q) (hhigh : q ≤ size (n + 1)) :
    q ≤ size m ↔ n + 1 ≤ m := by
  constructor
  · intro h
    exact Nat.succ_le_of_lt (size_strictMono.lt_iff_lt.1 (hlow.trans_le h))
  · intro h
    exact hhigh.trans (size_strictMono.monotone h)

theorem size_lt_one_div_iff {m d : ℕ} (hd : 0 < d) :
    size m < 1 / d ↔ units m * d < 2 ^ 1074 := by
  rw [size, ofUnits]
  -- with the literal in place the power would be computed
  generalize 1074 = k
  rw [div_lt_div_iff₀ (pow_pos (by norm_num) k) (Nat.cast_pos.2 hd), one_mul]
  norm_cast

theorem size_whole {m n : ℕ} (h : units m = n * 2 ^ 1074) : size m = n := units_whole h

theorem abs_rational? {v : Float} {negative : Bool} {m : ℕ} {q : ℚ}
    (hv : Value.ofFloat v = .finite negative m) (hq : rational? v = some q) : |q| = size m := by
  rw [rational?, hv] at hq
  have hnonneg : 0 ≤ size m := div_nonneg (Nat.cast_nonneg _) (pow_nonneg (by norm_num) _)
  rw [← Option.some.inj hq, abs_mul]
  have hsign : |(if negative then -1 else 1 : ℚ)| = 1 := by
    cases negative with
    | false => exact abs_one
    | true => exact (abs_neg 1).trans abs_one
  rw [hsign, one_mul]
  exact abs_of_nonneg hnonneg

end Fluxion.Binary64
