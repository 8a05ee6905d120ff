import Fluxion.Decimal.Basic
import Fluxion.Proofs.Binary64.Nearest
import Mathlib.Algebra.Order.Field.Power
import Mathlib.Tactic.FieldSimp

/-!
# Decimals are rounded correctly

The magnitude of a decimal is the nearest one to its number, also where the exponent alone tells it:
`10^310` lies above all finite numbers, and below half of the smallest one all is zero. So decimals
of one number have one magnitude.

The shortest decimal of a number rounds to it. Every hit of the search does by its own test, and the
grid that the search ends at holds the number itself, which rounds without an error.
-/

set_option autoImplicit false

namespace Fluxion.Decimal
open Binary64

def number (d : Decimal) : ℚ := d.coefficient * 10 ^ d.exponent

theorem magnitude_zero (e : ℤ) : (⟨0, e⟩ : Decimal).magnitude = 0 := if_pos rfl

theorem ten_zpow (e : ℤ) : (10 : ℚ) ^ e = 10 ^ e.toNat / 10 ^ (-e).toNat := by
  cases e with
  | ofNat n => simp
  | negSucc n =>
    have hneg : (-Int.negSucc n).toNat = n + 1 := rfl
    rw [zpow_negSucc, hneg, Int.toNat_negSucc, pow_zero, one_div]

theorem number_eq (c : ℕ) (e : ℤ) :
    (⟨c, e⟩ : Decimal).number =
      ofUnits ((c * Nat.pow 10 e.toNat * Nat.pow 2 1074 : ℕ) / (Nat.pow 10 (-e).toNat : ℕ)) := by
  unfold ofUnits
  -- with the literal in place the powers would be computed
  generalize 1074 = k
  have hten : ((10 ^ (-e).toNat : ℕ) : ℚ) ≠ 0 := Nat.cast_ne_zero.2 (pow_ne_zero _ (by decide))
  change (c : ℚ) * 10 ^ e = ((c * 10 ^ e.toNat * 2 ^ k : ℕ) / (10 ^ (-e).toNat : ℕ) : ℚ) / 2 ^ k
  rw [ten_zpow]
  push_cast at hten ⊢
  field_simp

theorem size_infinity : size infinityBits = 2 ^ 1024 := by
  have hsplit : infinityBits = 2046 * binade + binade := rfl
  have hpow : binade * 2 ^ 2046 = 2 ^ 1024 * 2 ^ 1074 := by decide +kernel
  rw [size, ofUnits, hsplit, units_scale (by omega) (.inr (Nat.le_refl _)), hpow, Nat.cast_mul,
    Nat.cast_pow, Nat.cast_pow, Nat.cast_ofNat, mul_div_assoc, div_self (pow_ne_zero _ (by decide)),
    mul_one]

theorem size_one : size 1 = 1 / 2 ^ 1074 := by
  rw [size, ofUnits, units_low (by decide), Nat.cast_one]

theorem infinity_le_number {c : ℕ} {e : ℤ} (hc : c ≠ 0) (he : 310 ≤ e) :
    size infinityBits ≤ (⟨c, e⟩ : Decimal).number := by
  have hpow : (2 : ℕ) ^ 1024 ≤ 10 ^ 310 := by decide +kernel
  have hone : (1 : ℚ) ≤ c := Nat.one_le_cast.2 (Nat.one_le_iff_ne_zero.2 hc)
  rw [size_infinity, number]
  calc (2 : ℚ) ^ 1024
    _ ≤ 10 ^ 310 := by exact_mod_cast hpow
    _ = 10 ^ (310 : ℤ) := (zpow_natCast 10 310).symm
    _ ≤ 10 ^ e := zpow_le_zpow_right₀ (by norm_num) he
    _ ≤ c * 10 ^ e := le_mul_of_one_le_left (zpow_nonneg (by norm_num) e) hone

theorem number_lt_half {c : ℕ} {e : ℤ} (hlow : (c.log2 : ℤ) + 1076 + 3 * e ≤ 0) :
    2 * (⟨c, e⟩ : Decimal).number < size 1 := by
  obtain ⟨n, rfl⟩ : ∃ n : ℕ, e = -n := ⟨(-e).toNat, by omega⟩
  have hten : (2 : ℕ) ^ (c.log2 + 1076) ≤ 10 ^ n := calc
    2 ^ (c.log2 + 1076) ≤ 2 ^ (3 * n) := Nat.pow_le_pow_right (by decide) (by omega)
    _ = 8 ^ n := Nat.pow_mul 2 3 n
    _ ≤ 10 ^ n := Nat.pow_le_pow_left (by decide) n
  have hlt : 2 * c * 2 ^ 1074 < 10 ^ n := calc
    2 * c * 2 ^ 1074 < 2 ^ (c.log2 + 1 + 1 + 1074) := by
      rw [Nat.pow_add, Nat.pow_succ' (n := c.log2 + 1)]
      apply Nat.mul_lt_mul_of_pos_right _ (Nat.two_pow_pos _)
      exact Nat.mul_lt_mul_of_pos_left Nat.lt_log2_self (by decide)
    _ ≤ 10 ^ n := hten
  have hpow : (0 : ℚ) < 2 ^ 1074 := pow_pos (by decide) _
  have hpos : (0 : ℚ) < 10 ^ n := pow_pos (by norm_num) n
  rw [number, size_one, zpow_neg, zpow_natCast, ← div_eq_mul_inv, mul_div_assoc', div_lt_div_iff₀
    hpos hpow, one_mul]
  exact_mod_cast hlt

/-- The magnitude of a decimal is the nearest one to its number. -/
theorem rounds_magnitude (d : Decimal) : Rounds d.number d.magnitude := by
  obtain ⟨c, e⟩ := d
  by_cases hc : c = 0
  · have hzero : (⟨c, e⟩ : Decimal).number = 0 := by rw [number, hc, Nat.cast_zero, zero_mul]
    have hsize : 2 * 0 < size 1 := by
      rw [size_one, mul_zero]
      exact div_pos one_pos (pow_pos (by decide) _)
    rw [hzero, hc, magnitude_zero]
    exact rounds_zero hsize
  by_cases hhigh : 310 ≤ e
  · rw [magnitude, if_neg hc, if_pos hhigh]
    exact rounds_infinity (infinity_le_number hc hhigh)
  by_cases hlow : (c.log2 : ℤ) + 1076 + 3 * e ≤ 0
  · rw [magnitude, if_neg hc, if_neg hhigh, if_pos hlow]
    exact rounds_zero (number_lt_half hlow)
  · have hden : 0 < Nat.pow 10 (-e).toNat := Nat.pow_pos (by decide)
    rw [magnitude, if_neg hc, if_neg hhigh, if_neg hlow, number_eq]
    exact rounds_nearest _ hden

theorem magnitude_eq_of_rounds {d : Decimal} {m : ℕ} (h : Rounds d.number m) : d.magnitude = m :=
  (rounds_magnitude d).unique h

theorem magnitude_congr {d d' : Decimal} (h : d.number = d'.number) :
    d.magnitude = d'.magnitude := by
  apply magnitude_eq_of_rounds
  rw [h]
  exact rounds_magnitude d'

theorem magnitude_zeros (c z : Nat) :
    (⟨c * Nat.pow 10 z, 0⟩ : Decimal).magnitude = (⟨c, z⟩ : Decimal).magnitude := by
  apply magnitude_congr
  change ((c * 10 ^ z : ℕ) : ℚ) * 10 ^ (0 : ℤ) = c * 10 ^ (z : ℤ)
  rw [zpow_zero, mul_one, zpow_natCast]
  push_cast
  rfl

theorem magnitude_tenfold (c : Nat) (e : Int) :
    (⟨c * 10, e - 1⟩ : Decimal).magnitude = (⟨c, e⟩ : Decimal).magnitude := by
  apply magnitude_congr
  rw [number, number, zpow_sub_one₀ (by norm_num)]
  push_cast
  field_simp

theorem magnitude_neighbour? {m fine grid : Nat} {d : Decimal}
    (h : neighbour? m fine grid = some d) : d.magnitude = m := by
  unfold neighbour? at h
  dsimp only at h
  split at h
  · next hl hh =>
    have hl := of_decide_eq_true hl
    have hh := of_decide_eq_true hh
    split at h
    · exact Option.some.inj h ▸ hl
    · exact Option.some.inj h ▸ hh
  · next hl _ => exact Option.some.inj h ▸ of_decide_eq_true hl
  · next hh => exact Option.some.inj h ▸ of_decide_eq_true hh
  · simp at h

theorem magnitude_search {m fine : Nat} (h : (⟨fine, -1074⟩ : Decimal).magnitude = m)
    (grid : Nat) : (search m fine grid).magnitude = m := by
  induction grid with
  | zero => exact h
  | succ grid ih =>
    unfold search
    split
    · next hn => exact magnitude_neighbour? hn
    · exact ih

theorem number_fineUnits (m : Nat) : (⟨fineUnits m, -1074⟩ : Decimal).number = size m := by
  have hexponent : (-1074 : ℤ) = -((1074 : ℕ) : ℤ) := rfl
  rw [number, fineUnits, size, ofUnits, hexponent]
  -- with the literal in place the powers would be computed
  generalize 1074 = k
  have hten : (10 : ℚ) ^ k = 2 ^ k * 5 ^ k := by
    rw [← mul_pow]
    norm_num
  change ((units m * 5 ^ k : ℕ) : ℚ) * 10 ^ (-(k : ℤ)) = units m / 2 ^ k
  rw [zpow_neg, zpow_natCast, hten]
  push_cast
  field_simp

theorem magnitude_fineUnits {m : Nat} (hm : m ≤ infinityBits) :
    (⟨fineUnits m, -1074⟩ : Decimal).magnitude = m := by
  apply magnitude_eq_of_rounds
  rw [number_fineUnits]
  exact rounds_size hm

/-- The shortest decimal of a finite number rounds to it. -/
theorem magnitude_shortest {m : Nat} (hm : m < infinityBits) : (shortest m).magnitude = m := by
  unfold shortest
  split
  · next hz =>
    rw [hz]
    rfl
  · exact magnitude_search (magnitude_fineUnits (Nat.le_of_lt hm)) _

end Fluxion.Decimal
