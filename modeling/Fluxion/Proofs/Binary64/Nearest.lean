import Fluxion.Proofs.Binary64.Bits
import Mathlib.Algebra.Field.Rat
import Mathlib.Algebra.Order.Field.Basic
import Mathlib.Tactic.Linarith
import Mathlib.Tactic.Ring

/-!
# The nearest magnitude

Magnitudes are ordered as the numbers that they stand for. A number is rounded to the one that no
other is nearer than, with infinity in the place of `2^1024`, and an even one if two are as near.
There is exactly one such magnitude, and rounding a quotient of units gives it.
-/

set_option autoImplicit false

namespace Fluxion.Binary64

def ofUnits (x : ℚ) : ℚ := x / 2 ^ 1074

/-- The number that a magnitude stands for; infinity counts as `2^1024`. -/
def size (m : ℕ) : ℚ := ofUnits (units m)

/-- No magnitude is nearer to the number, and if another one is as near, this one is even. -/
structure Rounds (q : ℚ) (m : ℕ) : Prop where
  le_infinity : m ≤ infinityBits
  nearest : ∀ n ≤ infinityBits, |q - size m| ≤ |q - size n|
  even : ∀ n ≤ infinityBits, n ≠ m → |q - size n| = |q - size m| → m % 2 = 0

theorem units_low {m : ℕ} (h : m < binade) : units m = m := if_pos h

theorem units_high {j f : ℕ} (hf : f < binade) :
    units ((j + 1) * binade + f) = (binade + f) * 2 ^ j := by
  have hge : ¬ (j + 1) * binade + f < binade := by
    rw [Nat.succ_mul]
    omega
  have hdiv : ((j + 1) * binade + f) / binade = j + 1 := by
    rw [Nat.mul_comm, Nat.mul_add_div (Nat.zero_lt_of_lt hf), Nat.div_eq_of_lt hf, Nat.add_zero]
  have hmod : ((j + 1) * binade + f) % binade = f := by
    rw [Nat.mul_comm, Nat.mul_add_mod, Nat.mod_eq_of_lt hf]
  rw [units, if_neg hge, hdiv, hmod, Nat.add_sub_cancel]
  rfl

theorem units_scale {k r : ℕ} (hr : r ≤ 2 * binade) (hk : k = 0 ∨ binade ≤ r) :
    units (k * binade + r) = r * 2 ^ k := by
  have hb := binade_eq
  rcases Nat.lt_or_ge r binade with hlow | hlow
  · obtain rfl : k = 0 := hk.resolve_right (by omega)
    rw [Nat.zero_mul, Nat.zero_add, Nat.pow_zero, Nat.mul_one, units_low hlow]
  · rcases Nat.lt_or_ge r (2 * binade) with hhigh | hhigh
    · have hsplit : k * binade + r = (k + 1) * binade + (r - binade) := by
        rw [Nat.succ_mul]
        omega
      rw [hsplit, units_high (by omega), Nat.add_sub_cancel' hlow]
    · have hsplit : k * binade + r = (k + 1 + 1) * binade + 0 := by
        rw [Nat.succ_mul, Nat.succ_mul]
        omega
      have htwice : r = 2 * binade := Nat.le_antisymm hr hhigh
      rw [hsplit, units_high (by omega), htwice, Nat.add_zero, Nat.pow_succ', ← Nat.mul_assoc,
        Nat.mul_comm binade 2]

theorem exists_scale (m : ℕ) :
    ∃ k r, m = k * binade + r ∧ r < 2 * binade ∧ (k = 0 ∨ binade ≤ r) := by
  have hb := binade_eq
  have hf : m % binade < binade := Nat.mod_lt _ (by omega)
  have hm := Nat.div_add_mod' m binade
  rcases Nat.eq_zero_or_eq_succ_pred (m / binade) with hz | hs
  · rw [hz, Nat.zero_mul, Nat.zero_add] at hm
    exact ⟨0, m, by omega, by omega, .inl rfl⟩
  · rw [hs, Nat.succ_mul] at hm
    exact ⟨(m / binade).pred, binade + m % binade, by omega, by omega,
      .inr (Nat.le_add_right _ _)⟩

theorem units_strictMono : StrictMono units := by
  refine strictMono_nat_of_lt_succ fun m => ?_
  obtain ⟨k, r, rfl, hr, hk⟩ := exists_scale m
  rw [Nat.add_assoc, units_scale (Nat.le_of_lt hr) hk,
    units_scale (Nat.succ_le_of_lt hr) (hk.imp_right Nat.le_succ_of_le)]
  exact Nat.mul_lt_mul_of_pos_right (Nat.lt_succ_self r) (Nat.two_pow_pos k)

section
variable {k r n : ℕ} (hr : r ≤ 2 * binade) (hk : k = 0 ∨ binade ≤ r)
include hr hk

theorem units_above (hn : k * binade + r < n) : r * 2 ^ k + 2 ^ k ≤ units n := by
  refine Nat.le_trans ?_ (units_strictMono.monotone (Nat.succ_le_of_lt hn))
  rcases Nat.lt_or_eq_of_le hr with hlt | rfl
  · have hnext := units_scale (Nat.succ_le_of_lt hlt) (hk.imp_right Nat.le_succ_of_le)
    rw [Nat.succ_mul] at hnext
    exact Nat.le_of_eq hnext.symm
  · -- from a carried significand the steps are twice as large
    have hsplit : k * binade + 2 * binade + 1 = (k + 1) * binade + (binade + 1) := by
      have hsucc : (k + 1) * binade = k * binade + binade := Nat.succ_mul k binade
      omega
    have hb := binade_eq
    rw [Nat.succ_eq_add_one, hsplit, units_scale (by omega) (.inr (Nat.le_add_right _ _)),
      Nat.pow_succ']
    nlinarith [Nat.two_pow_pos k]

theorem units_below (hn : n < k * binade + r) (hlow : k = 0 ∨ binade < r) :
    units n + 2 ^ k ≤ r * 2 ^ k := by
  obtain ⟨s, rfl⟩ : ∃ s, r = s + 1 := by
    refine ⟨r - 1, ?_⟩
    rcases hlow with rfl | hlow
    · omega
    · omega
  have hprevious := units_scale (k := k) (r := s) (by omega) (hlow.imp_right Nat.le_of_lt_succ)
  have hn : n ≤ k * binade + s := Nat.le_of_lt_succ hn
  have hle := units_strictMono.monotone hn
  rw [hprevious] at hle
  rw [Nat.succ_mul]
  exact Nat.add_le_add_right hle _

end

theorem roundHalfEven_half (num : ℕ) {den : ℕ} (hden : 0 < den) :
    (2 * num ≤ (2 * roundHalfEven num den + 1) * den ∧
      (2 * num = (2 * roundHalfEven num den + 1) * den → roundHalfEven num den % 2 = 0)) ∧
    (2 * roundHalfEven num den * den ≤ 2 * num + den ∧
      (2 * roundHalfEven num den * den = 2 * num + den → roundHalfEven num den % 2 = 0)) := by
  have hsplit := Nat.div_add_mod' num den
  have hmod := Nat.mod_lt num hden
  unfold roundHalfEven
  dsimp only
  generalize num / den = low at *
  generalize num % den = rem at *
  split
  · have hexpand : (2 * (low + 1) + 1) * den = 2 * (low * den) + 3 * den := by ring
    have hexpand' : 2 * (low + 1) * den = 2 * (low * den) + 2 * den := by ring
    rw [hexpand, hexpand']
    omega
  · have hexpand : (2 * low + 1) * den = 2 * (low * den) + den := by ring
    have hexpand' : 2 * low * den = 2 * (low * den) := by ring
    rw [hexpand, hexpand']
    omega

theorem mid_le_iff {a b x : ℚ} (h : a < b) : |x - b| ≤ |x - a| ↔ a + b ≤ 2 * x := by
  rw [← sq_le_sq]
  constructor
  · intro hsq
    nlinarith
  · intro hmid
    nlinarith

theorem le_mid_iff {a b x : ℚ} (h : a < b) : |x - a| ≤ |x - b| ↔ 2 * x ≤ a + b := by
  rw [← sq_le_sq]
  constructor
  · intro hsq
    nlinarith
  · intro hmid
    nlinarith

theorem mid_eq_iff {a b x : ℚ} (h : a < b) : |x - a| = |x - b| ↔ 2 * x = a + b := by
  rw [le_antisymm_iff, mid_le_iff h, le_mid_iff h, le_antisymm_iff]

theorem ofUnits_le_iff {x y : ℚ} : ofUnits x ≤ ofUnits y ↔ x ≤ y :=
  div_le_div_iff_of_pos_right (pow_pos (by decide) _)

theorem ofUnits_inj {x y : ℚ} : ofUnits x = ofUnits y ↔ x = y := by
  rw [le_antisymm_iff, ofUnits_le_iff, ofUnits_le_iff, ← le_antisymm_iff]

theorem abs_sub_size (x : ℚ) (n : ℕ) : |ofUnits x - size n| = ofUnits |x - units n| := by
  have hpow : (0 : ℚ) < 2 ^ 1074 := pow_pos (by decide) _
  rw [size, ofUnits, ofUnits, ofUnits, ← sub_div, abs_div, abs_of_pos hpow]

/-- A magnitude is the nearest one if the number is on its side of the middle to every other. -/
theorem Rounds.of_mid {x : ℚ} {m : ℕ} (hle : m ≤ infinityBits)
    (hlow : ∀ n < m, (units n + units m : ℚ) ≤ 2 * x ∧
      (2 * x = units n + units m → m % 2 = 0))
    (hhigh : ∀ n, m < n → n ≤ infinityBits → 2 * x ≤ (units m + units n : ℚ) ∧
      (2 * x = units m + units n → m % 2 = 0)) :
    Rounds (ofUnits x) m := by
  have hunits {n k : ℕ} (h : n < k) : (units n : ℚ) < units k := Nat.cast_lt.2 (units_strictMono h)
  refine ⟨hle, fun n hn => ?_, fun n hn hne heq => ?_⟩
  · rw [abs_sub_size, abs_sub_size, ofUnits_le_iff]
    rcases Nat.lt_trichotomy n m with h | rfl | h
    · exact (mid_le_iff (hunits h)).2 (hlow n h).1
    · exact le_refl _
    · exact (le_mid_iff (hunits h)).2 (hhigh n h hn).1
  · rw [abs_sub_size, abs_sub_size, ofUnits_inj] at heq
    rcases Nat.lt_or_gt_of_ne hne with h | h
    · exact (hlow n h).2 ((mid_eq_iff (hunits h)).1 heq)
    · exact (hhigh n h hn).2 ((mid_eq_iff (hunits h)).1 heq.symm)

theorem size_zero : size 0 = 0 := by
  rw [size, ofUnits, units_low (by decide), Nat.cast_zero, zero_div]

theorem size_strictMono : StrictMono size := by
  intro m n h
  apply lt_of_not_ge
  intro hle
  exact absurd (Nat.cast_le.1 (ofUnits_le_iff.1 hle)) (Nat.not_le.2 (units_strictMono h))

theorem Rounds.not_lt {q : ℚ} {m n : ℕ} (hm : Rounds q m) (hn : Rounds q n) : ¬ m < n := by
  intro hlt
  have hsize := size_strictMono hlt
  have heq : |q - size m| = |q - size n| :=
    le_antisymm (hm.nearest n hn.le_infinity) (hn.nearest m hm.le_infinity)
  have hmid := (mid_eq_iff hsize).1 heq
  -- both are even, so the magnitude between them is nearer than they are
  have heven := hm.even n hn.le_infinity (Nat.ne_of_gt hlt) heq.symm
  have heven' := hn.even m hm.le_infinity (Nat.ne_of_lt hlt) heq
  have hnext : m + 1 < n := by omega
  have hbetween : m + 1 ≤ infinityBits := Nat.le_trans (Nat.le_of_lt hnext) hn.le_infinity
  have hnearest : 2 * q ≤ size m + size (m + 1) :=
    (le_mid_iff (size_strictMono (Nat.lt_succ_self m))).1 (hm.nearest (m + 1) hbetween)
  have hbelow : size (m + 1) < size n := size_strictMono hnext
  linarith

theorem Rounds.unique {q : ℚ} {m n : ℕ} (hm : Rounds q m) (hn : Rounds q n) : m = n :=
  Nat.le_antisymm (Nat.le_of_not_lt (hn.not_lt hm)) (Nat.le_of_not_lt (hm.not_lt hn))

theorem rounds_size {m : ℕ} (hm : m ≤ infinityBits) : Rounds (size m) m := by
  refine ⟨hm, fun n _ => ?_, fun n _ hne heq => absurd ?_ hne⟩
  · rw [sub_self, abs_zero]
    exact abs_nonneg _
  · rw [sub_self, abs_zero, abs_eq_zero, sub_eq_zero] at heq
    exact (size_strictMono.injective heq).symm

/-- A significand and its step, for a quotient of units that has this exponent. -/
structure Scaled (num den k r : ℕ) : Prop where
  pos : 0 < den
  low : k = 0 ∨ binade * (den * 2 ^ k) ≤ num
  high : num < 2 * binade * (den * 2 ^ k)
  rounded : r = roundHalfEven num (den * 2 ^ k)

theorem even_magnitude {k r : ℕ} (h : r % 2 = 0) : (k * binade + r) % 2 = 0 := by
  rw [binade_eq]
  omega

section
variable {num den k r : ℕ}

theorem Scaled.range (h : Scaled num den k r) : r ≤ 2 * binade ∧ (k = 0 ∨ binade ≤ r) := by
  have hstep : 0 < den * 2 ^ k := Nat.mul_pos h.pos (Nat.two_pow_pos k)
  obtain ⟨⟨hupper, -⟩, ⟨hlower, -⟩⟩ := roundHalfEven_half num hstep
  rw [← h.rounded] at hupper hlower
  constructor
  · have hlt : 2 * r * (den * 2 ^ k) < (4 * binade + 1) * (den * 2 ^ k) := by
      have hhigh := h.high
      nlinarith
    have := Nat.lt_of_mul_lt_mul_right hlt
    omega
  · refine h.low.imp_right fun hlow => ?_
    have hle : 2 * binade * (den * 2 ^ k) ≤ (2 * r + 1) * (den * 2 ^ k) := by
      nlinarith
    have := Nat.le_of_mul_le_mul_right hle hstep
    omega

theorem Scaled.above {n : ℕ} (h : Scaled num den k r) (hn : k * binade + r < n) :
    2 * (num / den : ℚ) ≤ units (k * binade + r) + units n ∧
      (2 * (num / den : ℚ) = units (k * binade + r) + units n → (k * binade + r) % 2 = 0) := by
  obtain ⟨hr, hk⟩ := h.range
  obtain ⟨⟨hupper, htie⟩, -⟩ :=
    roundHalfEven_half num (Nat.mul_pos h.pos (Nat.two_pow_pos k))
  rw [← h.rounded] at hupper htie
  have hden : (0 : ℚ) < den := Nat.cast_pos.2 h.pos
  have hgap := units_above hr hk hn
  rw [units_scale hr hk, mul_div_assoc', div_le_iff₀ hden, div_eq_iff hden.ne']
  norm_cast
  have hexpand : (2 * r + 1) * (den * 2 ^ k) = (r * 2 ^ k + (r * 2 ^ k + 2 ^ k)) * den := by ring
  have hle : (r * 2 ^ k + (r * 2 ^ k + 2 ^ k)) * den ≤ (r * 2 ^ k + units n) * den :=
    Nat.mul_le_mul_right den (Nat.add_le_add_left hgap _)
  rw [hexpand] at hupper htie
  exact ⟨Nat.le_trans hupper hle, fun heq =>
    even_magnitude (htie (Nat.le_antisymm hupper (heq ▸ hle)))⟩

theorem Scaled.below {n : ℕ} (h : Scaled num den k r) (hn : n < k * binade + r) :
    units n + units (k * binade + r) ≤ 2 * (num / den : ℚ) ∧
      (2 * (num / den : ℚ) = units n + units (k * binade + r) → (k * binade + r) % 2 = 0) := by
  obtain ⟨hr, hk⟩ := h.range
  obtain ⟨-, ⟨hlower, htie⟩⟩ :=
    roundHalfEven_half num (Nat.mul_pos h.pos (Nat.two_pow_pos k))
  rw [← h.rounded] at hlower htie
  have hden : (0 : ℚ) < den := Nat.cast_pos.2 h.pos
  have hless := units_strictMono hn
  rw [units_scale hr hk] at hless
  rw [units_scale hr hk, mul_div_assoc', le_div_iff₀ hden, div_eq_iff hden.ne']
  norm_cast
  by_cases hwithin : k = 0 ∨ binade < r
  · have hgap := units_below hr hk hn hwithin
    have hexpand : 2 * r * (den * 2 ^ k) = (r * 2 ^ k + r * 2 ^ k) * den := by ring
    have hle : (units n + r * 2 ^ k) * den + den * 2 ^ k ≤ (r * 2 ^ k + r * 2 ^ k) * den := by
      nlinarith
    rw [hexpand] at hlower htie
    refine ⟨by omega, fun heq => even_magnitude (htie ?_)⟩
    omega
  · -- the number is at least as large as the first one of the binade
    obtain ⟨hne, hfirst⟩ := not_or.1 hwithin
    have hnum : r * (den * 2 ^ k) ≤ num :=
      Nat.le_trans (Nat.mul_le_mul_right _ (Nat.le_of_not_lt hfirst)) (h.low.resolve_left hne)
    have hlt : (units n + r * 2 ^ k) * den < 2 * num := calc
      (units n + r * 2 ^ k) * den < (r * 2 ^ k + r * 2 ^ k) * den :=
        Nat.mul_lt_mul_of_pos_right (Nat.add_lt_add_right hless _) h.pos
      _ = 2 * (r * (den * 2 ^ k)) := by ring
      _ ≤ 2 * num := Nat.mul_le_mul_left 2 hnum
    exact ⟨Nat.le_of_lt hlt, fun heq => absurd heq (Nat.ne_of_gt hlt)⟩

theorem Scaled.rounds (h : Scaled num den k r) :
    Rounds (ofUnits (num / den)) (min (k * binade + r) infinityBits) := by
  rcases Nat.lt_or_ge infinityBits (k * binade + r) with hlt | hge
  · rw [Nat.min_eq_right (Nat.le_of_lt hlt)]
    refine .of_mid (Nat.le_refl _) (fun n hn => ?_) (fun n hn hle => absurd hn (Nat.not_lt.2 hle))
    -- the number lies past the middle between infinity and a larger magnitude
    have hmid := (h.below hlt).1
    have hless : (units n : ℚ) < units (k * binade + r) :=
      Nat.cast_lt.2 (units_strictMono (Nat.lt_trans hn hlt))
    exact ⟨by linarith, fun heq => by linarith⟩
  · rw [Nat.min_eq_left hge]
    exact .of_mid hge (fun n hn => h.below hn) (fun n hn _ => h.above hn)

end

theorem scaled_nearest (num : ℕ) {den : ℕ} (hden : 0 < den) :
    Scaled num den ((num / den).log2 - 52)
      (roundHalfEven num (den * 2 ^ ((num / den).log2 - 52))) := by
  have hb : binade = 2 ^ 52 := rfl
  have htwice : 2 * binade = 2 ^ 53 := rfl
  refine ⟨hden, ?_, ?_, rfl⟩
  · rcases Nat.eq_zero_or_pos ((num / den).log2 - 52) with hz | hpos
    · exact .inl hz
    · right
      have hne : num / den ≠ 0 := by
        intro hz
        rw [hz] at hpos
        exact absurd hpos (by decide)
      have hlog := Nat.log2_self_le hne
      have hexp : 52 + ((num / den).log2 - 52) = (num / den).log2 := by omega
      calc binade * (den * 2 ^ ((num / den).log2 - 52))
        _ = den * 2 ^ (num / den).log2 := by rw [Nat.mul_left_comm, hb, ← Nat.pow_add, hexp]
        _ ≤ den * (num / den) := Nat.mul_le_mul_left den hlog
        _ ≤ num := Nat.mul_div_le num den
  · have hlog := Nat.lt_log2_self (n := num / den)
    have hexp : (num / den).log2 + 1 ≤ 53 + ((num / den).log2 - 52) := by omega
    calc num < den * (num / den + 1) := Nat.lt_mul_div_succ num hden
      _ ≤ den * 2 ^ ((num / den).log2 + 1) := Nat.mul_le_mul_left den hlog
      _ ≤ den * 2 ^ (53 + ((num / den).log2 - 52)) :=
        Nat.mul_le_mul_left den (Nat.pow_le_pow_right (by decide) hexp)
      _ = 2 * binade * (den * 2 ^ ((num / den).log2 - 52)) := by
        rw [htwice, Nat.mul_left_comm, ← Nat.pow_add]

/-- A quotient of units is rounded to the nearest magnitude. -/
theorem rounds_nearest (num : ℕ) {den : ℕ} (hden : 0 < den) :
    Rounds (ofUnits (num / den)) (nearest num den) :=
  (scaled_nearest num hden).rounds

theorem rounds_infinity {q : ℚ} (h : size infinityBits ≤ q) : Rounds q infinityBits := by
  refine ⟨Nat.le_refl _, fun n hn => ?_, fun n hn hne heq => ?_⟩
  · have hsize := size_strictMono.monotone hn
    rw [abs_of_nonneg (by linarith), abs_of_nonneg (by linarith)]
    linarith
  · have hsize := size_strictMono (Nat.lt_of_le_of_ne hn hne)
    rw [abs_of_nonneg (by linarith), abs_of_nonneg (by linarith)] at heq
    linarith

theorem rounds_zero {q : ℚ} (h : 2 * q < size 1) : Rounds q 0 := by
  refine ⟨Nat.zero_le _, fun n hn => ?_, fun _ _ _ _ => rfl⟩
  rcases Nat.eq_zero_or_pos n with rfl | hpos
  · exact le_refl _
  · have hsize := size_strictMono.monotone (Nat.succ_le_of_lt hpos)
    rw [le_mid_iff (size_strictMono hpos), size_zero]
    linarith

end Fluxion.Binary64
