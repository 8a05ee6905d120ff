import Fluxion.Binary64.Basic
import Mathlib.Algebra.Field.Rat
import Mathlib.Tactic.FieldSimp

/-!
# The rational numbers that values are

Every finite value is a whole multiple of `2^-1074`, by its units.
-/

set_option autoImplicit false

namespace Fluxion.Binary64

def rational? (v : Float) : Option ℚ :=
  match Value.ofFloat v with
  | .finite negative magnitude => some ((if negative then -1 else 1) * (units magnitude / 2 ^ 1074))
  | .infinite _ | .nan => none

def rational (v : Float) : ℚ := (rational? v).getD 0

theorem rational_eq {v : Float} {q : ℚ} (h : rational? v = some q) : rational v = q := by
  rw [rational, h]
  rfl

theorem finite_of_rational? {v : Float} {q : ℚ} (h : rational? v = some q) :
    ∃ negative magnitude, Value.ofFloat v = .finite negative magnitude := by
  unfold rational? at h
  split at h
  · next negative magnitude hv => exact ⟨negative, magnitude, hv⟩
  · cases h
  · cases h

theorem units_whole {m k : ℕ} (h : units m = k * 2 ^ 1074) : (units m : ℚ) / 2 ^ 1074 = k := by
  have hpow : (2 : ℚ) ^ 1074 ≠ 0 := pow_ne_zero _ (by decide)
  rw [h, Nat.cast_mul, Nat.cast_pow, Nat.cast_ofNat, mul_div_cancel_right₀ _ hpow]

theorem rational?_whole {v : Float} {negative : Bool} {m k : ℕ}
    (h : Value.ofFloat v = .finite negative m) (hu : units m = k * 2 ^ 1074) :
    rational? v = some ((if negative then -1 else 1) * (k : ℚ)) := by
  rw [rational?, h]
  simp only [units_whole hu]

theorem rational?_zero : rational? 0.0 = some 0 := by
  have hv : Value.ofFloat 0.0 = .finite false 0 := rfl
  have hu : units 0 = 0 * 2 ^ 1074 := by decide +kernel
  simpa using rational?_whole hv hu

theorem rational?_one : rational? 1.0 = some 1 := by
  have hv : Value.ofFloat 1.0 = .finite false 0x3ff0000000000000 := by decide +kernel
  have hu : units 0x3ff0000000000000 = 1 * 2 ^ 1074 := by decide +kernel
  simpa using rational?_whole hv hu

theorem rational?_two : rational? 2.0 = some 2 := by
  have hv : Value.ofFloat 2.0 = .finite false 0x4000000000000000 := by decide +kernel
  have hu : units 0x4000000000000000 = 2 * 2 ^ 1074 := by decide +kernel
  simpa using rational?_whole hv hu

end Fluxion.Binary64
