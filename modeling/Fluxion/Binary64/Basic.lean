/-!
# Binary64 numbers as multiples of the smallest one

A number is a sign and a *magnitude*: its bit pattern without the sign bit. Magnitudes are ordered
as the numbers they stand for, and every finite one is a whole multiple of `2^-1074`, its `units`.
Rounding a quotient of units to the nearest magnitude is exact arithmetic on natural numbers.
-/

set_option autoImplicit false

namespace Fluxion.Binary64

/-- How many magnitudes share an exponent field. -/
def binade : Nat := Nat.pow 2 52

def signBit : Nat := Nat.pow 2 63

/-- The magnitude of infinity; the larger ones are not numbers. -/
def infinityBits : Nat := 2047 * binade

/-- A finite magnitude counted in units of `2^-1074`. -/
def units (magnitude : Nat) : Nat :=
  if magnitude < binade then magnitude
  else (binade + magnitude % binade) * Nat.pow 2 (magnitude / binade - 1)

def roundHalfEven (num den : Nat) : Nat :=
  let low := num / den
  let twice := 2 * (num % den)
  if den < twice ∨ (twice = den ∧ low % 2 = 1) then low + 1 else low

/-- The magnitude nearest to `num / den` units. A rounded significand of `2^53` carries into the
exponent by itself, and what lies past the largest finite number is infinite. -/
def nearest (num den : Nat) : Nat :=
  let shift := (num / den).log2 - 52
  min (shift * binade + roundHalfEven num (den * Nat.pow 2 shift)) infinityBits

inductive Value where
  | nan
  | infinite (negative : Bool)
  | finite (negative : Bool) (magnitude : Nat)
  deriving DecidableEq, Repr

def Value.ofFloat (v : Float) : Value :=
  let bits := v.toBits.toNat
  let negative := decide (signBit ≤ bits)
  let magnitude := bits % signBit
  if infinityBits < magnitude then .nan
  else if magnitude = infinityBits then .infinite negative
  else .finite negative magnitude

def ofMagnitude (negative : Bool) (magnitude : Nat) : Float :=
  Float.ofBits (UInt64.ofNat ((if negative then signBit else 0) + magnitude))

def nan : Float := Float.ofBits 0x7ff8000000000000

def infinity (negative : Bool) : Float := ofMagnitude negative infinityBits

end Fluxion.Binary64
