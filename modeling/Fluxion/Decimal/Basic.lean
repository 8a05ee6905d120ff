import Fluxion.Binary64.Basic

/-!
# Decimal numbers

A whole coefficient times a power of ten, and the binary64 magnitude nearest to it.

For the shortest decimal that reads back, the decimals with one exponent form a grid. The search
goes from a grid coarser than the number to finer ones and tests the number's two neighbours on
each: the first grid on which one of them rounds to the number has the fewest digits. It ends at the
latest on the grid of `10^-1074`, where every finite number lies itself.

The digits of a coefficient have two layouts: *positional*, with as many zeros as the exponent
needs, and *scientific*, with one digit before the point and at least one after it.
-/

set_option autoImplicit false

namespace Fluxion

structure Decimal where
  coefficient : Nat
  exponent : Int
  deriving DecidableEq, Repr

namespace Decimal

/-- The nearest binary64 magnitude, a tie to the even one. The first cases only save work: from
`10^310` on all is infinite, and below `2^-1075` all rounds to zero. -/
def magnitude (d : Decimal) : Nat :=
  if d.coefficient = 0 then 0
  else if 310 ≤ d.exponent then Binary64.infinityBits
  else if (d.coefficient.log2 : Int) + 1076 + 3 * d.exponent ≤ 0 then 0
  else Binary64.nearest (d.coefficient * Nat.pow 10 d.exponent.toNat * Nat.pow 2 1074)
    (Nat.pow 10 (-d.exponent).toNat)

/-- A finite magnitude counted in units of `10^-1074`. -/
def fineUnits (magnitude : Nat) : Nat := Binary64.units magnitude * Nat.pow 5 1074

/-- The neighbour on the grid of `10^(grid - 1074)` that rounds to the magnitude: of two the
nearer one, and of two equally near the upper one. -/
def neighbour? (magnitude fine grid : Nat) : Option Decimal :=
  let step := Nat.pow 10 grid
  let low : Decimal := ⟨fine / step, (grid : Int) - 1074⟩
  let high : Decimal := ⟨fine / step + 1, (grid : Int) - 1074⟩
  match decide (low.magnitude = magnitude), decide (high.magnitude = magnitude) with
  | true, true => some (if 2 * (fine % step) < step then low else high)
  | true, false => some low
  | false, true => some high
  | false, false => none

def search (magnitude fine : Nat) : Nat → Decimal
  | 0 => ⟨fine, -1074⟩
  | grid + 1 =>
    match neighbour? magnitude fine (grid + 1) with
    | some d => d
    | none => search magnitude fine grid

/-- A grid whose step is larger than a number of so many units, since `2^10 > 10^3` and
`2^3 < 10`. -/
def coarseGrid (units : Nat) : Nat :=
  let size := units.log2 + 1
  if size < 1074 then 1074 - 3 * (1074 - size) / 10 else 1074 + (size - 1074) / 3 + 1

def shortest (magnitude : Nat) : Decimal :=
  if magnitude = 0 then ⟨0, 0⟩
  else search magnitude (fineUnits magnitude) (coarseGrid (Binary64.units magnitude))

def digits (d : Decimal) : List Char := Nat.toDigits 10 d.coefficient

def positional (d : Decimal) : List Char :=
  match d.exponent with
  | .ofNat zeros => d.digits ++ List.replicate zeros '0'
  | .negSucc m =>
    let ds := List.replicate (m + 2 - d.digits.length) '0' ++ d.digits
    ds.take (ds.length - (m + 1)) ++ '.' :: ds.drop (ds.length - (m + 1))

def pointed (d : Decimal) : List Char :=
  match d.exponent with
  | .ofNat _ => d.positional ++ ['.', '0']
  | .negSucc _ => d.positional

def wholeText (n : Int) : List Char :=
  match n with
  | .ofNat k => Nat.toDigits 10 k
  | .negSucc k => '-' :: Nat.toDigits 10 (k + 1)

def scientific (d : Decimal) : List Char :=
  let fraction := d.digits.drop 1
  d.digits.take 1 ++ '.' :: (if fraction.isEmpty then ['0'] else fraction) ++
    'E' :: wholeText (d.exponent + fraction.length)

end Decimal

end Fluxion
