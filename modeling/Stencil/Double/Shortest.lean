import Stencil.Double

set_option autoImplicit false

/-!
# The shortest decimal of a double

Of all decimals that read back as a given double, those with the fewest digits are wanted, and
of these the one nearest to the double. The reals that round to a double form an interval, whose
ends belong to it exactly when the mantissa is even. For one digit, two digits and so on, the two
neighbours of the double on that decimal grid are tested against the interval.
-/

namespace Stencil.Double

/-- A positive double and the ends of the interval that rounds to it, as numerators over one
denominator. -/
structure Rounding where
  low : Nat
  value : Nat
  high : Nat
  denominator : Nat
  closed : Bool

namespace Rounding

/-- The interval of `mantissa * 2 ^ exponent`. The gap below a power of two is half as wide. -/
def ofParts (mantissa : Nat) (exponent : Int) : Rounding :=
  let below := if mantissa = fullMantissa ∧ minExponent < exponent then 1 else 2
  let unit := if 2 ≤ exponent then Nat.pow 2 (exponent - 2).toNat else 1
  { low := (4 * mantissa - below) * unit
    value := 4 * mantissa * unit
    high := (4 * mantissa + 2) * unit
    denominator := if 2 ≤ exponent then 1 else Nat.pow 2 (2 - exponent).toNat
    closed := mantissa % 2 = 0 }

/-- The place of the first digit: the number lies below `10 ^ point` and not below a tenth of
it. -/
def point (r : Rounding) : Int :=
  if r.denominator ≤ r.value then (Nat.toDigits 10 (r.value / r.denominator)).length
  else
    let d := (Nat.toDigits 10 (r.denominator / r.value)).length
    if r.denominator = r.value * Nat.pow 10 (d - 1) then 2 - d else 1 - d

/-- The numerator of `digits * 10 ^ scale` over the denominator, both stretched by the same
factor `10 ^ (-scale)` where the scale is negative. -/
def gridPoint (r : Rounding) (digits : Nat) (scale : Int) : Nat :=
  digits * r.denominator * Nat.pow 10 scale.toNat

def stretched (scale : Int) (n : Nat) : Nat :=
  n * Nat.pow 10 (-scale).toNat

def contains (r : Rounding) (digits : Nat) (scale : Int) : Bool :=
  let g := r.gridPoint digits scale
  if r.closed then stretched scale r.low ≤ g && g ≤ stretched scale r.high
  else stretched scale r.low < g && g < stretched scale r.high

def onGrid (r : Rounding) (scale : Int) : Option Nat :=
  let v := stretched scale r.value
  let step := r.gridPoint 1 scale
  let down := v / step
  match r.contains down scale, r.contains (down + 1) scale with
  | true, false => some down
  | false, true => some (down + 1)
  | false, false => none
  | true, true =>
    match compare (2 * v) ((2 * down + 1) * step) with
    | .lt => some down
    | .gt => some (down + 1)
    | .eq => some (down + down % 2)

end Rounding

/-- The shortest digits of a positive double, and the power of ten they count. Seventeen digits
always suffice. -/
def shortest (mantissa : Nat) (exponent : Int) : Nat × Int :=
  let r := Rounding.ofParts mantissa exponent
  let point := r.point
  ((List.range 17).findSome? fun (i : Nat) =>
      let scale := point - (i + 1)
      (r.onGrid scale).map fun digits => (digits, scale)).getD (0, 0)

end Stencil.Double
