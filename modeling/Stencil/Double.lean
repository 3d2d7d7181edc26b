set_option autoImplicit false

/-!
# Double-precision numbers

A finite double is held exactly, as a signed mantissa times a power of two, so that comparing
two of them is comparing the numbers they stand for. Reading a quotient or a decimal rounds to
the nearest double, a tie going to the even mantissa.
-/

namespace Stencil

inductive Double
  | nan
  | infinity (negative : Bool)
  | finite (negative : Bool) (mantissa : Nat) (exponent : Int)
  deriving Repr, DecidableEq

namespace Double

def minExponent : Int := -1074

/-- The largest exponent that goes with a full mantissa. -/
def maxExponent : Int := 971

/-- The least mantissa that uses all 53 bits. -/
def fullMantissa : Nat := Nat.pow 2 52

def zero (negative : Bool) : Double := finite negative 0 0

/-- The integer nearest to a quotient; of two equally near ones, the even one. -/
def roundQuotient (num den : Nat) : Nat :=
  let q := num / den
  let r := num % den
  if 2 * r < den then q
  else if den < 2 * r then q + 1
  else q + q % 2

/-- A mantissa of at most 53 bits, or the carry out of one, with its exponent. -/
def pack (negative : Bool) (mantissa : Nat) (exponent : Int) : Double :=
  let (m, e) :=
    if mantissa = 2 * fullMantissa then (fullMantissa, exponent + 1) else (mantissa, exponent)
  if m = 0 then zero negative
  else if maxExponent < e then infinity negative
  else finite negative m e

/-- The quotient of two numbers in units of `2 ^ exponent`, as numerator and denominator. -/
def inUnits (num den : Nat) (exponent : Int) : Nat × Nat :=
  if 0 ≤ exponent then (num, den * Nat.pow 2 exponent.toNat)
  else (num * Nat.pow 2 (-exponent).toNat, den)

def ofRatio (negative : Bool) (num den : Nat) : Double :=
  if num = 0 then zero negative
  else
    let low := max ((num.log2 : Int) - den.log2 - 53) minExponent
    let (n, d) := inUnits num den low
    let exponent := if 2 * fullMantissa ≤ n / d then low + 1 else low
    let (n, d) := inUnits num den exponent
    pack negative (roundQuotient n d) exponent

/-- The double nearest to `digits * 10 ^ scale`. Numbers far outside the range of doubles are
not computed. -/
def ofDecimal (negative : Bool) (digits : Nat) (scale : Int) : Double :=
  if digits = 0 then zero negative
  else if 310 < scale then infinity negative
  else if 3 * scale + digits.log2 < -1090 then zero negative
  else if 0 ≤ scale then ofRatio negative (digits * Nat.pow 10 scale.toNat) 1
  else ofRatio negative digits (Nat.pow 10 (-scale).toNat)

/-- The double nearest to an integer, unless it lies beyond all doubles. -/
def ofInt? (n : Int) : Option Double :=
  match ofRatio (decide (n < 0)) n.natAbs 1 with
  | finite s m e => some (finite s m e)
  | _ => none

def signedIn (unit : Int) (negative : Bool) (mantissa : Nat) (exponent : Int) : Int :=
  let n : Int := (mantissa * Nat.pow 2 (exponent - unit).toNat : Nat)
  if negative then -n else n

/-- Compares as numbers; a NaN compares with nothing. The two zeros are equal. -/
def compare? : Double → Double → Option Ordering
  | nan, _ => none
  | _, nan => none
  | infinity a, infinity b => some (compare b a)
  | infinity a, finite .. => some (if a then .lt else .gt)
  | finite .., infinity b => some (if b then .gt else .lt)
  | finite s m e, finite t n f =>
    let unit := min e f
    some (compare (signedIn unit s m e) (signedIn unit t n f))

def eq (a b : Double) : Bool :=
  compare? a b == some .eq

def isFinite : Double → Bool
  | finite .. => true
  | _ => false

def isNaN : Double → Bool
  | nan => true
  | _ => false

def isZero : Double → Bool
  | finite _ 0 _ => true
  | _ => false

def toInt? : Double → Option Int
  | finite negative m e =>
    let signed := fun (n : Nat) => if negative then -(n : Int) else n
    if 0 ≤ e then some (signed (m * Nat.pow 2 e.toNat))
    else if m % Nat.pow 2 (-e).toNat = 0 then some (signed (m / Nat.pow 2 (-e).toNat))
    else none
  | _ => none

end Double

end Stencil
