import Stencil.Double

set_option autoImplicit false

/-!
# Sums and products of doubles

The exact result is rounded to the nearest double.
-/

namespace Stencil.Double

/-- The double nearest to a mantissa times a power of two. -/
def ofScaled (negative : Bool) (mantissa : Nat) (exponent : Int) : Double :=
  if 0 ≤ exponent then ofRatio negative (mantissa * Nat.pow 2 exponent.toNat) 1
  else ofRatio negative mantissa (Nat.pow 2 (-exponent).toNat)

def neg : Double → Double
  | nan => nan
  | infinity s => infinity !s
  | finite s m e => finite (!s) m e

def isNegative : Double → Bool
  | finite s _ _ => s
  | infinity s => s
  | nan => false

def add : Double → Double → Double
  | nan, _ => nan
  | _, nan => nan
  | infinity s, infinity t => if s == t then infinity s else nan
  | infinity s, finite .. => infinity s
  | finite .., infinity t => infinity t
  | finite s m e, finite t n f =>
    let unit := min e f
    let sum := signedIn unit s m e + signedIn unit t n f
    if sum = 0 then zero (s && t) else ofScaled (decide (sum < 0)) sum.natAbs unit

def mul : Double → Double → Double
  | nan, _ => nan
  | _, nan => nan
  | infinity s, y => if y.isZero then nan else infinity (s != y.isNegative)
  | x, infinity t => if x.isZero then nan else infinity (x.isNegative != t)
  | finite s m e, finite t n f => ofScaled (s != t) (m * n) (e + f)

end Stencil.Double
