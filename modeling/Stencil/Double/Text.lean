import Stencil.Double.Shortest

set_option autoImplicit false

/-!
# The text of a double

The shortest digits, laid out with a point where the number is neither very large nor very small
and with an exponent elsewhere.
-/

namespace Stencil.Double

/-- Where the layouts of numbers part, and how the special ones are spelled. -/
structure Layout where
  firstPositional : Int
  lastPositional : Int
  exponentWidth : Nat
  nan : String
  infinity : String

/-- Numbers from `0.0001` up to sixteen digits before the point are written with a point, and a
whole number keeps one digit behind it. -/
def plain : Layout := ⟨-3, 16, 2, "nan", "inf"⟩

def zeros (n : Nat) : List Char :=
  List.replicate n '0'

def exponentText (width : Nat) (e : Int) : List Char :=
  let ds := Nat.toDigits 10 e.natAbs
  (if e < 0 then '-' else '+') :: zeros (width - ds.length) ++ ds

def layOut (layout : Layout) (digits : List Char) (point : Int) : List Char :=
  if layout.firstPositional ≤ point ∧ point ≤ layout.lastPositional then
    if point ≤ 0 then '0' :: '.' :: zeros (-point).toNat ++ digits
    else
      let n := point.toNat
      if digits.length ≤ n then digits ++ zeros (n - digits.length) ++ ['.', '0']
      else digits.take n ++ '.' :: digits.drop n
  else
    let mantissa := match digits with
      | [] => ['0']
      | [d] => [d]
      | d :: ds => d :: '.' :: ds
    mantissa ++ 'e' :: exponentText layout.exponentWidth (point - 1)

def dropTrailingZeros (cs : List Char) : List Char :=
  (cs.reverse.dropWhile (· == '0')).reverse

def signed (negative : Bool) (cs : List Char) : String :=
  String.ofList (if negative then '-' :: cs else cs)

def textWith (layout : Layout) : Double → String
  | nan => layout.nan
  | infinity negative => signed negative layout.infinity.toList
  | finite negative 0 _ => signed negative ['0', '.', '0']
  | finite negative m e =>
    let (digits, scale) := shortest m e
    let ds := Nat.toDigits 10 digits
    signed negative (layOut layout (dropTrailingZeros ds) (ds.length + scale))

def text (x : Double) : String :=
  x.textWith plain

end Stencil.Double
