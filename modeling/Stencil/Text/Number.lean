import Stencil.Text.Blank
import Stencil.Text.Digit

set_option autoImplicit false

/-!
# Numbers in text

A decimal number is a sign, digits of any script with an optional point among or around them, and
an optional exponent; an integer in a base is a sign, an optional mark of the base, and digits.
Blanks may stand around a number. What is converted, and not only recognised, may not have
separator controls among these blanks.
-/

namespace Stencil.Text

/-- The number `± digits * 10 ^ scale`. -/
structure Decimal where
  negative : Bool
  digits : Nat
  scale : Int
  deriving Repr, DecidableEq

def takeSign : List Char → Bool × List Char
  | '-' :: cs => (true, cs)
  | '+' :: cs => (false, cs)
  | cs => (false, cs)

/-- Reads what may follow the digits: nothing, or an exponent with at least one digit. -/
def exponent? : List Char → Option Int
  | [] => some 0
  | c :: cs =>
    if c == 'e' || c == 'E' then
      let (negative, ds) := takeSign cs
      if ds.isEmpty || !ds.all isDigit then none
      else
        let n : Int := natOfDigits ds
        some (if negative then -n else n)
    else none

def bareDecimal? (cs : List Char) : Option Decimal :=
  let (negative, cs) := takeSign cs
  let whole := cs.takeWhile isDigit
  let afterWhole := cs.dropWhile isDigit
  let (fraction, rest) := match afterWhole with
    | '.' :: r => (r.takeWhile isDigit, r.dropWhile isDigit)
    | r => ([], r)
  if whole.isEmpty && fraction.isEmpty then none
  else (exponent? rest).map fun e =>
    ⟨negative, natOfDigits (whole ++ fraction), e - fraction.length⟩

def decimal? (cs : List Char) : Option Decimal :=
  bareDecimal? (trim cs)

def isSeparator (c : Char) : Bool :=
  decide (0x1c ≤ c.toNat) && decide (c.toNat ≤ 0x1f)

def isMargin (c : Char) : Bool :=
  isBlank c && !isSeparator c

def dropMargins (cs : List Char) : List Char :=
  ((cs.dropWhile isMargin).reverse.dropWhile isMargin).reverse

/-- The longest number, in digits, that is converted between text and integers. -/
def maxDigits : Nat := 4300

/-- The text of an integer, unless it is longer than any that is converted. -/
def intText? (n : Int) : Option String :=
  let ds := Nat.toDigits 10 n.natAbs
  if maxDigits < ds.length then none
  else some (String.ofList (if n < 0 then '-' :: ds else ds))

def digitIn? (base : Nat) (c : Char) : Option Nat :=
  let letter := fun (first : Char) =>
    if first ≤ c ∧ c.toNat < first.toNat + 26 then some (c.toNat - first.toNat + 10) else none
  (((digitValue? c).or (letter 'a')).or (letter 'A')).filter (· < base)

def baseMark? : Nat → Option Char
  | 2 => some 'b'
  | 8 => some 'o'
  | 16 => some 'x'
  | _ => none

def dropBaseMark (base : Nat) : List Char → List Char
  | '0' :: c :: cs => if (baseMark? base) == some c.toLower then cs else '0' :: c :: cs
  | cs => cs

inductive IntegerFault
  | malformed
  | tooLong (digits : Nat)
  deriving Repr, DecidableEq

/-- Reads an integer in a base. Only decimal digits are limited in number. -/
def integer (base : Nat) (cs : List Char) : Except IntegerFault Int :=
  let (negative, body) := takeSign (dropMargins cs)
  let body := dropBaseMark base body
  let digits := body.takeWhile fun c => (digitIn? base c).isSome
  if base = 10 ∧ maxDigits < digits.length then .error (.tooLong digits.length)
  else if digits.isEmpty || digits.length < body.length then .error .malformed
  else
    let n : Int := digits.foldl (fun n c => base * n + (digitIn? base c).getD 0) 0
    .ok (if negative then -n else n)

end Stencil.Text
