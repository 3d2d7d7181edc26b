set_option autoImplicit false

/-!
# Base 64

Every character of the alphabet stands for six bits, and characters outside it are skipped. Marks
of padding end the text where they complete a group of four that holds a byte; elsewhere they are
skipped as well.
-/

namespace Stencil.Text

def sextet? (c : Char) : Option Nat :=
  if 'A' ≤ c ∧ c ≤ 'Z' then some (c.toNat - 65)
  else if 'a' ≤ c ∧ c ≤ 'z' then some (c.toNat - 71)
  else if '0' ≤ c ∧ c ≤ '9' then some (c.toNat + 4)
  else if c = '+' then some 62
  else if c = '/' then some 63
  else none

/-- Reads on in a group of which `place` characters are read, which have left `bits` over, and
behind `pads` marks of padding. -/
def base64From? (place bits pads : Nat) : List Char → Option (List UInt8)
  | [] => if place = 0 then some [] else none
  | c :: cs =>
    if c = '=' then
      if 2 ≤ place then
        if 4 ≤ place + pads + 1 then some [] else base64From? place bits (pads + 1) cs
      else base64From? place bits pads cs
    else
      match sextet? c with
      | none => base64From? place bits pads cs
      | some v =>
        let byte := fun (n : Nat) => List.cons (UInt8.ofNat n)
        match place with
        | 0 => base64From? 1 v 0 cs
        | 1 => (base64From? 2 (v % 16) 0 cs).map (byte (4 * bits + v / 16))
        | 2 => (base64From? 3 (v % 4) 0 cs).map (byte (16 * bits + v / 4))
        | _ => (base64From? 0 0 0 cs).map (byte (64 * bits + v))

/-- The bytes that a text stands for, unless its last group is incomplete. -/
def decodeBase64? (cs : List Char) : Option (List UInt8) :=
  base64From? 0 0 0 cs

end Stencil.Text
