set_option autoImplicit false

/-!
# Reading UTF-8

Bytes are read one at a time. A character that is begun keeps the range in which its next byte
has to lie, so overlong forms, surrogates and code points past the last plane are refused at the
first byte that rules them out.
-/

namespace Stencil.Text

/-- Why a sequence of bytes is not UTF-8, with the first byte of the faulty stretch and the
position after its last. -/
inductive Utf8Fault
  | startByte (byte position : Nat)
  | continuation (byte start stop : Nat)
  | endOfData (byte start stop : Nat)
  deriving Repr, DecidableEq

namespace Utf8Fault

def place (byte start stop : Nat) : String :=
  if stop = start + 1 then
    "byte 0x" ++ String.ofList (Nat.toDigits 16 byte) ++ " in position " ++ toString start
  else
    "bytes in position " ++ toString start ++ "-" ++ toString (stop - 1)

def message : Utf8Fault → String
  | startByte b p =>
    "'utf-8' codec can't decode " ++ place b p (p + 1) ++ ": invalid start byte"
  | continuation b s e =>
    "'utf-8' codec can't decode " ++ place b s e ++ ": invalid continuation byte"
  | endOfData b s e =>
    "'utf-8' codec can't decode " ++ place b s e ++ ": unexpected end of data"

end Utf8Fault

/-- A character whose first bytes are read: where it began, with which byte, how many bytes are
owed, the range of the next one, and the code point so far. -/
structure Utf8Pending where
  start : Nat
  first : Nat
  owed : Nat
  low : Nat
  high : Nat
  point : Nat

def utf8Begin (position byte : Nat) : Option Utf8Pending :=
  if 0xc2 ≤ byte ∧ byte ≤ 0xdf then some ⟨position, byte, 1, 0x80, 0xbf, byte - 0xc0⟩
  else if byte = 0xe0 then some ⟨position, byte, 2, 0xa0, 0xbf, 0⟩
  else if byte = 0xed then some ⟨position, byte, 2, 0x80, 0x9f, 0xd⟩
  else if 0xe1 ≤ byte ∧ byte ≤ 0xef then some ⟨position, byte, 2, 0x80, 0xbf, byte - 0xe0⟩
  else if byte = 0xf0 then some ⟨position, byte, 3, 0x90, 0xbf, 0⟩
  else if 0xf1 ≤ byte ∧ byte ≤ 0xf3 then some ⟨position, byte, 3, 0x80, 0xbf, byte - 0xf0⟩
  else if byte = 0xf4 then some ⟨position, byte, 3, 0x80, 0x8f, 4⟩
  else none

/-- Reads bytes from `position` on; characters read so far stand in reverse. -/
def utf8From (position : Nat) (pending : Option Utf8Pending) (done : List Char) :
    List UInt8 → Except Utf8Fault (List Char)
  | [] =>
    match pending with
    | none => .ok done.reverse
    | some p => .error (.endOfData p.first p.start position)
  | b :: bs =>
    let byte := b.toNat
    match pending with
    | none =>
      if byte < 0x80 then utf8From (position + 1) none (Char.ofNat byte :: done) bs
      else
        match utf8Begin position byte with
        | some p => utf8From (position + 1) (some p) done bs
        | none => .error (.startByte byte position)
    | some p =>
      if p.low ≤ byte ∧ byte ≤ p.high then
        let point := 64 * p.point + (byte - 0x80)
        if p.owed ≤ 1 then utf8From (position + 1) none (Char.ofNat point :: done) bs
        else
          utf8From (position + 1)
            (some { p with owed := p.owed - 1, low := 0x80, high := 0xbf, point := point }) done bs
      else .error (.continuation p.first p.start position)

def decodeUtf8 (bytes : List UInt8) : Except Utf8Fault (List Char) :=
  utf8From 0 none [] bytes

end Stencil.Text
