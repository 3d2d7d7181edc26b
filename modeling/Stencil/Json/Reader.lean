import Stencil.Value.Basic

set_option autoImplicit false

/-!
# Reading JSON

Besides the standard grammar the words `NaN`, `Infinity` and `-Infinity` are numbers. A number
without fraction and exponent is an integer of any size up to the conversion limit; a key that is
given twice keeps its first place and its last value.

An escape can stand for half of a pair of surrogates, which no text holds here. `read?` refuses such
an escape. Readers that accept it go on with a text that has no encoding; `halved` tells the texts
that they accept for that reason alone, so that nothing has to be said about them.
-/

namespace Stencil.Json

/-- What readers differ in: the character that half of a pair is read as, if it is read at all, and
whether the sign of an integer counts as one of its digits. -/
structure Rules where
  half? : Option Char
  signCounts : Bool

def Rules.strict : Rules := ⟨none, false⟩

def Rules.lenient : Rules := ⟨some '\ufffd', false⟩

def isSpace (c : Char) : Bool :=
  c == ' ' || c == '\t' || c == '\n' || c == '\r'

def skipSpace (cs : List Char) : List Char :=
  cs.dropWhile isSpace

def hexValue? (c : Char) : Option Nat :=
  if c.isDigit then some (c.toNat - 0x30)
  else if 'a' ≤ c ∧ c ≤ 'f' then some (c.toNat - 0x61 + 10)
  else if 'A' ≤ c ∧ c ≤ 'F' then some (c.toNat - 0x41 + 10)
  else none

def unit? (a b c d : Char) : Option Nat := do
  let a ← hexValue? a
  let b ← hexValue? b
  let c ← hexValue? c
  let d ← hexValue? d
  return 4096 * a + 256 * b + 16 * c + d

def escaped? (c : Char) : Option Char :=
  match c with
  | '"' => some '"'
  | '\\' => some '\\'
  | '/' => some '/'
  | 'b' => some '\x08'
  | 'f' => some '\x0c'
  | 'n' => some '\n'
  | 'r' => some '\r'
  | 't' => some '\t'
  | _ => none

/-- The character of a unit that is half of no pair. -/
def loneChar? (unit : Nat) : Option Char :=
  if 0xd800 ≤ unit ∧ unit < 0xe000 then none else some (Char.ofNat unit)

/-- The character that a unit without its other half is read as. -/
def Rules.char? (rules : Rules) (unit : Nat) : Option Char :=
  (loneChar? unit).or rules.half?

def pairChar? (high low : Nat) : Option Char :=
  if 0xd800 ≤ high ∧ high < 0xdc00 ∧ 0xdc00 ≤ low ∧ low < 0xe000 then
    some (Char.ofNat (0x10000 + 1024 * (high - 0xd800) + (low - 0xdc00)))
  else none

/-- Reads the characters of a string behind its opening quote, and the rest behind its closing
one. -/
def string? (rules : Rules) : List Char → Option (List Char × List Char)
  | [] => none
  | '"' :: rest => some ([], rest)
  | '\\' :: 'u' :: a :: b :: c :: d :: '\\' :: 'u' :: e :: f :: g :: h :: rest =>
    match unit? a b c d, unit? e f g h with
    | some high, some low =>
      match pairChar? high low with
      | some x => (string? rules rest).map fun (s, r) => (x :: s, r)
      | none =>
        match rules.char? high with
        | some x =>
          (string? rules ('\\' :: 'u' :: e :: f :: g :: h :: rest)).map fun (s, r) => (x :: s, r)
        | none => none
    | some _, none => none
    | none, _ => none
  | '\\' :: 'u' :: a :: b :: c :: d :: rest =>
    match (unit? a b c d).bind rules.char? with
    | some x => (string? rules rest).map fun (s, r) => (x :: s, r)
    | none => none
  | '\\' :: c :: rest =>
    match escaped? c with
    | some x => (string? rules rest).map fun (s, r) => (x :: s, r)
    | none => none
  | c :: rest =>
    if c.toNat < 0x20 || c == '\\' then none
    else (string? rules rest).map fun (s, r) => (c :: s, r)

/-- Reads the digits before the point: a zero alone, or digits that do not begin with one. -/
def whole? : List Char → Option (List Char × List Char)
  | '0' :: rest => some (['0'], rest)
  | c :: rest =>
    if c.isDigit then some (c :: rest.takeWhile Char.isDigit, rest.dropWhile Char.isDigit)
    else none
  | [] => none

def fraction : List Char → List Char × List Char
  | '.' :: c :: rest =>
    if c.isDigit then (c :: rest.takeWhile Char.isDigit, rest.dropWhile Char.isDigit)
    else ([], '.' :: c :: rest)
  | cs => ([], cs)

def exponentPart (cs : List Char) : Option Int × List Char :=
  match cs with
  | c :: rest =>
    if c == 'e' || c == 'E' then
      let (negative, ds) := Text.takeSign rest
      let digits := ds.takeWhile Char.isDigit
      if digits.isEmpty then (none, cs)
      else
        let n : Int := Text.natOfDigits digits
        (some (if negative then -n else n), ds.dropWhile Char.isDigit)
    else (none, cs)
  | [] => (none, [])

def unsigned? (rules : Rules) (negative : Bool) (cs : List Char) : Option (Value × List Char) :=
  match whole? cs with
  | none => none
  | some (whole, rest) =>
    let (frac, rest) := fraction rest
    let (exponent, rest) := exponentPart rest
    if frac.isEmpty && exponent.isNone then
      if Text.maxDigits < whole.length + (negative && rules.signCounts).toNat then none
      else
        let n : Int := Text.natOfDigits whole
        some (.int (if negative then -n else n), rest)
    else
      let scale := exponent.getD 0 - frac.length
      some (.float (.ofDecimal negative (Text.natOfDigits (whole ++ frac)) scale), rest)

def scalar? (rules : Rules) : List Char → Option (Value × List Char)
  | 'n' :: 'u' :: 'l' :: 'l' :: rest => some (.null, rest)
  | 't' :: 'r' :: 'u' :: 'e' :: rest => some (.bool true, rest)
  | 'f' :: 'a' :: 'l' :: 's' :: 'e' :: rest => some (.bool false, rest)
  | 'N' :: 'a' :: 'N' :: rest => some (.float .nan, rest)
  | 'I' :: 'n' :: 'f' :: 'i' :: 'n' :: 'i' :: 't' :: 'y' :: rest =>
    some (.float (.infinity false), rest)
  | '-' :: 'I' :: 'n' :: 'f' :: 'i' :: 'n' :: 'i' :: 't' :: 'y' :: rest =>
    some (.float (.infinity true), rest)
  | '-' :: rest => unsigned? rules true rest
  | cs => unsigned? rules false cs

def key? (rules : Rules) : List Char → Option (Key × List Char)
  | '"' :: rest =>
    match string? rules rest with
    | none => none
    | some (s, rest) =>
      match skipSpace rest with
      | ':' :: rest => some (.str (String.ofList s), skipSpace rest)
      | _ => none
  | _ => none

mutual

/-- Reads one value. Every step uses up fuel, of which the length of the text is enough; `depth`
is how many containers may still be opened inside one another. -/
def value? (rules : Rules) (fuel depth : Nat) (cs : List Char) : Option (Value × List Char) :=
  match fuel with
  | 0 => none
  | fuel + 1 =>
    match cs with
    | '"' :: rest => (string? rules rest).map fun (s, r) => (.str (String.ofList s), r)
    | '[' :: rest =>
      match skipSpace rest, depth with
      | ']' :: rest, _ => some (.list [], rest)
      | _, 0 => none
      | rest, depth + 1 => (items? rules fuel depth rest).map fun (vs, r) => (.list vs, r)
    | '{' :: rest =>
      match skipSpace rest, depth with
      | '}' :: rest, _ => some (.map [], rest)
      | _, 0 => none
      | rest, depth + 1 =>
        (members? rules fuel depth rest).map fun (es, r) => (.map (Mapping.ofList es), r)
    | cs => scalar? rules cs

def items? (rules : Rules) (fuel depth : Nat) (cs : List Char) : Option (List Value × List Char) :=
  match fuel with
  | 0 => none
  | fuel + 1 =>
    match value? rules fuel depth cs with
    | none => none
    | some (v, rest) =>
      match skipSpace rest with
      | ']' :: rest => some ([v], rest)
      | ',' :: rest => (items? rules fuel depth (skipSpace rest)).map fun (vs, r) => (v :: vs, r)
      | _ => none

def members? (rules : Rules) (fuel depth : Nat) (cs : List Char) :
    Option (List (Key × Value) × List Char) :=
  match fuel with
  | 0 => none
  | fuel + 1 =>
    match key? rules cs with
    | none => none
    | some (k, rest) =>
      match value? rules fuel depth rest with
      | none => none
      | some (v, rest) =>
        match skipSpace rest with
        | '}' :: rest => some ([(k, v)], rest)
        | ',' :: rest =>
          (members? rules fuel depth (skipSpace rest)).map fun (es, r) => ((k, v) :: es, r)
        | _ => none

end

/-- Reads a text that is one JSON value, with containers nested at most `depth` deep. -/
def readNested? (rules : Rules) (depth : Nat) (cs : List Char) : Option Value :=
  match value? rules (2 * cs.length + 2) depth (skipSpace cs) with
  | some (v, rest) => if (skipSpace rest).isEmpty then some v else none
  | none => none

def read? (s : String) : Option Value :=
  readNested? .strict s.length s.toList

/-- Whether a text is JSON only for readers that accept half of a pair. -/
def halved (s : String) : Bool :=
  (read? s).isNone && (readNested? .lenient s.length s.toList).isSome

end Stencil.Json
