import Stencil.Double.Arithmetic
import Stencil.Double.Reader
import Stencil.Text.Base64
import Stencil.Text.Lower
import Stencil.Value.Basic
import Stencil.Yaml.Tag

set_option autoImplicit false

/-!
# The atoms that YAML scalars stand for

Numbers may hold underscores, which count for nothing. Before version 1.2 a leading zero made a
number octal, and colons divided a number into groups of sixty. These are the rules by which the
safe loader of `ruamel.yaml` makes scalars.
-/

namespace Stencil.Yaml

def colonParts (cs : List Char) : List (List Char) :=
  cs.foldr (fun c parts =>
    if c == ':' then [] :: parts
    else
      match parts with
      | part :: rest => (c :: part) :: rest
      | [] => [[c]]) [[]]

def integerIn (base : Nat) (cs : List Char) : Except Failure Int :=
  match Text.integer base cs with
  | .ok n => .ok n
  | .error .malformed => .error (.notAnInteger base (String.ofList cs))
  | .error (.tooLong n) => .error (.tooManyDigits (some n))

def sexagesimalInt (cs : List Char) : Except Failure Int := do
  let parts ← (colonParts cs).mapM (integerIn 10)
  return parts.foldl (fun n d => 60 * n + d) 0

def magnitude (modern : Bool) : List Char → Except Failure Int
  | '0' :: 'b' :: ds => integerIn 2 ds
  | '0' :: 'x' :: ds => integerIn 16 ds
  | '0' :: 'o' :: ds => integerIn 8 ds
  | cs =>
    if modern then integerIn 10 cs
    else
      match cs with
      | [] => .error .emptyNumber
      | c :: _ =>
        if c == '0' then integerIn 8 cs
        else if cs.contains ':' then sexagesimalInt cs
        else integerIn 10 cs

def readInt (modern : Bool) (text : List Char) : Except Failure Int :=
  match text.filter (· != '_') with
  | [] => .error .emptyNumber
  | cs =>
    let (negative, body) := Text.takeSign cs
    (magnitude modern body).map fun n => if negative then -n else n

def readDouble (cs : List Char) : Except Failure Double :=
  match Double.ofText? cs with
  | some x => .ok x
  | none => .error (.notANumber (String.ofList cs))

def powerOfSixty (k : Nat) : Except Failure Double :=
  match Double.ofInt? (Nat.pow 60 k : Nat) with
  | some x => .ok x
  | none => .error .tooLarge

/-- The number that parts write in groups of sixty, summed from the last part on. -/
def sexagesimalDouble (cs : List Char) : Except Failure Double := do
  let parts ← (colonParts cs).mapM readDouble
  let (sum, _) ← parts.reverse.foldlM (fun (sum, k) x => do
    let power ← powerOfSixty k
    return (Double.add sum (Double.mul x power), k + 1)) (Double.zero false, 0)
  return sum

def readFloat (modern : Bool) (text : List Char) : Except Failure Double :=
  match Text.lower (text.filter (· != '_')) with
  | [] => .error .emptyNumber
  | cs =>
    let (negative, body) := Text.takeSign cs
    let signed := fun (x : Double) => if negative then x.neg else x
    match String.ofList body with
    | ".inf" => .ok (.infinity negative)
    | ".nan" => .ok .nan
    | _ =>
      if !modern && body.contains ':' then (sexagesimalDouble body).map signed
      else if !modern && 1 < body.count 'e' then .error .severalExponents
      else (readDouble body).map signed

def readBool (s : String) : Except Failure Bool :=
  let word := s.toLower
  if ["true", "yes", "y", "on"].contains word then .ok true
  else if ["false", "no", "n", "off"].contains word then .ok false
  else .error (.notATruthValue s)

def readBytes (text : List Char) : Except Fault (List UInt8) :=
  if text.all fun c => c.toNat < 0x80 then Fault.require (Text.decodeBase64? text)
  else .error .notYaml

def readTimestamp (text : List Char) : Except Fault Atom :=
  match Timestamp.ofText? (Tag.withoutFinalBreak text) with
  | none => .error .notYaml
  | some ⟨date, none⟩ => Fault.lift (Timestamp.check date.fault? (.date date))
  | some ⟨date, some clock⟩ => Fault.lift ((Timestamp.moment date clock).map .moment)

def readAtom (modern : Bool) (tag : Tag) (s : String) : Except Fault Atom :=
  let text := s.toList
  match tag with
  | .null => .ok .null
  | .bool => Fault.lift ((readBool s).map .bool)
  | .int => Fault.lift ((readInt modern text).map .int)
  | .float => Fault.lift ((readFloat modern text).map .float)
  | .binary => (readBytes text).map .bytes
  | .timestamp => readTimestamp text
  | .text => .ok (.str s)
  | _ => .error .notYaml

end Stencil.Yaml
