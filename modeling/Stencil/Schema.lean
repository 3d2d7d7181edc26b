import Stencil.Json.Text
import Stencil.Value.Display

set_option autoImplicit false

/-!
# Schemas

What data has to look like to be taken for a record. A shape takes a value as it is or turns it
into the one value it stands for: a number stands for its text where a text is wanted, and nothing
else is converted. A value that a shape does not take is refused with the place it stands at.
-/

namespace Stencil

inductive Shape
  /-- Anything. A type that has no rule of its own asks for nothing either. -/
  | any
  | bool
  | text
  | mapping (key value : Shape)
  | oneOf (choices : List Atom)
  deriving Repr

namespace Shape

def complaint : Shape → String → String → CoercionFault
  | oneOf choices, _, shown => .notOneOf (inParentheses (choices.map Atom.display)) shown
  | bool, type, _ => .notBool type
  | text, type, _ => .notText type
  | _, type, _ => .notMapping type

def refuseAtom (s : Shape) (path : List String) (a : Atom) : Except Failure Atom :=
  .error (.coercion path (s.complaint (Value.atom a).typeName a.display))

/-- The text of a text or a number. -/
def asText (path : List String) : Atom → Except Failure Atom
  | .str s => .ok (.str s)
  | .int n => (Json.ofInt n).map fun cs => .str (String.ofList cs)
  | .float x => .ok (.str x.text)
  | a => refuseAtom text path a

def fitAtom (path : List String) : Shape → Atom → Except Failure Atom
  | any, a => .ok a
  | bool, .bool b => .ok (.bool b)
  | text, a => asText path a
  | oneOf choices, a =>
    if choices.any (Atom.same a) then .ok a else refuseAtom (oneOf choices) path a
  | s, a => refuseAtom s path a

def fitKey (path : List String) : Shape → Key → Except Failure Key
  | any, k => .ok k
  | s, .atom a => (fitAtom path s a).map .atom
  | s, .row items => .error (.coercion path (s.complaint "tuple" (Key.row items).display))

/-- The value as the shape wants it. Entries of a mapping are taken in order, and of entries whose
keys become the same the last one wins. -/
def fit : Shape → List String → Value → Except Failure Value
  | any, _, v => .ok v
  | mapping keys values, path, .map entries | mapping keys values, path, .ordered entries => do
    let fitted ← entries.foldlM (fun (done : Mapping) entry => do
      let k ← fitKey (path ++ ["<key>"]) keys entry.1
      let v ← fit values (path ++ [k.text]) entry.2
      return Mapping.insert k v done) []
    return .map fitted
  | s, path, .atom a => (fitAtom path s a).map .atom
  | s, path, v => .error (.coercion path (s.complaint v.typeName v.display))

end Shape

/-- A part of a record. Without a default it has to be there. -/
structure Field where
  name : String
  shape : Shape
  default? : Option Value

structure Schema where
  name : String
  fields : List Field

namespace Atom

def number? : Atom → Option Double
  | bool b => some (.finite false b.toNat 0)
  | int n => some (.finite (decide (n < 0)) n.natAbs 0)
  | float x => some x
  | _ => none

/-- How two atoms are ordered, if they can be: numbers by size, texts by code points, bytes by
number, days and moments in time. -/
def order? : Atom → Atom → Option Ordering
  | str a, str b => some (compare a b)
  | bytes a, bytes b => some (compare (a.map UInt8.toNat) (b.map UInt8.toNat))
  | date a, date b => some (a.order b)
  | moment a, moment b => some (a.order b)
  | a, b =>
    match a.number?, b.number? with
    | some x, some y => some ((x.compare? y).getD .eq)
    | _, _ => none

end Atom

namespace Key

mutual

def order? : Key → Key → Option Ordering
  | atom a, atom b => a.order? b
  | row as, row bs => orderRow? as bs
  | _, _ => none

def orderRow? : List Key → List Key → Option Ordering
  | [], [] => some .eq
  | [], _ => some .lt
  | _, [] => some .gt
  | a :: as, b :: bs => if a.same b then orderRow? as bs else order? a b

end

def sort? (keys : List Key) : Option (List Key) :=
  if keys.Pairwise fun a b => (a.order? b).isSome then
    some (keys.mergeSort fun a b => a.order? b != some .gt)
  else none

end Key

namespace Schema

def unexpected (s : Schema) (entries : Mapping) : List Key :=
  (entries.map Prod.fst).filter fun k => !s.fields.any fun f => k.same (.str f.name)

def readField (entries : Mapping) (f : Field) : Except Failure (Key × Value) :=
  match Mapping.lookup? f.name entries with
  | some v => (f.shape.fit [f.name] v).map fun w => (.str f.name, w)
  | none =>
    match f.default? with
    | some d => .ok (.str f.name, d)
    | none => .error (.coercion [f.name] .missingField)

/-- A failure to read a record is one of coercion, whatever its cause. -/
def asCoercion (s : Schema) : Failure → Failure
  | .coercion path fault => .coercion path fault
  | f => .coercion [] (.unbuildable s.name f.message)

def read (s : Schema) : Value → Except Failure Mapping
  | .map entries | .ordered entries =>
    match s.unexpected entries with
    | [] => (s.fields.mapM (readField entries)).mapError s.asCoercion
    | extras =>
      match Key.sort? extras with
      | some keys =>
        .error (.coercion [] (.unexpectedKeys
          ("[" ++ ", ".intercalate (keys.map Key.display) ++ "]")))
      | none => .error (.coercion [] (.unbuildable s.name "keys have no common order"))
  | v => .error (.coercion [] (.notMappingFor s.name v.typeName))

end Schema

end Stencil
