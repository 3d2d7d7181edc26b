import Stencil.Calendar
import Stencil.Double.Text
import Stencil.Text.Number

set_option autoImplicit false

/-!
# Values

The data that templates are compiled against: what a variables file, the command line, a `meta`
default or a render call can bind to a name. Mappings keep the order in which their keys were
first bound. Keys are atoms or rows of keys, and two keys are the same when they are equal as
values: the numbers `1` and `1.0` and the truth value `true` are one key.
-/

namespace Stencil

inductive Atom
  | null
  | bool (b : Bool)
  | int (n : Int)
  | float (x : Double)
  | str (s : String)
  | bytes (bs : List UInt8)
  | date (d : Date)
  | moment (m : Moment)
  deriving Repr, DecidableEq

inductive Key
  | atom (a : Atom)
  | row (items : List Key)
  deriving Repr

/-- A value. An `ordered` mapping is written as a list of its entries, but it is used like any
other; a `pair` is an entry that is not part of a mapping. -/
inductive Value
  | atom (a : Atom)
  | list (items : List Value)
  | pair (first second : Value)
  | map (entries : List (Key × Value))
  | ordered (entries : List (Key × Value))
  | set (members : List Key)
  deriving Repr

instance : Inhabited Key := ⟨.atom .null⟩

instance : Inhabited Value := ⟨.atom .null⟩

abbrev Mapping := List (Key × Value)

namespace Atom

def toInt? : Atom → Option Int
  | bool b => some b.toNat
  | int n => some n
  | float x => x.toInt?
  | _ => none

/-- Equality of values: numbers and truth values are compared as numbers, exactly. -/
def same : Atom → Atom → Bool
  | null, null => true
  | str a, str b => a == b
  | bytes a, bytes b => a == b
  | date a, date b => a == b
  | moment a, moment b => a == b
  | float a, float b => a.eq b
  | a, b =>
    match a.toInt?, b.toInt? with
    | some m, some n => m == n
    | _, _ => false

end Atom

namespace Key

def str (s : String) : Key := atom (.str s)

mutual

def same : Key → Key → Bool
  | atom a, atom b => a.same b
  | row as, row bs => sameRow as bs
  | _, _ => false

def sameRow : List Key → List Key → Bool
  | [], [] => true
  | a :: as, b :: bs => same a b && sameRow as bs
  | _, _ => false

end

end Key

namespace Mapping

def get? (k : Key) : Mapping → Option Value
  | [] => none
  | (k', v) :: rest => if k'.same k then some v else get? k rest

def contains (k : Key) (m : Mapping) : Bool :=
  (get? k m).isSome

/-- Binds a key: in its old place if it was bound, at the end if not. -/
def insert (k : Key) (v : Value) : Mapping → Mapping
  | [] => [(k, v)]
  | (k', v') :: rest => if k'.same k then (k', v) :: rest else (k', v') :: insert k v rest

def overlay (upper lower : Mapping) : Mapping :=
  upper.foldl (fun m (k, v) => insert k v m) lower

/-- The mapping of a list of bindings, the last one winning for each key. -/
def ofList (bindings : List (Key × Value)) : Mapping :=
  overlay bindings []

def lookup? (name : String) (m : Mapping) : Option Value :=
  get? (.str name) m

end Mapping

namespace Value

@[match_pattern] abbrev null : Value := atom .null

@[match_pattern] abbrev bool (b : Bool) : Value := atom (.bool b)

@[match_pattern] abbrev int (n : Int) : Value := atom (.int n)

@[match_pattern] abbrev float (x : Double) : Value := atom (.float x)

@[match_pattern] abbrev str (s : String) : Value := atom (.str s)

mutual

/-- Equality of values. Mappings are equal when they bind the same keys to equal values, in
whatever order. -/
def same : Value → Value → Bool
  | atom a, atom b => a.same b
  | list as, list bs => sameAll as bs
  | pair a b, pair c d => same a c && same b d
  | map as, map bs | map as, ordered bs | ordered as, map bs | ordered as, ordered bs =>
    as.length == bs.length && sameWithin as bs
  | set as, set bs => as.length == bs.length && as.all fun a => bs.any fun b => a.same b
  | _, _ => false

def sameAll : List Value → List Value → Bool
  | [], [] => true
  | a :: as, b :: bs => same a b && sameAll as bs
  | _, _ => false

def sameWithin : List (Key × Value) → Mapping → Bool
  | [], _ => true
  | (k, v) :: rest, bs =>
    (match Mapping.get? k bs with
      | some w => same v w
      | none => false) && sameWithin rest bs

end

def entries? : Value → Option Mapping
  | map entries | ordered entries => some entries
  | _ => none

def items? : Value → Option (List Value)
  | list items => some items
  | pair a b => some [a, b]
  | _ => none

def filled : Value → Bool
  | null => false
  | bool b => b
  | int n => n != 0
  | float x => !x.isZero
  | str s => !s.isEmpty
  | atom (.bytes bs) => !bs.isEmpty
  | atom (.date _) | atom (.moment _) => true
  | list items => !items.isEmpty
  | pair .. => true
  | map entries | ordered entries => !entries.isEmpty
  | set members => !members.isEmpty

/-- What a condition without comparison asks: something is there, and it is not NaN. -/
def truthy : Value → Bool
  | float x => !x.isNaN && !x.isZero
  | v => v.filled

def typeName : Value → String
  | null => "NoneType"
  | bool _ => "bool"
  | int _ => "int"
  | float _ => "float"
  | str _ => "str"
  | atom (.bytes _) => "bytes"
  | atom (.date _) => "date"
  | atom (.moment _) => "datetime"
  | list _ => "list"
  | pair .. => "tuple"
  | map _ => "dict"
  | ordered _ => "ordereddict"
  | set _ => "set"

def numeric : Value → Bool
  | int _ => true
  | float x => x.isFinite
  | str s => (Text.decimal? s.toList).isSome
  | _ => false

end Value

end Stencil
