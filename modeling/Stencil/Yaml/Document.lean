import Stencil.Yaml.Atom
import Stencil.Yaml.Node

set_option autoImplicit false

/-!
# The values of YAML documents

A collection is made empty and filled later, all collections of one round before those that were
made in it; so a collection can be used, even inside itself, before its parts are known. Keys
have to be known at once, and so everything inside a key is filled where it stands. Keys have to
be distinct as values. The key `<<` merges other mappings in; what the mapping binds itself wins
over what is merged, and of several mappings the earlier one wins.

All this is as the safe loader of `ruamel.yaml` makes values, which is narrower than YAML in that it
refuses tags that it does not know and keys that are given twice. A collection that holds itself has
a value there, and none here.
-/

namespace Stencil.Yaml

/-- A value in the making: an atom, with a number that tells one NaN from another, the collection
of a node, or an entry that is part of a list. -/
inductive Datum
  | atom (a : Atom) (origin : Nat)
  | collection (i : Nat)
  | pair (first second : Datum)

inductive Label
  | atom (a : Atom) (origin : Nat)
  | row (items : List Label)

inductive Holding
  | list (items : List Datum)
  | map (entries : List (Label × Datum))
  | ordered (entries : List (Label × Datum))
  | set (members : List Label)

namespace Label

mutual

/-- Equality of keys. Every NaN equals itself, though no other. -/
def same : Label → Label → Bool
  | atom (.float .nan) i, atom (.float .nan) j => i == j
  | atom a _, atom b _ => a.same b
  | row as, row bs => sameRow as bs
  | _, _ => false

def sameRow : List Label → List Label → Bool
  | [], [] => true
  | a :: as, b :: bs => same a b && sameRow as bs
  | _, _ => false

end

mutual

def key : Label → Key
  | atom a _ => .atom a
  | row items => .row (keys items)

def keys : List Label → List Key
  | [] => []
  | k :: ks => key k :: keys ks

end

def insert (k : Label) (d : Datum) : List (Label × Datum) → List (Label × Datum)
  | [] => [(k, d)]
  | (k', d') :: rest => if k'.same k then (k', d) :: rest else (k', d') :: insert k d rest

def isBound (k : Label) (entries : List (Label × Datum)) : Bool :=
  entries.any fun e => e.1.same k

end Label

def Datum.label? : Datum → Option Label
  | atom a origin => some (.atom a origin)
  | collection _ => none
  | pair a b => do
    let a ← a.label?
    let b ← b.label?
    return .row [a, b]

/-- The nodes, the data made so far, the nodes that are being made, what the collections hold, and
the collections to be filled in the next round, last one first. -/
structure Making where
  nodes : Array Node
  modern : Bool
  made : Array (Option Datum)
  busy : List Nat
  holdings : Array Holding
  waiting : List Nat

abbrev Make (α : Type) := StateT Making (Except Fault) α

namespace Make

def refuse {α : Type} : Make α :=
  throw .notYaml

def fail {α : Type} (f : Failure) : Make α :=
  throw (.noValue f)

def node (i : Nat) : Make Node := do
  match (← get).nodes[i]? with
  | some n => return n
  | none => refuse

def setNode (i : Nat) (n : Node) : Make Unit :=
  modify fun s => { s with nodes := s.nodes.setIfInBounds i n }

/-! ### Merging -/

/-- The entries that merging a node adds, once its own merges are done by `flat`. -/
def sources (flat : Nat → Make Unit) (i : Nat) : Make (List (Nat × Nat)) := do
  match (← node i).content with
  | .mapping _ => entriesOf i
  | .sequence items =>
    let lists ← items.mapM entriesOf
    return lists.reverse.flatten
  | .scalar _ => refuse
where
  entriesOf (i : Nat) : Make (List (Nat × Nat)) := do
    match (← node i).content with
    | .mapping _ =>
      flat i
      match (← node i).content with
      | .mapping entries => return entries
      | _ => refuse
    | _ => refuse

/-- Takes the merges out of a mapping, from an entry on, and gives what they add. An equals sign as
a key becomes a text. -/
def takeMerges (flat : Nat → Make Unit) (i : Nat) :
    Nat → Nat → List (Nat × Nat) → Make (List (Nat × Nat))
  | 0, _, added => return added
  | steps + 1, place, added => do
    let n ← node i
    match n.content with
    | .mapping entries =>
      match entries[place]? with
      | none => return added
      | some (k, v) =>
        let keyNode ← node k
        match keyNode.tag with
        | .merge =>
          unless added.isEmpty do refuse
          setNode i { n with content := .mapping (entries.eraseIdx place) }
          takeMerges flat i steps place (added ++ (← sources flat v))
        | .value =>
          setNode k { keyNode with tag := .text }
          takeMerges flat i steps (place + 1) added
        | _ => takeMerges flat i steps (place + 1) added
    | _ => return added

/-- Puts the entries that a mapping merges in before its own. Every merge is taken out before its
sources are looked at, so the number of entries is fuel enough. -/
def flatten : Nat → Nat → Make Unit
  | 0, _ => fail .endless
  | fuel + 1, i => do
    match (← node i).content with
    | .mapping entries =>
      let added ← takeMerges (flatten fuel) i entries.length 0 []
      unless added.isEmpty do
        let n ← node i
        if let .mapping own := n.content then
          setNode i { n with content := .mapping (added ++ own), merged := true }
    | _ => return ()

def mergeFuel : Make Nat := do
  return (← get).nodes.foldl (fun total n =>
    match n.content with
    | .mapping entries => total + entries.length
    | _ => total) 1

/-! ### Atoms -/

/-- The text of a scalar; a mapping that binds an equals sign stands for what it binds to it. -/
def textOf : Nat → Nat → Make String
  | 0, _ => fail .nestedTooDeeply
  | fuel + 1, i => do
    match (← node i).content with
    | .scalar text => return text
    | .mapping entries =>
      match ← entries.findM? fun (k, _) => return (← node k).tag == .value with
      | some (_, v) => textOf fuel v
      | none => refuse
    | .sequence _ => refuse

def atomText (n : Node) (i : Nat) : Make String :=
  match n.tag, n.content with
  | .timestamp, .scalar text => return text
  | .timestamp, _ | .merge, _ | .value, _ | .unknown, _ => refuse
  | _, _ => do textOf ((← get).nodes.size + 1) i

/-- The atom of a node. A NaN that is written with a point is the same everywhere. -/
def atom (n : Node) (i : Nat) : Make Datum := do
  let text ← atomText n i
  let a ← readAtom (← get).modern n.tag text
  return .atom a (if text.contains '.' then 0 else i + 1)

/-! ### Collections -/

/-- The datum as a key: a list becomes the row of what it holds, which has to be checked when the
value is known. -/
def keyItems (d : Datum) : Make (List Datum ⊕ Label) := do
  match d with
  | .atom a origin => return .inr (.atom a origin)
  | .pair a b => return .inl [a, b]
  | .collection i =>
    match (← get).holdings[i]? with
    | some (.list items) => return .inl items
    | _ => refuse

def label : List Datum ⊕ Label → Make Label
  | .inr k => return k
  | .inl items =>
    match items.mapM Datum.label? with
    | some labels => return .row labels
    | none => fail .unhashable

/-- Binds entries in order; with `distinct` no key may come twice. Keys are made in full, values
as `make` makes them. -/
def bindEntries (make : Bool → Nat → Make Datum) (full distinct : Bool)
    (entries : List (Nat × Nat)) : Make (List (Label × Datum)) :=
  entries.foldlM (fun bound (k, v) => do
    let items ← keyItems (← make true k)
    let d ← make full v
    let k ← label items
    if distinct && k.isBound bound then refuse
    return k.insert d bound) []

def mappingEntries (make : Bool → Nat → Make Datum) (full : Bool) (i : Nat) :
    Make (List (Label × Datum)) := do
  flatten (← mergeFuel) i
  let n ← node i
  match n.content with
  | .mapping entries => bindEntries make full (!n.merged) entries
  | _ => refuse

def entryOf (i : Nat) : Make (Nat × Nat) := do
  match (← node i).content with
  | .mapping [entry] => return entry
  | _ => refuse

def itemsOf (n : Node) : Make (List Nat) :=
  match n.content with
  | .sequence items => return items
  | _ => refuse

def holding (make : Bool → Nat → Make Datum) (full : Bool) (i : Nat) : Make Holding := do
  let n ← node i
  match n.tag with
  | .sequence => return .list (← (← itemsOf n).mapM (make full))
  | .pairs =>
    let pairs ← (← itemsOf n).mapM fun item => do
      let (k, v) ← entryOf item
      let k ← make full k
      let v ← make full v
      return Datum.pair k v
    return .list pairs
  | .ordered =>
    let entries ← (← itemsOf n).foldlM (fun bound item => do
      let (k, v) ← entryOf item
      match (← make full k).label? with
      | none => fail .unhashable
      | some k =>
        if k.isBound bound then fail .repeatedKey
        return bound ++ [(k, ← make full v)]) []
    return .ordered entries
  | .mapping => return .map (← mappingEntries make full i)
  | .set => return .set ((← mappingEntries make full i).map Prod.fst)
  | _ => refuse

def fill (make : Bool → Nat → Make Datum) (full : Bool) (i : Nat) : Make Unit := do
  let h ← holding make full i
  modify fun s => { s with holdings := s.holdings.setIfInBounds i h }

def emptyHolding? : Tag → Option Holding
  | .sequence | .pairs => some (.list [])
  | .mapping => some (.map [])
  | .ordered => some (.ordered [])
  | .set => some (.set [])
  | _ => none

/-- Makes the datum of a node, once for each node; with `full` its collections are filled at once.
Inside itself such a node is null. -/
def datum : Nat → Bool → Nat → Make Datum
  | 0, _, _ => fail .nestedTooDeeply
  | fuel + 1, full, i => do
    let s ← get
    match s.made[i]?.join with
    | some d => return d
    | none =>
      if s.busy.contains i then return .atom .null 0
      set { s with busy := i :: s.busy }
      let n ← node i
      let d ← match emptyHolding? n.tag with
        | none => atom n i
        | some h => do
          modify fun s => { s with holdings := s.holdings.setIfInBounds i h }
          if full then fill (datum fuel) true i
          else modify fun s => { s with waiting := i :: s.waiting }
          pure (Datum.collection i)
      modify fun s =>
        { s with made := s.made.setIfInBounds i (some d), busy := s.busy.erase i }
      return d

def rounds (depth : Nat) : Nat → Make Unit
  | 0 => return ()
  | fuel + 1 => do
    let s ← get
    unless s.waiting.isEmpty do
      set { s with waiting := [] }
      s.waiting.reverse.forM (fill (datum depth) false)
      rounds depth fuel

end Make

namespace Datum

/-- The value of a datum when everything is filled. A collection that holds itself has none; the
number of collections is fuel enough for all others. -/
def value (holdings : Array Holding) : Nat → Datum → Except Fault Value
  | _, .atom a _ => .ok (.atom a)
  | fuel, .pair a b => do
    let a ← value holdings fuel a
    let b ← value holdings fuel b
    return .pair a b
  | 0, .collection _ => .error (.noValue .endless)
  | fuel + 1, .collection i =>
    let entries := List.mapM fun ((k, d) : Label × Datum) =>
      (value holdings fuel d).map fun v => (k.key, v)
    match holdings[i]? with
    | some (.list items) => (items.mapM (value holdings fuel)).map .list
    | some (.map es) => (entries es).map .map
    | some (.ordered es) => (entries es).map .ordered
    | some (.set members) => .ok (.set (members.map Label.key))
    | none => .error .notYaml

end Datum

structure Document where
  root : Datum
  holdings : Array Holding

namespace Document

def ofGraph (g : Graph) : Except Fault Document := do
  let size := g.nodes.size
  let start : Making := ⟨g.nodes, g.modern, Array.replicate size none, [],
    Array.replicate size (.list []), []⟩
  let make : Make Datum := do
    let d ← Make.datum (size + 1) false g.root
    Make.rounds (size + 1) (size + 1)
    return d
  let (root, s) ← make.run start
  return ⟨root, s.holdings⟩

def top? (d : Document) : Option Holding :=
  match d.root with
  | .collection i => d.holdings[i]?
  | _ => none

def value (d : Document) : Except Fault Value :=
  d.root.value d.holdings (d.holdings.size + 1)

/-- The mapping that a document is. Null and all that is empty count as an empty mapping, and
there is none if the document is anything else. -/
def mapping? (d : Document) : Except Fault (Option Mapping) :=
  match d.top? with
  | some (.list items) => .ok (if items.isEmpty then some [] else none)
  | some (.set members) => .ok (if members.isEmpty then some [] else none)
  | _ => d.value.map fun v =>
    match v.entries? with
    | some entries => some entries
    | none => if v.filled then none else some []

end Document

def readMapping? (s : String) : Except Fault (Option Mapping) := do
  match ← Graph.ofText s.toList with
  | none => return some []
  | some g => (← Document.ofGraph g).mapping?

end Stencil.Yaml
