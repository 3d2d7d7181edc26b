import Stencil.Failure
import Stencil.Value.Display

set_option autoImplicit false

/-!
# Scopes

A scope is a stack of frames, each a mapping from names to values; frames pushed later win. A
value bound to a name makes its parts known as well, under the names `name[0]` and `name.key`. A
part cannot be named if an integer on the way to it has too many digits, and then the value is not
bound at all. The frame of a component carries the component's file under the name `path`.
-/

namespace Stencil

namespace Value

mutual

def writableKeys : Value → Bool
  | atom _ | set _ => true
  | list items => writableKeysAll items
  | pair a b => writableKeys a && writableKeys b
  | map entries | ordered entries => writableKeysWithin entries

def writableKeysAll : List Value → Bool
  | [] => true
  | v :: vs => writableKeys v && writableKeysAll vs

def writableKeysWithin : List (Key × Value) → Bool
  | [] => true
  | (k, v) :: rest => k.writable && writableKeys v && writableKeysWithin rest

end

def hasParts : Value → Bool
  | atom _ | set _ => false
  | list items => !items.isEmpty
  | pair .. => true
  | map entries | ordered entries => !entries.isEmpty

end Value

abbrev Frame := Mapping

namespace Frame

mutual

/-- Binds a value, and all of its parts under the names of their places. -/
def bind (key : Key) (v : Value) (into : Frame) : Frame :=
  match v with
  | .atom a => Mapping.insert key (.atom a) into
  | .list items => bindItems key.text 0 items (Mapping.insert key (.list items) into)
  | .pair a b =>
    let into := Mapping.insert key (.pair a b) into
    bind (.str (key.text ++ "[1]")) b (bind (.str (key.text ++ "[0]")) a into)
  | .map entries => bindEntries key.text entries (Mapping.insert key (.map entries) into)
  | .ordered entries =>
    bindEntries key.text entries (Mapping.insert key (.ordered entries) into)
  | .set members => Mapping.insert key (.set members) into

def bindItems (name : String) (index : Nat) (items : List Value) (into : Frame) : Frame :=
  match items with
  | [] => into
  | v :: vs =>
    bindItems name (index + 1) vs (bind (.str (name ++ "[" ++ toString index ++ "]")) v into)

def bindEntries (name : String) (entries : List (Key × Value)) (into : Frame) : Frame :=
  match entries with
  | [] => into
  | (k, v) :: rest =>
    bindEntries name rest (bind (.str (name ++ "." ++ k.text)) v into)

end

def nameable (key : Key) (v : Value) : Bool :=
  v.writableKeys && (key.writable || !v.hasParts)

def expand (key : Key) (v : Value) (into : Frame) : Except Failure Frame :=
  if nameable key v then .ok (bind key v into) else .error (.tooManyDigits none)

def ofMapping (m : Mapping) : Frame :=
  m.foldl (fun frame (k, v) => bind k v frame) []

def expandAll (m : Mapping) : Except Failure Frame :=
  if m.all fun (k, v) => nameable k v then .ok (ofMapping m) else .error (.tooManyDigits none)

end Frame

/-- The frames, innermost first, and the file that the whole compilation is about. -/
structure Scope where
  frames : List Frame
  basePath : Option String

namespace Scope

def empty : Scope := ⟨[], none⟩

def pathName : String := "path"

def push (frame : Frame) (s : Scope) : Scope :=
  { s with frames := frame :: s.frames }

def depth (s : Scope) : Nat :=
  s.frames.length

def peek? (s : Scope) : Option Frame :=
  s.frames.head?

/-- Takes the innermost frame off; an empty scope gives an empty frame. -/
def pop (s : Scope) : Frame × Scope :=
  match s.frames with
  | [] => ([], s)
  | f :: rest => (f, { s with frames := rest })

def truncate (depth : Nat) (s : Scope) : Scope :=
  { s with frames := s.frames.drop (s.frames.length - depth) }

def flatten (s : Scope) : Frame :=
  s.frames.foldr (fun frame under => Mapping.overlay frame under) []

def lookup? (name : String) (s : Scope) : Option Value :=
  s.frames.findSome? (Mapping.lookup? name)

/-- The value of a name in a condition, where `true` and `false` are known. -/
def condition? (name : String) (s : Scope) : Option Value :=
  match s.lookup? name with
  | some v => some v
  | none =>
    match name with
    | "true" => some (.bool true)
    | "false" => some (.bool false)
    | _ => none

/-- The file that is being compiled: that of the innermost frame that names one. -/
def currentPath (s : Scope) : Option Value :=
  match s.frames.findSome? fun f => (Mapping.lookup? pathName f).filter Value.filled with
  | some v => some v
  | none => s.basePath.map .str

def atRoot (s : Scope) : Bool :=
  match s.currentPath, s.basePath with
  | some v, some p => v.same (.str p)
  | none, none => true
  | _, _ => false

def describe (s : Scope) : String :=
  "ScopeStack(depth=" ++ toString s.depth ++ ", path=" ++
    (s.currentPath.getD .null).display ++ ")"

end Scope

end Stencil
