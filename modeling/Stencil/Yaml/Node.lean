import Stencil.Yaml.Tag
import Stencil.Yaml.Token

set_option autoImplicit false

/-!
# YAML graphs

The nodes of a document by number. An alias is the number of the node it names, so a node can
be part of several others, and of itself. A text holds at most one document. The grammar is the one
that `ruamel.yaml` parses and composes by, with YAML 1.2 where no directive says otherwise. That
loader descends until the stack is used up; `maxDepth` stands for the depth at which that happens.
-/

namespace Stencil.Yaml

inductive Content
  | scalar (text : String)
  | sequence (items : List Nat)
  | mapping (entries : List (Nat × Nat))

/-- A node; `merged` says that the entries of other mappings have been put before its own. -/
structure Node where
  tag : Tag
  content : Content
  merged : Bool

/-- The tokens to come, the nodes so far, those that have names, what handles stand for, and how
many nodes are open. -/
structure Composing where
  reading : Reading
  nodes : Array Node
  anchors : List (String × Nat)
  handles : List (String × String)
  depth : Nat

abbrev Compose (α : Type) := StateT Composing (Except Fault) α

namespace Compose

def refuse {α : Type} : Compose α :=
  throw .notYaml

def peek : Compose Token := do
  let s ← get
  let (t, reading) ← s.reading.peek
  set { s with reading }
  return t

def advance : Compose Unit :=
  modify fun s => { s with reading := s.reading.advance }

def accept (t : Token) : Compose Bool := do
  if (← peek) == t then
    advance
    return true
  else return false

def require (t : Token) : Compose Unit := do
  unless ← accept t do refuse

def facing (ts : List Token) : Compose Bool :=
  return ts.contains (← peek)

/-- Whether a colon without a key before it is the next token; before version 1.2 there was always
a key. -/
def acceptBareColon : Compose Bool := do
  if (← get).reading.recent then accept .value else return false

/-! ### Nodes -/

def create (tag : Tag) (content : Content) : Compose Nat := do
  let s ← get
  set { s with nodes := s.nodes.push ⟨tag, content, false⟩ }
  return s.nodes.size

def name (anchor : Option String) (i : Nat) : Compose Unit := do
  if let some a := anchor then
    modify fun s => { s with anchors := (a, i) :: s.anchors }

def linked (name : String) : Compose Nat := do
  advance
  match (← get).anchors.find? fun a => a.1 == name with
  | some (_, i) => return i
  | none => refuse

def plainTag (text : String) : Compose Tag := do
  let r := (← get).reading
  if r.minor == 1 || r.minor == 2 then return Tag.ofPlain r.old text
  else throw (.noValue (.unknownVersion r.minor))

def fullName (t : TagName) : Compose String := do
  match t.handle with
  | none => return t.suffix
  | some handle =>
    match (← get).handles.find? fun h => h.1 == handle with
    | some (_, stem) => return stem ++ t.suffix
    | none => refuse

def properties : Compose (Option String × Option String) := do
  match ← peek with
  | .anchor a =>
    advance
    match ← peek with
    | .tag t =>
      advance
      return (some a, some (← fullName t))
    | _ => return (some a, none)
  | .tag t =>
    advance
    match ← peek with
    | .anchor a =>
      advance
      return (some a, some (← fullName t))
    | _ => return (none, some (← fullName t))
  | _ => return (none, none)

/-- The tag of a node for which the tag `!` leaves open what it is. -/
def tagOr (default : Tag) : Option String → Tag
  | none | some "!" => default
  | some t => .ofName t

def scalarTag (tag : Option String) (text : String) (plain : Bool) : Compose Tag :=
  match tag with
  | some "!" => plainTag text
  | some t => return .ofName t
  | none => if plain then plainTag text else return .text

def scalar (anchor tag : Option String) (text : String) (plain : Bool) : Compose Nat := do
  let i ← create (← scalarTag tag text plain) (.scalar text)
  name anchor i
  return i

def nothing : Compose Nat :=
  scalar none none "" true

def missing (anchor tag : Option String) : Compose Nat :=
  if anchor.isNone && tag.isNone then refuse else scalar anchor tag "" true

/-- A collection, which has its name while its parts are read. -/
def collection (anchor : Option String) (tag : Tag) (parts : Compose Content) : Compose Nat := do
  let i ← create tag (.sequence [])
  name anchor i
  let content ← parts
  modify fun s => { s with nodes := s.nodes.modify i fun n => { n with content } }
  return i

def sequence (anchor tag : Option String) (items : Compose (List Nat)) : Compose Nat :=
  collection anchor (tagOr .sequence tag) (return .sequence (← items))

def mapping (anchor tag : Option String) (entries : Compose (List (Nat × Nat))) : Compose Nat :=
  collection anchor (tagOr .mapping tag) (return .mapping (← entries))

def maxDepth : Nat := 490

def deeper {α : Type} (act : Compose α) : Compose α := do
  let depth := (← get).depth
  if maxDepth ≤ depth then throw (.noValue .nestedTooDeeply)
  modify fun s => { s with depth := depth + 1 }
  let a ← act
  modify fun s => { s with depth }
  return a

mutual

/-- Reads a node; `block` allows block collections, and `loose` a sequence whose entries are not
indented. Every call uses up fuel. -/
def node (fuel : Nat) (block loose : Bool) : Compose Nat :=
  match fuel with
  | 0 => refuse
  | fuel + 1 => do
    if let .link name ← peek then
      linked name
    else
      let (anchor, tag) ← properties
      let whole := fun (act : Compose Nat) => advance *> act
      match ← peek with
      | .scalar text plain => whole (scalar anchor tag text plain)
      | .flowSequenceStart => whole (sequence anchor tag (deeper (flowItems fuel true)))
      | .flowMappingStart => whole (mapping anchor tag (deeper (flowPairs fuel true)))
      | .sequenceStart =>
        if block then whole (sequence anchor tag (deeper (blockItems fuel)))
        else missing anchor tag
      | .mappingStart =>
        if block then whole (mapping anchor tag (deeper (blockPairs fuel)))
        else missing anchor tag
      | .blockEntry =>
        if loose then sequence anchor tag (deeper (looseItems fuel)) else missing anchor tag
      | _ => missing anchor tag

def blockItems (fuel : Nat) : Compose (List Nat) :=
  match fuel with
  | 0 => refuse
  | fuel + 1 => do
    if ← accept .blockEntry then
      let item ← if ← facing [.blockEntry, .blockEnd] then nothing else node fuel true false
      return item :: (← blockItems fuel)
    else
      require .blockEnd
      return []

def looseItems (fuel : Nat) : Compose (List Nat) :=
  match fuel with
  | 0 => refuse
  | fuel + 1 => do
    if ← accept .blockEntry then
      let item ← if ← facing [.blockEntry, .key, .value, .blockEnd] then nothing
        else node fuel true false
      return item :: (← looseItems fuel)
    else return []

def blockPairs (fuel : Nat) : Compose (List (Nat × Nat)) :=
  match fuel with
  | 0 => refuse
  | fuel + 1 => do
    if ← accept .key then
      let k ← blockPart fuel
      let v ← if ← accept .value then blockPart fuel else nothing
      return (k, v) :: (← blockPairs fuel)
    else if ← acceptBareColon then
      let k ← nothing
      let v ← blockPart fuel
      return (k, v) :: (← blockPairs fuel)
    else
      require .blockEnd
      return []

def blockPart (fuel : Nat) : Compose Nat :=
  match fuel with
  | 0 => refuse
  | fuel + 1 => do
    if ← facing [.key, .value, .blockEnd] then nothing else node fuel true true

def flowItems (fuel : Nat) (first : Bool) : Compose (List Nat) :=
  match fuel with
  | 0 => refuse
  | fuel + 1 => do
    if ← accept .flowSequenceEnd then return []
    unless first do require .flowEntry
    if ← accept .flowSequenceEnd then return []
    let item ← if ← accept .key then mapping none none (deeper (flowPair fuel))
      else node fuel false false
    return item :: (← flowItems fuel false)

def flowPair (fuel : Nat) : Compose (List (Nat × Nat)) :=
  match fuel with
  | 0 => refuse
  | fuel + 1 => do
    let k ← flowPart fuel [.value, .flowEntry, .flowSequenceEnd]
    let v ← if ← accept .value then flowPart fuel [.flowEntry, .flowSequenceEnd] else nothing
    return [(k, v)]

def flowPairs (fuel : Nat) (first : Bool) : Compose (List (Nat × Nat)) :=
  match fuel with
  | 0 => refuse
  | fuel + 1 => do
    if ← accept .flowMappingEnd then return []
    unless first do require .flowEntry
    if ← accept .flowMappingEnd then return []
    if ← accept .key then
      let k ← flowPart fuel [.value, .flowEntry, .flowMappingEnd]
      let v ← if ← accept .value then flowPart fuel [.flowEntry, .flowMappingEnd] else nothing
      return (k, v) :: (← flowPairs fuel false)
    else if ← acceptBareColon then
      let k ← nothing
      let v ← flowPart fuel [.flowEntry, .flowMappingEnd]
      return (k, v) :: (← flowPairs fuel false)
    else
      let k ← node fuel false false
      let v ← nothing
      return (k, v) :: (← flowPairs fuel false)

/-- A part of a pair in a flow collection, which may be left out before the given tokens. -/
def flowPart (fuel : Nat) (ends : List Token) : Compose Nat :=
  match fuel with
  | 0 => refuse
  | fuel + 1 => do
    if ← facing ends then nothing else node fuel false false

end

/-! ### Documents -/

def standardHandles : List (String × String) :=
  [("!", "!"), ("!!", Tag.stem)]

/-- Reads the directives before a document. There may be one version, which has to begin with 1,
and one directive for each handle. -/
def directives (fuel : Nat) (versioned : Bool) (handles : List (String × String)) :
    Compose Unit :=
  match fuel with
  | 0 => refuse
  | fuel + 1 => do
    match ← peek with
    | .directive (.version major _) =>
      advance
      if versioned || major != 1 then refuse
      directives fuel true handles
    | .directive (.handle h stem) =>
      advance
      if handles.any fun k => k.1 == h then refuse
      directives fuel versioned ((h, stem) :: handles)
    | .directive .other =>
      advance
      directives fuel versioned handles
    | _ => modify fun s => { s with handles := handles ++ standardHandles }

/-- Reads behind the only document of a text. Only version 1.1 takes further marks of its end. If
there is another document, its directives are still read. -/
def finish (fuel : Nat) : Compose Unit := do
  let _ ← accept .documentEnd
  if (← get).reading.old then marks fuel
  unless (← peek) == .textEnd do
    directives fuel false []
    refuse
where
  marks : Nat → Compose Unit
    | 0 => return ()
    | fuel + 1 => do
      if ← accept .documentEnd then marks fuel

def document (fuel : Nat) : Compose (Option Nat) := do
  match ← peek with
  | .textEnd => return none
  | .directive _ | .documentStart =>
    directives fuel false []
    require .documentStart
    let bare := match ← peek with
      | .directive _ | .documentStart | .documentEnd | .textEnd => true
      | _ => false
    let root ← if bare then nothing else node fuel true false
    finish fuel
    return some root
  | _ =>
    let root ← node fuel true false
    finish fuel
    return some root

end Compose

/-- The nodes of a document, the number of its root, and whether its version is 1.2. -/
structure Graph where
  nodes : Array Node
  root : Nat
  modern : Bool

def Graph.ofText (cs : List Char) : Except Fault (Option Graph) :=
  if cs.all isAllowed then do
    let fuel := 16 * cs.length + 16
    let (root, s) ← (Compose.document fuel).run ⟨.start cs, #[], [], Compose.standardHandles, 0⟩
    return root.map fun r => ⟨s.nodes, r, s.reading.minor == Reading.standardMinor⟩
  else .error .notYaml

end Stencil.Yaml
