import Stencil.Failure
import Stencil.Json.Reader

set_option autoImplicit false

/-!
# Meta data

The JSON object that a `meta` directive carries: whether the file may only be used as a
component, and defaults for variables.

The object is read as pydantic validates JSON: its reader refuses half of a pair of surrogates and
counts the sign of an integer as a digit, and a truth value may be given as a number or as a word.
How deep that reader goes is not documented; `maxDepth` stands for its limit.
-/

namespace Stencil

structure Meta where
  childOnly : Bool
  defaults : Mapping

namespace Meta

def maxDepth : Nat := 200

def rules : Json.Rules := ⟨none, true⟩

def word? (s : String) : Option Bool :=
  let w := s.toLower
  if w ∈ ["1", "t", "true", "y", "yes", "on"] then some true
  else if w ∈ ["0", "f", "false", "n", "no", "off"] then some false
  else none

/-- Reads a truth value, the numbers zero and one and the words for one included. -/
def truth? : Value → Option Bool
  | .bool b => some b
  | .int n => if n = 0 then some false else if n = 1 then some true else none
  | .float x =>
    match x.toInt? with
    | some 0 => some false
    | some 1 => some true
    | _ => none
  | .str s => word? s
  | _ => none

def childOnly? (entries : Mapping) : Option Bool :=
  match (entries.lookup? "isChildOnly").or (entries.lookup? "is_child_only") with
  | some v => truth? v
  | none => some false

def defaults? (entries : Mapping) : Option Mapping :=
  match entries.lookup? "defaults" with
  | none => some []
  | some .null => some []
  | some (.map m) => some m
  | some _ => none

/-- Reads the parameters of a `meta` directive; every field that does not fit counts as one
fault. -/
def ofParameters (parameters : Option String) : Except Failure Meta :=
  match parameters with
  | none => .error (.directive .missingMeta)
  | some p =>
    if p.isEmpty then .error (.directive .missingMeta)
    else
      match Json.readNested? rules maxDepth p.toList with
      | some (.map entries) =>
        match childOnly? entries, defaults? entries with
        | some childOnly, some defaults => .ok ⟨childOnly, defaults⟩
        | none, none => .error (.directive (.invalidMeta 2 p))
        | _, _ => .error (.directive (.invalidMeta 1 p))
      | _ => .error (.directive (.invalidMeta 1 p))

end Meta

end Stencil
