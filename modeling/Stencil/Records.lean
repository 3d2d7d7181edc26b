import Stencil.Config

set_option autoImplicit false

/-!
# Records

The kinds of record that can be read from plain data, by name.
-/

namespace Stencil.Records

def renderCall : Schema :=
  ⟨"RenderCall", [⟨"component", .text, none⟩, ⟨"variables", .mapping .text .any, some (.map [])⟩]⟩

def logicTag : Schema :=
  ⟨"LogicTag", [⟨"name", .text, none⟩, ⟨"opens_scope", .bool, some (.bool false)⟩,
    ⟨"closes_scope", .bool, some (.bool false)⟩]⟩

def loadedComponent : Schema :=
  ⟨"LoadedComponent", [⟨"contents", .text, none⟩, ⟨"path", .text, none⟩]⟩

def condition : Schema :=
  ⟨"Condition", [⟨"name", .text, none⟩, ⟨"operator", .any, some .null⟩,
    ⟨"value", .any, some .null⟩]⟩

def all : List Schema :=
  [Config.schema, renderCall, logicTag, loadedComponent, condition]

def read (name : String) (v : Value) : Except Failure Mapping :=
  match all.find? fun s => s.name == name with
  | some s => s.read v
  | none => .error (.coercion [] (.notRecord name))

end Stencil.Records
