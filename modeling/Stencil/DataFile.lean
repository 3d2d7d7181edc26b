import Stencil.FileTree
import Stencil.Json.Reader
import Stencil.Yaml.Document

set_option autoImplicit false

/-!
# Data files

Files that hold a mapping, written in YAML or in JSON. A YAML document that holds nothing counts
as an empty mapping; a JSON document has to be an object. Nothing is read from a file that escapes
half of a pair of surrogates.
-/

namespace Stencil.DataFile

def readYaml (t : FileTree) (p : Path) : Except Failure Mapping := do
  let text ← t.readText p
  match Yaml.readMapping? text with
  | .error .notYaml => .error (.invalidYaml p.text)
  | .error (.noValue failure) => .error failure
  | .ok (some entries) => .ok entries
  | .ok none => .error (.yamlNotMapping p.text)

def readJson (t : FileTree) (p : Path) : Except Failure Mapping :=
  match t.readText p with
  | .error (.undecodable _) => .error (.invalidJson p.text)
  | .error failure => .error failure
  | .ok text =>
    match Json.read? text with
    | none => .error (if Json.halved text then .loneSurrogate else .invalidJson p.text)
    | some (.map entries) => .ok entries
    | some _ => .error (.jsonNotObject p.text)

def isJson (p : Path) : Bool :=
  p.suffix.toLower == ".json"

end Stencil.DataFile
