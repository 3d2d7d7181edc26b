import Stencil.DataFile
import Stencil.Text.Blank

set_option autoImplicit false

/-!
# Variables

Where the variables of a rendering come from: a file, and assignments `key=value` on the command
line, which bind texts.
-/

namespace Stencil.Variables

/-- The variables of a file: JSON if its name says so, and YAML otherwise. -/
def load (t : FileTree) (p : Path) : Except Failure Mapping :=
  if !t.isFile p then .error (.variablesNotFound p.text)
  else if DataFile.isJson p then DataFile.readJson t p
  else DataFile.readYaml t p

/-- The key and the value of an assignment, which is cut at its first equals sign. Blanks around
the key do not count. -/
def assignment (item : String) : Except Failure (String × String) :=
  let cs := item.toList
  match cs.dropWhile (· != '=') with
  | [] => .error (.badAssignment item .noEquals)
  | _ :: value =>
    match Text.trim (cs.takeWhile (· != '=')) with
    | [] => .error (.badAssignment item .emptyKey)
    | key => .ok (String.ofList key, String.ofList value)

def ofAssignments (items : List String) : Except Failure Mapping := do
  let bindings ← items.mapM assignment
  return Mapping.ofList (bindings.map fun (k, v) => (.str k, .str v))

end Stencil.Variables
