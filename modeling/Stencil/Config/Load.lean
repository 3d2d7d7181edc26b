import Stencil.Config
import Stencil.DataFile
import Stencil.Session

set_option autoImplicit false

/-!
# Configuration files

The configuration of a project stands in a file of a fixed name, which is looked for from a
directory upwards. A file that is named instead of looked for has to exist.
-/

namespace Stencil.Config

def fileName : String := "liquidish.yaml"

def upwards (p : Path) : List Path :=
  (List.range (p.parts.length + 1)).map fun n => ⟨p.root, p.parts.take (p.parts.length - n)⟩

/-- The configuration file that is nearest to a directory, on the way up. -/
def find? (t : FileTree) (start : Path) : Except Failure (Option Path) := do
  let start ← t.resolve start
  return ((upwards start).map fun p => p.join ⟨"", [fileName]⟩).find? t.isFile

def read (t : FileTree) (p : Path) : Except Failure Config := do
  let entries ← DataFile.readYaml t p
  let config ← ofValue (.map entries)
  if config.extension.toList.head? = some '.' then return config
  else .error (.badExtension config.extension)

/-- The file to read the configuration from: the named one, or the nearest one. -/
def locate (t : FileTree) (named : Option Path) (start : Path) : Except Failure (Option Path) :=
  match named with
  | some p => if t.isFile p then .ok (some p) else .error (.configNotFound p.text)
  | none => find? t start

def load (t : FileTree) (named : Option Path) (start : Path) : Eval Config := do
  match ← Eval.ofExcept (locate t named start) with
  | none =>
    Eval.record .debug ("No " ++ fileName ++ " found, using defaults")
    return standard
  | some p =>
    let config ← Eval.ofExcept (read t p)
    Eval.record .debug ("Loaded config from " ++ p.text ++ ": strategy=" ++ config.dialect)
    return config

end Stencil.Config
