import Stencil.FileTree

set_option autoImplicit false

/-!
# Components

A component is named relative to the directory of the file that renders it. The name is taken as
it is if it leads to anything, and with the extension added otherwise. The text of a component is
moved to the indentation of the place it is put.
-/

namespace Stencil

structure Component where
  contents : String
  path : String

namespace Component

def defaultExtension : String := ".liquid"

/-- The path as it is if something is there, and with the extension added if not. -/
def find (t : FileTree) (p : Path) (extension : String) : Except Failure Path :=
  if t.holds p then .ok p
  else
    let name := p.name ++ extension
    if name.toList.contains '/' then .error (.invalidFileName name)
    else .ok (p.parent.join ⟨"", [name]⟩)

def baseOf (t : FileTree) (current : Option String) : Path :=
  match current with
  | some c => if c.isEmpty then ⟨"/", t.workingDirectory⟩ else (Path.ofString c).parent
  | none => ⟨"/", t.workingDirectory⟩

/-- Moves the text of a component to its place and drops its last line feed. -/
def fit (indentation : Nat) (contents : String) : String :=
  String.ofList (Text.dropFinalNewline (Text.indentFollowing indentation contents.toList))

def load (t : FileTree) (current : Option String) (component : String) (indentation : Nat)
    (extension : String) : Except Failure Component := do
  let resolved ← t.resolve ((baseOf t current).join (Path.ofString component))
  let path ← find t resolved extension
  if t.isFile path then
    let contents ← t.readText path
    return ⟨fit indentation contents, path.text⟩
  else .error (.componentNotFound component current)

end Component

end Stencil
