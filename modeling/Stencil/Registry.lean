import Stencil.Dialect.Ispconfig
import Stencil.Dialect.Php
import Stencil.Dialect.Vue
import Stencil.Failure

set_option autoImplicit false

/-!
# Registries of dialects

Dialects by the names under which the command line and the configuration know them.
-/

namespace Stencil

structure Registry where
  entries : List (String × Dialect)

namespace Registry

def empty : Registry := ⟨[]⟩

def contains (r : Registry) (name : String) : Bool :=
  r.entries.any fun e => e.1 == name

def names (r : Registry) : List String :=
  (r.entries.map Prod.fst).mergeSort fun a b => decide (a ≤ b)

def get (r : Registry) (name : String) : Except Failure Dialect :=
  match r.entries.find? fun e => e.1 == name with
  | some (_, d) => .ok d
  | none => .error (.unknownDialect name r.names)

/-- Binds a name. A name that is taken is bound anew only if `replace` allows it, and then there
is a warning. -/
def register (r : Registry) (name : String) (d : Dialect) (replace : Bool) :
    Except Failure (Registry × Option String) :=
  if r.contains name then
    if replace then
      .ok (⟨r.entries.map fun e => if e.1 == name then (name, d) else e⟩,
        some ("Overwriting strategy '" ++ name ++ "'"))
    else .error (.dialectTaken name)
  else .ok (⟨r.entries ++ [(name, d)]⟩, none)

def builtin : Registry :=
  ⟨[("ispconfig", .ispconfig), ("php", .php), ("vue", .vue)]⟩

end Registry

end Stencil
