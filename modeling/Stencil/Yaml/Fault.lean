import Stencil.Failure

set_option autoImplicit false

/-!
# What can be wrong with a YAML text

A text that breaks the rules of YAML is refused as a whole. A text that keeps them may still hold
something that has no value, and then there is a failure of its own to report.
What the loader of `ruamel.yaml` has to say about a text that it refuses is not kept.
-/

namespace Stencil.Yaml

inductive Fault
  | notYaml
  | noValue (failure : Failure)

namespace Fault

def lift {α : Type} : Except Failure α → Except Fault α
  | .ok a => .ok a
  | .error f => .error (noValue f)

/-- What is not there breaks the rules. -/
def require {α : Type} : Option α → Except Fault α
  | some a => .ok a
  | none => .error notYaml

end Fault

end Stencil.Yaml
