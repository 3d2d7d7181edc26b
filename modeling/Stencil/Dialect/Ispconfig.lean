import Stencil.Dialect.Basic

set_option autoImplicit false

/-!
# ISPConfig templates

Directives in single braces whose names begin with `tmpl_`.
-/

namespace Stencil.Dialect.Ispconfig

/-- A directive with a name, and with an operator and a value if something is compared. -/
def tagged (directive : String) (c : Condition) : String :=
  "\x7btmpl_" ++ directive ++ " name=\"" ++ c.name ++ "\"" ++
    (match c.comparison with
      | some cmp => " op=\"" ++ cmp.operator ++ "\" value=\"" ++ cmp.value ++ "\""
      | none => "") ++ "\x7d"

def named (directive name : String) : String :=
  tagged directive ⟨name, none⟩

def fragments : Fragments where
  openIf := tagged "if"
  openElseif := tagged "elseif"
  openElse := "\x7btmpl_else\x7d"
  closeIf := "\x7b/tmpl_if\x7d"
  openUnless := named "unless"
  closeUnless := "\x7b/tmpl_unless\x7d"
  echo := named "var"
  hiddenComment _ := ""

def loop : Extension where
  kind := "loop"
  opens := true
  required := some "loop name"
  before := named "loop"
  after := "\x7b/tmpl_loop\x7d"

def dyninclude : Extension where
  kind := "dyninclude"
  opens := false
  required := some "dyninclude component"
  before p := named "dyninclude" (unquoted p)
  after := ""

def hook : Extension where
  kind := "hook"
  opens := false
  required := some "hook name"
  before p := named "hook" (unquoted p)
  after := ""

end Stencil.Dialect.Ispconfig

def Stencil.Dialect.ispconfig : Stencil.Dialect where
  name := "ispconfig"
  fragments := Ispconfig.fragments
  extensions := [Ispconfig.loop, Ispconfig.dyninclude, Ispconfig.hook]
