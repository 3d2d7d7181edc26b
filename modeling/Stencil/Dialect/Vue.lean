import Stencil.Dialect.Basic

set_option autoImplicit false

/-!
# Vue templates

Conditions are elements with the directives `v-if`, `v-else-if` and `v-else`.
-/

namespace Stencil.Dialect.Vue

def expression (c : Condition) : String :=
  "$" ++ c.name ++
    (match c.comparison with
      | some cmp => " " ++ cmp.operator ++ " '" ++ cmp.value ++ "'"
      | none => "")

def fragments : Fragments where
  openIf c := "<div v-if=\"" ++ expression c ++ "\">"
  openElseif c := "</div><div v-else-if=\"" ++ expression c ++ "\">"
  openElse := "</div><div v-else>"
  closeIf := "</div>"
  openUnless name := "<div v-if=\"!" ++ name ++ "\">"
  closeUnless := "</div>"
  echo name := "\x7b\x7b " ++ name ++ " \x7d\x7d"
  hiddenComment _ := ""

def html : Extension where
  kind := "html"
  opens := false
  required := none
  before p := "<div v-html=\"'" ++ unquoted p ++ "'\"></div>"
  after := ""

def pre : Extension where
  kind := "pre"
  opens := true
  required := none
  before _ := "<span v-pre>"
  after := "</span>"

end Stencil.Dialect.Vue

def Stencil.Dialect.vue : Stencil.Dialect where
  name := "vue"
  fragments := Vue.fragments
  extensions := [Vue.html, Vue.pre]
