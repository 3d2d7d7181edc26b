import Stencil.Dialect.Basic

set_option autoImplicit false

/-!
# PHP templates

Conditions in PHP's alternative notation. A comment that is not shown becomes a comment of PHP.
-/

namespace Stencil.Dialect.Php

/-- A backslash in front of every backslash and single quote. -/
def escape : List Char → List Char
  | [] => []
  | c :: cs => if c == '\\' || c == '\'' then '\\' :: c :: escape cs else c :: escape cs

def quote (s : String) : String :=
  String.ofList ('\'' :: escape s.toList ++ ['\''])

def expression (c : Condition) : String :=
  "$" ++ c.name ++
    (match c.comparison with
      | some cmp => " " ++ cmp.operator ++ " " ++ quote cmp.value
      | none => "")

def fragments : Fragments where
  openIf c := "<?php if (" ++ expression c ++ ") : ?>"
  openElseif c := "<?php elseif (" ++ expression c ++ ") : ?>"
  openElse := "<?php else : ?>"
  closeIf := "<?php endif; ?>"
  openUnless name := "<?php if (!$" ++ name ++ ") : ?>"
  closeUnless := "<?php endif; ?>"
  echo name := "<?php echo $" ++ name ++ "; ?>"
  hiddenComment body := "<?php /* " ++ body ++ " */ ?>"

def includeFile : Extension where
  kind := "include"
  opens := false
  required := some "include component"
  before p := "<?php include " ++ quote (unquoted p) ++ "; ?>"
  after := ""

end Stencil.Dialect.Php

def Stencil.Dialect.php : Stencil.Dialect where
  name := "php"
  fragments := Php.fragments
  extensions := [Php.includeFile]
