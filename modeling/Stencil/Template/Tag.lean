set_option autoImplicit false

/-!
# Tags

A tag may open a scope, close one, or do both: such a tag ends one branch of a chain and begins
the next. A vocabulary is the list of tags that a template may use.
-/

namespace Stencil.Template

structure Tag where
  name : String
  opens : Bool
  closes : Bool
  deriving Repr, DecidableEq

/-- The spelling under which a tag is known: `elsif` is another spelling of `elseif`. -/
def canonicalName (name : String) : String :=
  if name = "elsif" then "elseif" else name

namespace Tag

def single (name : String) : Tag := ⟨name, false, false⟩

def opening (name : String) : Tag := ⟨name, true, false⟩

def closing (name : String) : Tag := ⟨name, false, true⟩

/-- A tag that ends a branch and begins the next. -/
def branching (name : String) : Tag := ⟨name, true, true⟩

def shared : List Tag :=
  [opening "comment", closing "endcomment", opening "if", branching "elseif", branching "elsif",
    branching "else", closing "endif", opening "unless", closing "endunless", opening "for",
    closing "endfor", single "meta", single "render"]

/-- The tag of a canonical name; the last one given wins. -/
def find? (tags : List Tag) (kind : String) : Option Tag :=
  tags.reverse.find? fun t => canonicalName t.name == kind

end Tag

end Stencil.Template
