import Stencil.Template.Token

set_option autoImplicit false

/-!
# The template tree

A block holds what stands between an opening tag and its end. The branches of a chain of
conditions are nested: each `elseif` or `else` is the last child of the branch before it.
-/

namespace Stencil.Template

inductive Node
  | text (value : String) (indentation : Nat)
  | leaf (kind : String) (parameters : Option String) (indentation : Nat)
  | block (kind : String) (parameters : Option String) (indentation : Nat) (children : List Node)
  deriving Repr

instance : Inhabited Node := ⟨.text "" 0⟩

namespace Node

def kind : Node → String
  | text .. => "text"
  | leaf kind .. => kind
  | block kind .. => kind

def parameters : Node → Option String
  | text .. => none
  | leaf _ parameters _ => parameters
  | block _ parameters .. => parameters

def indentation : Node → Nat
  | text _ indentation => indentation
  | leaf _ _ indentation => indentation
  | block _ _ indentation _ => indentation

def children : Node → List Node
  | block _ _ _ children => children
  | _ => []

def isBlock : Node → Bool
  | block .. => true
  | _ => false

def isContinuation : Node → Bool
  | block kind .. => kind == "elseif" || kind == "else"
  | _ => false

def nextBranch (n : Node) : Option Node :=
  n.children.getLast?.filter isContinuation

/-- The children of a branch without the branch that follows it. -/
def branchBody (n : Node) : List Node :=
  if n.nextBranch.isSome then n.children.dropLast else n.children

mutual

/-- The node and all below it, each before its children. -/
def walk : Node → List Node
  | text v i => [text v i]
  | leaf k p i => [leaf k p i]
  | block k p i cs => block k p i cs :: walkAll cs

def walkAll : List Node → List Node
  | [] => []
  | n :: ns => walk n ++ walkAll ns

end

def preview (value : String) : String :=
  if value.length > 50 then String.ofList (value.toList.take 50) ++ "..." else value

def outlineMargin (depth : Nat) : String :=
  String.ofList (List.replicate (2 * depth) ' ')

mutual

def outlineLines (depth : Nat) : Node → List String
  | text v _ => [outlineMargin depth ++ "TextNode(" ++ quote (preview v) ++ ")"]
  | leaf k p _ =>
    [outlineMargin depth ++ "SelfClosingNode(" ++ k ++ ", " ++ Token.quoteOption p ++ ")"]
  | block k p _ cs =>
    (outlineMargin depth ++ "ParentNode(" ++ k ++ ", " ++ Token.quoteOption p ++ ")") ::
      outlineAll (depth + 1) cs

def outlineAll (depth : Nat) : List Node → List String
  | [] => []
  | n :: ns => outlineLines depth n ++ outlineAll depth ns

end

def outline (ns : List Node) : String :=
  "\n".intercalate (outlineAll 0 ns)

end Node

end Stencil.Template
