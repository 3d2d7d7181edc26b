import Stencil.Template.Node

set_option autoImplicit false

/-!
# From tokens to trees

The builder keeps the scopes that are open. A scope is a chain of branches: a tag that both
closes and opens ends the current branch and begins the next one inside it, so that closing the
scope closes all of its branches.
-/

namespace Stencil.Template

/-- A block whose end has not been met; its children stand latest first. -/
structure OpenBlock where
  kind : String
  parameters : Option String
  indentation : Nat
  children : List Node

/-- A scope that is open: the branch being filled, and the branches before it, nearest first. -/
structure OpenScope where
  current : OpenBlock
  earlier : List OpenBlock

/-- The roots met so far, latest first, and the open scopes, innermost first. -/
structure Builder where
  roots : List Node
  scopes : List OpenScope

/-- A template tree, and the kinds of the scopes that were still open at its end, outermost
first. -/
structure Forest where
  roots : List Node
  unclosed : List String

namespace OpenBlock

def add (n : Node) (b : OpenBlock) : OpenBlock :=
  { b with children := n :: b.children }

def close (b : OpenBlock) : Node :=
  .block b.kind b.parameters b.indentation b.children.reverse

def ofToken (t : Token) : OpenBlock :=
  ⟨t.kind, t.parameters, t.indentation, []⟩

end OpenBlock

/-- The finished chain: each branch is the last child of the one before it. -/
def OpenScope.close (s : OpenScope) : Node :=
  s.earlier.foldl (fun inner b => (b.add inner).close) s.current.close

namespace Builder

def empty : Builder := ⟨[], []⟩

def add (n : Node) (b : Builder) : Builder :=
  match b.scopes with
  | [] => { b with roots := n :: b.roots }
  | s :: rest => { b with scopes := { s with current := s.current.add n } :: rest }

def leafOf (t : Token) : Node :=
  if t.isText then .text (t.value.getD "") t.indentation
  else .leaf t.kind t.parameters t.indentation

def step (tags : List Tag) (b : Builder) (t : Token) : Except Failure Builder :=
  let tag := if t.isText then none else Tag.find? tags t.kind
  match (tag.map Tag.opens).getD false, (tag.map Tag.closes).getD false with
  | true, false => .ok { b with scopes := ⟨OpenBlock.ofToken t, []⟩ :: b.scopes }
  | true, true =>
    match b.scopes with
    | [] => .error (.unexpectedClose t.kind)
    | s :: rest =>
      .ok { b with scopes := ⟨OpenBlock.ofToken t, s.current :: s.earlier⟩ :: rest }
  | false, true =>
    match b.scopes with
    | [] => .error (.unexpectedClose t.kind)
    | s :: rest => .ok ({ b with scopes := rest }.add s.close)
  | false, false => .ok (b.add (leafOf t))

/-- Closes the open scopes from the innermost outwards, into the one root that holds them. -/
def closeScopes (scopes : List OpenScope) : Option Node :=
  scopes.foldl (fun inner s =>
    some (match inner with
      | none => s.close
      | some n => { s with current := s.current.add n }.close)) none

def finish (b : Builder) : Forest where
  roots := b.roots.reverse ++ (closeScopes b.scopes).toList
  unclosed := (b.scopes.map fun s => s.current.kind).reverse

end Builder

namespace Forest

/-- Builds the tree of a sequence of tokens; a tag that closes where nothing is open is
refused. -/
def ofTokens (tags : List Tag) (tokens : List Token) : Except Failure Forest :=
  (tokens.foldlM (Builder.step tags) .empty).map Builder.finish

def warning? (f : Forest) : Option String :=
  if f.unclosed.isEmpty then none
  else some ("Unclosed scopes auto-closed at end of input: " ++ ", ".intercalate f.unclosed)

end Forest

end Stencil.Template
