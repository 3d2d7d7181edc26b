import Stencil.Proofs.Chaining

set_option autoImplicit false

/-!
# Trees keep the order of their tokens

What has been built at some point is a tree whose rightmost branch is still open. Read from the top,
each node before its children, it gives the tokens met so far in their order, whatever the tags are
and however their scopes are left; only the tokens that do nothing but close are not seen in it.
-/

namespace Stencil.Template

namespace Node

def bare : Node → Node
  | block kind parameters indentation _ => block kind parameters indentation []
  | n => n

/-- The nodes of a forest as they are walked, each of them alone. -/
def preorder (ns : List Node) : List Node :=
  (walkAll ns).map bare

@[simp]
theorem preorder_nil : preorder [] = [] := rfl

@[simp]
theorem preorder_append (ms ns : List Node) : preorder (ms ++ ns) = preorder ms ++ preorder ns := by
  simp [preorder, walkAll_append]

@[simp]
theorem preorder_block (kind : String) (parameters : Option String) (indentation : Nat)
    (children : List Node) :
    preorder [block kind parameters indentation children] =
      block kind parameters indentation [] :: preorder children := by
  simp [preorder, walkAll, walk, bare]

theorem preorder_leafOf (t : Token) : preorder [Builder.leafOf t] = [Builder.leafOf t] := by
  unfold Builder.leafOf
  split <;> simp [preorder, walkAll, walk, bare]

end Node

def Token.closesOnly (tags : List Tag) (t : Token) : Bool :=
  t.effect tags == (false, true)

def Token.bareNode (tags : List Tag) (t : Token) : Node :=
  if (t.effect tags).1 then .block t.kind t.parameters t.indentation [] else Builder.leafOf t

def Token.bareNodes (tags : List Tag) (ts : List Token) : List Node :=
  (ts.filter fun t => !t.closesOnly tags).map (bareNode tags)

theorem Token.bareNodes_append (tags : List Tag) (ts us : List Token) :
    bareNodes tags (ts ++ us) = bareNodes tags ts ++ bareNodes tags us := by
  simp [bareNodes]

namespace OpenBlock

def preorder (b : OpenBlock) : List Node :=
  Node.preorder [b.close]

theorem preorder_add (b : OpenBlock) (n : Node) :
    (b.add n).preorder = b.preorder ++ Node.preorder [n] := by
  simp [preorder, close, add]

theorem preorder_ofToken (t : Token) :
    (ofToken t).preorder = [.block t.kind t.parameters t.indentation []] := by
  simp [preorder, close, ofToken]

end OpenBlock

namespace OpenScope

/-- The branches of the chain, from its first one to the one that is being filled. -/
def preorder (s : OpenScope) : List Node :=
  s.earlier.reverse.flatMap OpenBlock.preorder ++ s.current.preorder

theorem preorder_nest (earlier : List OpenBlock) (n : Node) :
    Node.preorder [Builder.nest earlier n] =
      earlier.reverse.flatMap OpenBlock.preorder ++ Node.preorder [n] := by
  induction earlier generalizing n with
  | nil => simp [Builder.nest]
  | cons b earlier ih =>
    have nested : Node.preorder [(b.add n).close] = b.preorder ++ Node.preorder [n] :=
      b.preorder_add n
    change Node.preorder [Builder.nest earlier (b.add n).close] = _
    rw [ih, nested]
    simp

theorem preorder_close (s : OpenScope) : Node.preorder [s.close] = s.preorder :=
  preorder_nest s.earlier s.current.close

end OpenScope

namespace Builder

/-- All that has been built: the roots, and below them the scopes that are open, each inside the one
around it. -/
def preorder (b : Builder) : List Node :=
  Node.preorder b.roots.reverse ++ b.scopes.reverse.flatMap OpenScope.preorder

theorem preorder_add (b : Builder) (n : Node) :
    (b.add n).preorder = b.preorder ++ Node.preorder [n] := by
  obtain ⟨roots, scopes⟩ := b
  cases scopes with
  | nil => simp [add, preorder]
  | cons s scopes => simp [add, preorder, OpenScope.preorder, OpenBlock.preorder_add]

theorem preorder_push (roots : List Node) (s : OpenScope) (outer : List OpenScope) :
    preorder ⟨roots, s :: outer⟩ = preorder ⟨roots, outer⟩ ++ s.preorder := by
  simp [preorder]

theorem preorder_add_close (roots : List Node) (s : OpenScope) (outer : List OpenScope) :
    (add s.close ⟨roots, outer⟩).preorder = preorder ⟨roots, s :: outer⟩ := by
  rw [preorder_add, preorder_push, OpenScope.preorder_close]

theorem length_scopes_add (b : Builder) (n : Node) : (b.add n).scopes.length = b.scopes.length := by
  obtain ⟨roots, scopes⟩ := b
  cases scopes <;> rfl

theorem preorder_finish (b : Builder) : Node.preorder b.finish.roots = b.preorder := by
  obtain ⟨roots, scopes⟩ := b
  -- On the number of open scopes: the innermost one is closed into the one around it.
  induction hl : scopes.length generalizing roots scopes with
  | zero =>
    rw [List.eq_nil_of_length_eq_zero hl]
    simp [finish, closeScopes, preorder]
  | succ len ih =>
    cases scopes with
    | nil => simp at hl
    | cons s outer =>
      have shorter : (add s.close ⟨roots, outer⟩).scopes.length = len := by
        rw [length_scopes_add]
        simpa using hl
      rw [finish_add_close, ih _ _ shorter, preorder_add_close]

theorem preorder_step {tags : List Tag} {b b' : Builder} {t : Token}
    (h : step tags b t = .ok b') : b'.preorder = b.preorder ++ Token.bareNodes tags [t] := by
  obtain ⟨roots, scopes⟩ := b
  rcases effect : t.effect tags with ⟨_ | _, _ | _⟩
  · have made : Token.bareNodes tags [t] = [leafOf t] := by
      simp [Token.bareNodes, Token.closesOnly, Token.bareNode, effect]
    rw [step_leaf _ effect] at h
    rw [← Except.ok.inj h, preorder_add, Node.preorder_leafOf, made]
  · have made : Token.bareNodes tags [t] = [] := by
      simp [Token.bareNodes, Token.closesOnly, effect]
    cases scopes with
    | nil => simp [step_stray (show (t.effect tags).2 = true by rw [effect])] at h
    | cons s outer =>
      rw [step_close effect] at h
      rw [← Except.ok.inj h, preorder_add_close, made, List.append_nil]
  all_goals
    have made : Token.bareNodes tags [t] = [.block t.kind t.parameters t.indentation []] := by
      simp [Token.bareNodes, Token.closesOnly, Token.bareNode, effect]
  · rw [step_open _ effect] at h
    rw [← Except.ok.inj h, preorder_push, made]
    simp [OpenScope.preorder, OpenBlock.preorder_ofToken]
  · cases scopes with
    | nil => simp [step_stray (show (t.effect tags).2 = true by rw [effect])] at h
    | cons s outer =>
      rw [step_branch effect] at h
      rw [← Except.ok.inj h, preorder_push, preorder_push, made]
      simp [OpenScope.preorder, OpenBlock.preorder_ofToken]

theorem preorder_steps {tags : List Tag} {ts : List Token} {b b' : Builder}
    (h : ts.foldlM (step tags) b = .ok b') :
    b'.preorder = b.preorder ++ Token.bareNodes tags ts := by
  induction ts generalizing b with
  | nil =>
    rw [← Except.ok.inj h]
    simp [Token.bareNodes]
  | cons t ts ih =>
    rw [List.foldlM_cons] at h
    obtain ⟨c, first, others⟩ := exists_of_bind_eq_ok h
    rw [ih others, preorder_step first, List.append_assoc, ← Token.bareNodes_append]
    rfl

end Builder

/-- A tree that is built holds one node for each token that does more than close, and no other:
walked from its roots down, it gives these tokens in their order, each with its kind, its parameters
and its indentation, or with its text. -/
theorem walk_gives_tokens (tags : List Tag) (tokens : List Token) (forest : Forest)
    (built : Forest.ofTokens tags tokens = .ok forest) :
    (Node.walkAll forest.roots).map Node.bare =
      (tokens.filter fun t => !t.closesOnly tags).map (Token.bareNode tags) := by
  obtain ⟨b, taken, rfl⟩ := map_eq_ok_iff.1 built
  have whole := Builder.preorder_steps taken
  have nothing : Builder.empty.preorder = [] := rfl
  rw [← Builder.preorder_finish, nothing, List.nil_append] at whole
  exact whole

section Example

def tangledTokens : List Token :=
  [bareToken "if" (some "a"), bareToken "for" (some "b in c"), bareToken "variable" (some "b"),
    bareToken "endif" none, bareToken "else" none, ⟨"text", 2, false, false, none, some "d", 30⟩]

def tangledRoot : Node :=
  .block "if" (some "a") 0
    [.block "for" (some "b in c") 0 [.leaf "variable" (some "b") 0],
      .block "else" none 0 [.text "d" 2]]

theorem tangled_tokens_are_walked :
    Forest.ofTokens Tag.shared tangledTokens = .ok ⟨[tangledRoot], ["else"]⟩ ∧
      (Node.walkAll [tangledRoot]).map Node.bare =
        [.block "if" (some "a") 0 [], .block "for" (some "b in c") 0 [],
          .leaf "variable" (some "b") 0, .block "else" none 0 [], .text "d" 2] := by
  have built : Forest.ofTokens Tag.shared tangledTokens = .ok ⟨[tangledRoot], ["else"]⟩ := by rfl
  refine ⟨built, ?_⟩
  rw [walk_gives_tokens _ _ _ built]
  rfl

end Example

end Stencil.Template
