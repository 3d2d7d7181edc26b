import Stencil.Compile
import Stencil.Proofs.Outcome

set_option autoImplicit false

/-!
# What compiling a node calls for

One equation for each directive and for each way in which a chain of branches can go on.
-/

namespace Stencil.Compile

open Template

variable {env : Env} {n next : Node}

theorem outcome_metadata {parameters : Option String} {data : Meta}
    (hd : Meta.ofParameters parameters = .ok data) (s : Session) :
    (metadata parameters).outcome s =
      if data.childOnly && s.scope.atRoot then (.error .cancelled, s)
      else
        match Arguments.checkReserved data.defaults with
        | .error f => (.error f, s)
        | .ok _ =>
          if s.scope.frames.isEmpty then
            (.ok [], s.record .debug "No scope frame to receive meta defaults")
          else (.ok [], { s with scope := bindDefaults data.defaults s.scope }) := by
  unfold metadata
  rw [hd]
  simp only [Eval.outcome_bind, Eval.outcome_ofExcept, Eval.outcome_scope]
  split
  · rfl
  · cases Arguments.checkReserved data.defaults with
    | error f => rfl
    | ok _ =>
      split
      · rfl
      · rfl

/-- A block that calls for a directive that all dialects share. -/
structure Acts (env : Env) (n : Node) (d : Directive) : Prop where
  block : n.isBlock = true
  shared : env.dialect.extension? n.kind = none
  directive : Directive.ofKind? n.kind = some d

theorem Acts.of_block {kind : String} {parameters : Option String} {indentation : Nat}
    {children : List Node} {d : Directive} (hn : env.dialect.extension? kind = none)
    (hd : Directive.ofKind? kind = some d) :
    Acts env (.block kind parameters indentation children) d :=
  ⟨rfl, hn, hd⟩

theorem Acts.of_dialect {env' : Env} {d : Directive} (h : Acts env n d)
    (same : env'.dialect.extension? n.kind = env.dialect.extension? n.kind) : Acts env' n d :=
  ⟨h.block, same.trans h.shared, h.directive⟩

theorem exists_block (h : n.isBlock = true) :
    ∃ kind parameters indentation children, n = .block kind parameters indentation children := by
  cases n with
  | text v i => exact nomatch h
  | leaf k p i => exact nomatch h
  | block k p i cs => exact ⟨k, p, i, cs, rfl⟩

theorem node_native {e : Extension} (block : n.isBlock = true)
    (he : env.dialect.extension? n.kind = some e) :
    node env n =
      Eval.ofExcept (argument e n.parameters) >>= fun given =>
        (if e.opens then nodes env n.children else pure []) >>= fun body =>
          pure [.native (e.before given) body e.after] := by
  obtain ⟨k, p, i, cs, rfl⟩ := exists_block block
  change env.dialect.extension? k = some e at he
  rw [node]
  simp only [he]
  congr
  funext given
  split <;> rfl

def loopBody (env : Env) : Node → Eval (List Residual)
  | .block _ _ _ children => nodes env children
  | _ => throw .missingPart

theorem loopBody_of_isBlock (block : n.isBlock = true) : loopBody env n = nodes env n.children := by
  obtain ⟨k, p, i, cs, rfl⟩ := exists_block block
  rfl

/-- What the directives do that need no body, or no other body than that of a loop. -/
def plainly (env : Env) (n : Node) : Directive → Eval (List Residual)
  | .echo => echo n.parameters
  | .render => env.render n.parameters n.indentation
  | .metadata => metadata n.parameters
  | .loop => loop n.parameters (loopBody env n)
  | _ => node env n

/-- What the directives do with a body. -/
def bodily (env : Env) (n : Node) : Directive → Eval (List Residual)
  | .text => throw .missingPart
  | .cond => chain env n
  | .ifNot =>
    Eval.ofExcept (unlessName n.parameters) >>= fun name =>
      Eval.scope >>= fun scope =>
        match scope.condition? name with
        | some v => if v.truthy then following env n else nodes env n.branchBody
        | none =>
          nodes env n.branchBody >>= fun body =>
            if n.nextBranch.isSome then
              following env n >>= fun otherwise => pure [.ifNot name body (some otherwise)]
            else pure [.ifNot name body none]
  | .comment => nodes env n.children >>= fun body => pure [.comment body]
  | d => plainly env n d

theorem node_bodily {d : Directive} (h : Acts env n d) : node env n = bodily env n d := by
  obtain ⟨block, hn, hd⟩ := h
  obtain ⟨k, p, i, cs, rfl⟩ := exists_block block
  change env.dialect.extension? k = none at hn
  change Directive.ofKind? k = some d at hd
  rw [node]
  simp only [hn, hd]
  cases d <;> rfl

theorem node_cond (h : Acts env n .cond) : node env n = chain env n :=
  node_bodily h

theorem node_ifNot (h : Acts env n .ifNot) :
    node env n =
      Eval.ofExcept (unlessName n.parameters) >>= fun name =>
        Eval.scope >>= fun scope =>
          match scope.condition? name with
          | some v => if v.truthy then following env n else nodes env n.branchBody
          | none =>
            nodes env n.branchBody >>= fun body =>
              if n.nextBranch.isSome then
                following env n >>= fun otherwise => pure [.ifNot name body (some otherwise)]
              else pure [.ifNot name body none] :=
  node_bodily h

theorem node_comment (h : Acts env n .comment) :
    node env n = nodes env n.children >>= fun body => pure [.comment body] :=
  node_bodily h

theorem node_text (h : Acts env n .text) : node env n = throw .missingPart :=
  node_bodily h

theorem node_unknown (block : n.isBlock = true) (hn : env.dialect.extension? n.kind = none)
    (hd : Directive.ofKind? n.kind = none) : node env n = throw (.unknownNode n.kind) := by
  obtain ⟨k, p, i, cs, rfl⟩ := exists_block block
  change env.dialect.extension? k = none at hn
  change Directive.ofKind? k = none at hd
  rw [node]
  simp only [hn, hd]
  rfl

theorem node_plainly {d : Directive} (hn : env.dialect.extension? n.kind = none)
    (hd : Directive.ofKind? n.kind = some d) : node env n = plainly env n d := by
  cases n with
  | text v i =>
    obtain rfl := Option.some.inj hd
    rfl
  | leaf k p i =>
    change env.dialect.extension? k = none at hn
    change Directive.ofKind? k = some d at hd
    cases d <;> first
      | rfl
      | rw [node, leaf]
        simp only [hn, hd]
        rfl
  | block k p i cs =>
    change env.dialect.extension? k = none at hn
    change Directive.ofKind? k = some d at hd
    cases d <;> first
      | rfl
      | rw [node]
        simp only [hn, hd]
        rfl

theorem following_none (h : n.nextBranch = none) : following env n = pure [] := by
  rw [following]
  split
  · rfl
  · rename_i hs
    rw [h] at hs
    simp at hs

theorem following_some (h : n.nextBranch = some next) : following env n = chain env next := by
  rw [following]
  split
  · rename_i hs
    rw [h] at hs
    simp at hs
  · rename_i other hs
    rw [h] at hs
    rw [Option.some.inj hs]

theorem chain_else (h : n.kind = "else") : chain env n = nodes env n.branchBody := by
  rw [chain, if_pos h]

theorem chain_if (h : n.kind ≠ "else") :
    chain env n =
      Eval.ofExcept (Condition.ofParameters n.parameters) >>= fun condition =>
        Eval.scope >>= fun scope =>
          match scope.condition? condition.name with
          | some v =>
            Eval.ofExcept (v.fulfils condition.comparison) >>= fun holds =>
              if holds then nodes env n.branchBody else following env n
          | none =>
            nodes env n.branchBody >>= fun body =>
              branches env n >>= fun rest =>
                pure [.cond condition body rest.further rest.otherwise] := by
  rw [chain]
  exact if_neg h

theorem branches_none (h : n.nextBranch = none) : branches env n = pure ⟨[], none⟩ := by
  rw [branches]
  split
  · rfl
  · rename_i hs
    rw [h] at hs
    simp at hs

theorem branches_else (h : n.nextBranch = some next) (he : next.kind = "else") :
    branches env n =
      nodes env next.branchBody >>= fun body => pure ⟨[], some body⟩ := by
  rw [branches]
  split
  · rename_i hs
    rw [h] at hs
    simp at hs
  · rename_i other hs
    rw [h] at hs
    rw [← Option.some.inj hs, if_pos he]

theorem branches_if (h : n.nextBranch = some next) (he : next.kind ≠ "else") :
    branches env n =
      Eval.ofExcept (Condition.ofParameters next.parameters) >>= fun condition =>
        Eval.scope >>= fun scope =>
          match scope.condition? condition.name with
          | some v =>
            Eval.ofExcept (v.fulfils condition.comparison) >>= fun holds =>
              if holds then
                nodes env next.branchBody >>= fun body => pure ⟨[(condition, body)], none⟩
              else branches env next
          | none =>
            nodes env next.branchBody >>= fun body =>
              branches env next >>= fun rest =>
                pure ⟨(condition, body) :: rest.further, rest.otherwise⟩ := by
  rw [branches]
  split
  · rename_i hs
    rw [h] at hs
    simp at hs
  · rename_i other hs
    rw [h] at hs
    rw [← Option.some.inj hs]
    exact if_neg he

section Induction

variable {OfNode OfFollowing OfChain OfBranches : Node → Prop} {OfNodes : List Node → Prop}

/-- Induction along the equations: what holds of a part if it holds of all that compiling the part
calls for. -/
theorem parts_induction (env : Env)
    (text : ∀ value indentation, OfNode (.text value indentation))
    (leaf : ∀ kind parameters indentation, OfNode (.leaf kind parameters indentation))
    (native : ∀ n e, n.isBlock = true → env.dialect.extension? n.kind = some e →
      OfNodes n.children → OfNode n)
    (cond : ∀ n, Acts env n .cond → OfChain n → OfNode n)
    (ifNot : ∀ n, Acts env n .ifNot → OfFollowing n → OfNodes n.branchBody → OfNode n)
    (loop : ∀ n, Acts env n .loop → OfNodes n.children → OfNode n)
    (comment : ∀ n, Acts env n .comment → OfNodes n.children → OfNode n)
    (echo : ∀ n, Acts env n .echo → OfNode n)
    (render : ∀ n, Acts env n .render → OfNode n)
    (metadata : ∀ n, Acts env n .metadata → OfNode n)
    (textBlock : ∀ n, Acts env n .text → OfNode n)
    (unknown : ∀ n, n.isBlock = true → env.dialect.extension? n.kind = none →
      Directive.ofKind? n.kind = none → OfNode n)
    (last : ∀ n, n.nextBranch = none → OfFollowing n)
    (next : ∀ n m, n.nextBranch = some m → OfChain m → OfFollowing n)
    (chainElse : ∀ n, n.kind = "else" → OfNodes n.branchBody → OfChain n)
    (chainIf : ∀ n, n.kind ≠ "else" → OfNodes n.branchBody → OfFollowing n → OfBranches n →
      OfChain n)
    (branchesNone : ∀ n, n.nextBranch = none → OfBranches n)
    (branchesElse : ∀ n m, n.nextBranch = some m → m.kind = "else" → OfNodes m.branchBody →
      OfBranches n)
    (branchesIf : ∀ n m, n.nextBranch = some m → m.kind ≠ "else" → OfNodes m.branchBody →
      OfBranches m → OfBranches n)
    (nil : OfNodes [])
    (cons : ∀ n ns, OfNode n → OfNodes ns → OfNodes (n :: ns)) :
    (∀ n, OfNode n) ∧ (∀ n, OfFollowing n) ∧ (∀ n, OfChain n) ∧ (∀ n, OfBranches n) ∧
      ∀ ns, OfNodes ns :=
  node.mutual_induct env OfNode OfFollowing OfChain OfBranches OfNodes text leaf
    (fun k p i cs e he => native (.block k p i cs) e rfl he)
    (fun _ _ _ _ hn hd => cond _ (.of_block hn hd))
    (fun _ _ _ _ hn hd => ifNot _ (.of_block hn hd))
    (fun k p i cs hn hd => loop (.block k p i cs) (.of_block hn hd))
    (fun k p i cs hn hd => comment (.block k p i cs) (.of_block hn hd))
    (fun _ _ _ _ hn hd => echo _ (.of_block hn hd))
    (fun _ _ _ _ hn hd => render _ (.of_block hn hd))
    (fun _ _ _ _ hn hd => metadata _ (.of_block hn hd))
    (fun _ _ _ _ hn hd => textBlock _ (.of_block hn hd))
    (fun k p i cs hn hd => unknown (.block k p i cs) rfl hn hd)
    last next chainElse chainIf branchesNone branchesElse branchesIf nil cons

end Induction

end Stencil.Compile
