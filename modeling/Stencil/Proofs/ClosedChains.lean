import Stencil.Proofs.Chaining
import Stencil.Proofs.ScopeDiscipline

set_option autoImplicit false

/-!
# What is written for a chain of branches

What the scope says of the branches of a chain is all that decides what is written for it. The
chain is read up to the first branch that settles it, and those known to be false are left out; the
rest is written in order, between one opening and one end, or as a body alone where the first of
them settles the chain. Nothing of the other branches is looked at.
-/

namespace Stencil

/-- What is known of a branch that is not known to be false. -/
inductive Standing
  | otherwise
  | holds (condition : Condition)
  | unknown (condition : Condition)
  deriving Repr, DecidableEq

def Standing.settles : Standing → Bool
  | otherwise | holds _ => true
  | unknown _ => false

def Standing.opening (f : Fragments) : Standing → String
  | otherwise => f.openElse
  | holds c | unknown c => f.openElseif c

def Scope.standing? (scope : Scope) (c : Condition) : Except Failure (Option Standing) :=
  match scope.condition? c.name with
  | none => .ok (some (.unknown c))
  | some v => (v.fulfils c.comparison).map fun holds => if holds then some (.holds c) else none

namespace Template.Node

def standing? (scope : Scope) (n : Node) : Except Failure (Option Standing) :=
  if n.kind = "else" then .ok (some .otherwise)
  else Condition.ofParameters n.parameters >>= scope.standing?

/-- Whether nothing behind the branch is looked at: it settles its chain, or its condition fails. -/
def ends (scope : Scope) (n : Node) : Bool :=
  match n.standing? scope with
  | .error _ => true
  | .ok none => false
  | .ok (some standing) => standing.settles

theorem chain_induction {motive : Node → Prop} (last : ∀ n, n.nextBranch = none → motive n)
    (more : ∀ n next, n.nextBranch = some next → motive next → motive n) (n : Node) : motive n := by
  cases hnext : n.nextBranch with
  | none => exact last n hnext
  | some next => exact more n next hnext (chain_induction last more next)
termination_by sizeOf n
decreasing_by exact Compile.sizeOf_nextBranch hnext

end Template.Node

namespace Compile

open Template

/-- The branches up to the first one that ends the chain. -/
def lookedAt (scope : Scope) : List Node → List Node
  | [] => []
  | n :: ns => n :: if n.ends scope then [] else lookedAt scope ns

def planned? (scope : Scope) (n : Node) : Option (Except Failure Standing × List Node) :=
  match n.standing? scope with
  | .error f => some (.error f, n.branchBody)
  | .ok none => none
  | .ok (some standing) => some (.ok standing, n.branchBody)

/-- The branches that the output is made of. -/
def plan (scope : Scope) (ns : List Node) : List (Except Failure Standing × List Node) :=
  (lookedAt scope ns).filterMap (planned? scope)

def bodyOutput (env : Env) (f : Fragments) (shown : Bool) (body : List Node) : Eval String :=
  Residual.renderAll f shown <$> nodes env body

def furtherOutput (f : Fragments) (text : List Node → Eval String)
    (branch : Except Failure Standing × List Node) : Eval String := do
  let standing ← Eval.ofExcept branch.1
  let body ← text branch.2
  return standing.opening f ++ body

def chainOutput (f : Fragments) (text : List Node → Eval String) :
    List (Except Failure Standing × List Node) → Eval String
  | [] => return ""
  | (first, body) :: others => do
    match ← Eval.ofExcept first with
    | .otherwise | .holds _ => text body
    | .unknown condition =>
      let body ← text body
      let further ← others.mapM (furtherOutput f text)
      return f.openIf condition ++ body ++ String.join further ++ f.closeIf

section Plan

variable {scope : Scope} {n : Node} (ns : List Node)

theorem plan_failed {f : Failure} (h : n.standing? scope = .error f) :
    plan scope (n :: ns) = [(.error f, n.branchBody)] := by
  simp [plan, lookedAt, planned?, Node.ends, h]

theorem plan_refused (h : n.standing? scope = .ok none) :
    plan scope (n :: ns) = plan scope ns := by
  simp [plan, lookedAt, planned?, Node.ends, h]

theorem plan_settled {standing : Standing} (h : n.standing? scope = .ok (some standing))
    (settles : standing.settles = true) :
    plan scope (n :: ns) = [(.ok standing, n.branchBody)] := by
  simp [plan, lookedAt, planned?, Node.ends, h, settles]

theorem plan_unknown {c : Condition} (h : n.standing? scope = .ok (some (.unknown c))) :
    plan scope (n :: ns) = (.ok (.unknown c), n.branchBody) :: plan scope ns := by
  simp [plan, lookedAt, planned?, Node.ends, h, Standing.settles]

theorem plan_append_ends (before : List Node) (h : n.ends scope = true) :
    plan scope (before ++ n :: ns) = plan scope (before ++ [n]) := by
  have same : lookedAt scope (before ++ n :: ns) = lookedAt scope (before ++ [n]) := by
    induction before with
    | nil => simp [lookedAt, h]
    | cons m before ih => simp [lookedAt, ih]
  rw [plan, same, plan]

theorem plan_append_refused (before : List Node) (h : n.standing? scope = .ok none) :
    plan scope (before ++ n :: ns) = plan scope (before ++ ns) := by
  induction before with
  | nil => exact plan_refused ns h
  | cons m before ih =>
    simp only [plan, List.cons_append, lookedAt] at ih ⊢
    split
    · rfl
    · simp only [List.filterMap_cons, ih]

end Plan

/-- A node outside of whose loops no `meta` directive stands. -/
inductive Steady (dialect : Dialect) : Node → Prop
  | loop {n : Node} (shared : dialect.extension? n.kind = none)
      (directive : Directive.ofKind? n.kind = some .loop) : Steady dialect n
  | node {n : Node}
      (self : dialect.extension? n.kind = none → Directive.ofKind? n.kind ≠ some .metadata)
      (below : ∀ c ∈ n.children, Steady dialect c) : Steady dialect n

namespace Steady

variable {dialect : Dialect} {n : Node}

theorem self (h : Steady dialect n) (shared : dialect.extension? n.kind = none) :
    Directive.ofKind? n.kind ≠ some .metadata := by
  cases h with
  | loop _ directive => simp [directive]
  | node self _ => exact self shared

theorem children (h : Steady dialect n)
    (other : dialect.extension? n.kind = none → Directive.ofKind? n.kind ≠ some .loop) :
    ∀ c ∈ n.children, Steady dialect c := by
  cases h with
  | loop shared directive => exact absurd directive (other shared)
  | node _ below => exact below

theorem of_acts {env : Env} {d : Directive} (h : Steady env.dialect n) (acts : Acts env n d)
    (other : d ≠ .loop) : ∀ c ∈ n.children, Steady env.dialect c := by
  refine h.children fun _ directive => other ?_
  rw [acts.directive] at directive
  exact Option.some.inj directive

theorem of_nextBranch {next : Node} (h : ∀ c ∈ n.children, Steady dialect c)
    (hnext : n.nextBranch = some next) : ∀ c ∈ next.children, Steady dialect c := by
  refine (h next (Node.mem_children_of_nextBranch hnext)).children fun _ => ?_
  have continues := (Option.filter_eq_some_iff.1 hnext).2
  have named : next.kind = "elseif" ∨ next.kind = "else" := by
    simpa [Node.Continues, continuationKinds] using (Node.isContinuation_iff.1 continues).2
  rcases named with named | named <;> simp [named, Directive.ofKind?]

end Steady

def Part.Steady (dialect : Dialect) : Part → Prop
  | node n => Compile.Steady dialect n
  | nodes ns => ∀ n ∈ ns, Compile.Steady dialect n
  | following n | chain n | branches n => ∀ c ∈ n.children, Compile.Steady dialect c

theorem Calls.steady {env : Env} {p q : Part × Session} (hp : p.1.Steady env.dialect)
    (h : Calls env p q) : q.1.Steady env.dialect := by
  cases h with
  | head => exact hp _ List.mem_cons_self
  | tail => exact fun m hm => hp m (List.mem_cons_of_mem _ hm)
  | native _ he => exact hp.children fun shared => nomatch he.symm.trans shared
  | comment acts | cond acts | unlessTrue acts | unlessElse acts => exact hp.of_acts acts nofun
  | unlessBody acts =>
    exact fun c hc => hp.of_acts acts nofun c (Node.mem_children_of_branchBody hc)
  | elseBody | chainBody => exact fun c hc => hp c (Node.mem_children_of_branchBody hc)
  | next hnext | laterNext hnext | laterRest hnext => exact Steady.of_nextBranch hp hnext
  | laterElse hnext | laterBody hnext =>
    exact fun c hc => Steady.of_nextBranch hp hnext c (Node.mem_children_of_branchBody hc)
  | chainNext | chainRest => exact hp

theorem outcome_standing {α : Type} {n : Node} (he : n.kind ≠ "else")
    (k : Option Standing → Eval α) (s : Session) :
    (Eval.ofExcept (Condition.ofParameters n.parameters) >>= fun c =>
      Eval.scope >>= fun scope =>
        match scope.condition? c.name with
        | some v =>
          Eval.ofExcept (v.fulfils c.comparison) >>= fun holds =>
            if holds then k (some (.holds c)) else k none
        | none => k (some (.unknown c))).outcome s =
      (Eval.ofExcept (n.standing? s.scope) >>= k).outcome s := by
  unfold Node.standing?
  rw [if_neg he]
  cases Condition.ofParameters n.parameters with
  | error f => rfl
  | ok c =>
    change (match s.scope.condition? c.name with
      | some v =>
        Eval.ofExcept (v.fulfils c.comparison) >>= fun holds =>
          if holds then k (some (.holds c)) else k none
      | none => k (some (.unknown c))).outcome s =
        (Eval.ofExcept (s.scope.standing? c) >>= k).outcome s
    unfold Scope.standing?
    cases s.scope.condition? c.name with
    | none => rfl
    | some v =>
      dsimp only
      cases v.fulfils c.comparison with
      | error f => rfl
      | ok holds => cases holds <;> rfl

theorem outcome_chain (env : Env) (n : Node) (s : Session) :
    (chain env n).outcome s =
      (Eval.ofExcept (n.standing? s.scope) >>= fun
        | none => following env n
        | some .otherwise | some (.holds _) => nodes env n.branchBody
        | some (.unknown c) =>
          nodes env n.branchBody >>= fun body =>
            branches env n >>= fun rest =>
              pure [.cond c body rest.further rest.otherwise]).outcome s := by
  by_cases he : n.kind = "else"
  · rw [chain_else he, Node.standing?, if_pos he]
    rfl
  · refine Eq.trans ?_ (outcome_standing he _ s)
    exact congrArg (Eval.outcome · s) (chain_if he)

theorem outcome_branches (env : Env) {n next : Node} (hnext : n.nextBranch = some next)
    (s : Session) :
    (branches env n).outcome s =
      (Eval.ofExcept (next.standing? s.scope) >>= fun
        | none => branches env next
        | some .otherwise => nodes env next.branchBody >>= fun body => pure ⟨[], some body⟩
        | some (.holds c) => nodes env next.branchBody >>= fun body => pure ⟨[(c, body)], none⟩
        | some (.unknown c) =>
          nodes env next.branchBody >>= fun body =>
            branches env next >>= fun rest =>
              pure ⟨(c, body) :: rest.further, rest.otherwise⟩).outcome s := by
  by_cases he : next.kind = "else"
  · rw [branches_else hnext he, Node.standing?, if_pos he]
    rfl
  · refine Eq.trans ?_ (outcome_standing he _ s)
    exact congrArg (Eval.outcome · s) (branches_if hnext he)

def Branches.text (f : Fragments) (shown : Bool) (b : Branches) : String :=
  Residual.renderFurther f shown b.further ++ Residual.renderElse f shown b.otherwise

theorem mapM_furtherOutput_cons {f : Fragments} {text : List Node → Eval String}
    (standing : Except Failure Standing) (body : List Node)
    (others : List (Except Failure Standing × List Node)) :
    String.join <$> ((standing, body) :: others).mapM (furtherOutput f text) =
      Eval.ofExcept standing >>= fun standing => text body >>= fun body =>
        (standing.opening f ++ body ++ ·) <$>
          String.join <$> others.mapM (furtherOutput f text) := by
  simp only [List.mapM_cons, furtherOutput, map_eq_pure_bind, bind_assoc, pure_bind,
    String.join_cons]

section Branches

variable {env : Env} (f : Fragments) (shown : Bool)
  (render : ∀ parameters indentation s,
    ((env.render parameters indentation).outcome s).2.scope = s.scope)
include render

theorem scope_steady {ns : List Node} (steady : ∀ n ∈ ns, Steady env.dialect n) (s : Session) :
    ((nodes env ns).outcome s).2.scope = s.scope := by
  have reduces : Reduces (fun act _ s => Session.scope (act.outcome s).2 = Session.scope s)
      (fun p => p.1.Steady env.dialect) env env := by
    constructor
    · intro p q hp call
      exact call.steady hp
    · intro n s _
      rfl
    · intro n s _ _ _ _
      exact scope_loop (keepsBut_loopBody render n) n.parameters s
    · intro n s _ _ _
      exact render n.parameters n.indentation s
    · intro n s hn shared directive
      exact absurd directive (hn.self shared)
  exact (local_parts (Eval.local_keeps Session.scope) reduces).2.2.2.2 ns s steady

theorem outcome_body {body : List Node} (steady : ∀ n ∈ body, Steady env.dialect n) {s : Session}
    {k : List Residual → Eval String} {k' : String → Eval String}
    (h : ∀ rs t, t.scope = s.scope →
      (k rs).outcome t = (k' (Residual.renderAll f shown rs)).outcome t) :
    (nodes env body >>= k).outcome s = (bodyOutput env f shown body >>= k').outcome s := by
  simp only [bodyOutput, map_eq_pure_bind, bind_assoc, pure_bind]
  refine local_outcome.bind rfl fun rs t compiled => h rs t ?_
  rw [← scope_steady render steady s, compiled]

theorem text_branches (n : Node) (s : Session)
    (steady : ∀ branch ∈ plan s.scope n.laterBranches, ∀ c ∈ branch.2, Steady env.dialect c) :
    (Branches.text f shown <$> branches env n).outcome s =
      (String.join <$> (plan s.scope n.laterBranches).mapM
        (furtherOutput f (bodyOutput env f shown))).outcome s := by
  -- For all sessions: a body that is written first leaves another log, but the same scope.
  induction n using Node.chain_induction generalizing s with
  | last n hnext =>
    rw [branches_none hnext, Node.laterBranches_none hnext]
    rfl
  | more n next hnext ih =>
    rw [Node.laterBranches_some hnext] at steady ⊢
    rw [Eval.outcome_map_congr (outcome_branches env hnext s)]
    cases standing : next.standing? s.scope with
    | error failure =>
      rw [plan_failed _ standing, mapM_furtherOutput_cons]
      rfl
    | ok known =>
      match known with
      | none =>
        rw [plan_refused _ standing] at steady ⊢
        exact ih s steady
      | some .otherwise =>
        rw [plan_settled _ standing rfl] at steady ⊢
        rw [mapM_furtherOutput_cons, Eval.ofExcept_ok, Eval.ofExcept_ok, pure_bind, pure_bind,
          map_bind]
        refine outcome_body f shown render (steady _ List.mem_cons_self) fun rs t _ => ?_
        simp [Branches.text, Standing.opening, Residual.renderFurther, Residual.renderElse]
      | some (.holds c) =>
        rw [plan_settled _ standing rfl] at steady ⊢
        rw [mapM_furtherOutput_cons, Eval.ofExcept_ok, Eval.ofExcept_ok, pure_bind, pure_bind,
          map_bind]
        refine outcome_body f shown render (steady _ List.mem_cons_self) fun rs t _ => ?_
        simp [Branches.text, Standing.opening, Residual.renderFurther, Residual.renderElse]
      | some (.unknown c) =>
        rw [plan_unknown _ standing] at steady ⊢
        obtain ⟨still, later⟩ := List.forall_mem_cons.1 steady
        rw [mapM_furtherOutput_cons, Eval.ofExcept_ok, Eval.ofExcept_ok, pure_bind, pure_bind,
          map_bind]
        refine outcome_body f shown render still fun rs t same => ?_
        rw [← same] at later ⊢
        rw [← Eval.outcome_map_congr (ih t later)]
        simp [Branches.text, Standing.opening, Residual.renderFurther, String.append_assoc]

theorem text_chain_step (n : Node) (s : Session)
    (steady : ∀ branch ∈ plan s.scope (n :: n.laterBranches), ∀ c ∈ branch.2, Steady env.dialect c)
    (follow : n.standing? s.scope = .ok none →
      (Residual.renderAll f shown <$> following env n).outcome s =
        (chainOutput f (bodyOutput env f shown) (plan s.scope n.laterBranches)).outcome s) :
    (Residual.renderAll f shown <$> chain env n).outcome s =
      (chainOutput f (bodyOutput env f shown) (plan s.scope (n :: n.laterBranches))).outcome s := by
  rw [Eval.outcome_map_congr (outcome_chain env n s)]
  cases standing : n.standing? s.scope with
  | error failure =>
    rw [plan_failed _ standing]
    rfl
  | ok known =>
    match known with
    | none =>
      rw [plan_refused _ standing]
      exact follow standing
    | some .otherwise | some (.holds c) =>
      rw [plan_settled _ standing rfl]
      rfl
    | some (.unknown c) =>
      rw [plan_unknown _ standing] at steady ⊢
      obtain ⟨still, later⟩ := List.forall_mem_cons.1 steady
      rw [chainOutput, Eval.ofExcept_ok, Eval.ofExcept_ok, pure_bind, pure_bind, map_bind]
      refine outcome_body f shown render still fun rs t same => ?_
      rw [← same] at later ⊢
      have rest := Eval.outcome_map_congr (text_branches f shown render n t later)
        (f.openIf c ++ Residual.renderAll f shown rs ++ · ++ f.closeIf)
      simpa [Residual.renderAll, Residual.render, Branches.text, String.append_assoc] using rest

theorem text_chain (n : Node) (s : Session)
    (steady : ∀ branch ∈ plan s.scope (n :: n.laterBranches),
      ∀ c ∈ branch.2, Steady env.dialect c) :
    (Residual.renderAll f shown <$> chain env n).outcome s =
      (chainOutput f (bodyOutput env f shown) (plan s.scope (n :: n.laterBranches))).outcome s := by
  induction n using Node.chain_induction with
  | last n hnext =>
    refine text_chain_step f shown render n s steady fun _ => ?_
    rw [following_none hnext, Node.laterBranches_none hnext]
    rfl
  | more n next hnext ih =>
    refine text_chain_step f shown render n s steady fun refused => ?_
    rw [plan_refused _ refused, Node.laterBranches_some hnext] at steady
    rw [following_some hnext, Node.laterBranches_some hnext]
    exact ih steady

end Branches

end Compile

namespace Transform

open Template Compile

/-- What is written for a chain of branches: nothing, the body alone that settles the chain, or the
branches that are left to the runtime, each behind its own tag, with one end behind the last. Only
the bodies that are written have to be free of `meta` directives; what stands behind a branch that
ends the chain, and all of a branch that is known to be false, could be anything else. -/
theorem chain_is_written_as_planned (settings : Settings) (depth : Nat) (shown : Bool) (n : Node)
    (s : Session) (acts : Acts (env settings (contentsWithin settings depth)) n .cond)
    (steady : ∀ branch ∈ plan s.scope (n :: n.laterBranches),
      ∀ c ∈ branch.2, Steady settings.dialect c) :
    (Residual.renderAll settings.dialect.fragments shown <$>
        node (env settings (contentsWithin settings depth)) n).outcome s =
      (chainOutput settings.dialect.fragments
        (bodyOutput (env settings (contentsWithin settings depth)) settings.dialect.fragments shown)
        (plan s.scope (n :: n.laterBranches))).outcome s ∧
    (∀ before branch later, n :: n.laterBranches = before ++ branch :: later →
      branch.ends s.scope = true →
      plan s.scope (n :: n.laterBranches) = plan s.scope (before ++ [branch])) ∧
    ∀ before branch later, n :: n.laterBranches = before ++ branch :: later →
      branch.standing? s.scope = .ok none →
      plan s.scope (n :: n.laterBranches) = plan s.scope (before ++ later) := by
  refine ⟨?_, ?_, ?_⟩
  · rw [node_cond acts]
    exact text_chain _ shown (scope_renderWithin settings depth) n s steady
  · intro before branch later split ends
    rw [split]
    exact plan_append_ends later before ends
  · intro before branch later split refused
    rw [split]
    exact plan_append_refused later before refused

section Example

def settledBranch : Node :=
  .block "elseif" (some "c") 0 [.text "C" 0, .block "elseif" none 0 [.leaf "meta" none 0]]

def openBody : List Node :=
  [.text "B" 0, .block "for" (some "x in xs") 0 [.leaf "meta" none 0]]

def openBranch : Node :=
  .block "elseif" (some "b") 0 (openBody ++ [settledBranch])

def mixedChain : Node :=
  .block "if" (some "a") 0 [.leaf "meta" none 0, openBranch]

def mixedSession : Session :=
  ⟨⟨[[(.str "a", .bool false), (.str "c", .bool true), (.str "xs", .list [])]], none⟩, []⟩

theorem plan_mixedChain :
    plan mixedSession.scope (mixedChain :: mixedChain.laterBranches) =
      [(.ok (.unknown ⟨"b", none⟩), openBody), (.ok (.holds ⟨"c", none⟩), [.text "C" 0])] := by
  have first : mixedChain.nextBranch = some openBranch := rfl
  have second : openBranch.nextBranch = some settledBranch := rfl
  have refused : mixedChain.standing? mixedSession.scope = .ok none := rfl
  have unknown : openBranch.standing? mixedSession.scope = .ok (some (.unknown ⟨"b", none⟩)) := rfl
  have holds : settledBranch.standing? mixedSession.scope = .ok (some (.holds ⟨"c", none⟩)) := rfl
  rw [Node.laterBranches_some first, Node.laterBranches_some second, plan_refused _ refused,
    plan_unknown _ unknown, plan_settled _ holds rfl]
  rfl

def mixedSettings : Settings := ⟨.php, ".liquid", ⟨[], [], []⟩⟩

theorem mixed_chain_is_written :
    (∀ branch ∈ plan mixedSession.scope (mixedChain :: mixedChain.laterBranches),
      ∀ c ∈ branch.2, Steady .php c) ∧
    ((Residual.renderAll mixedSettings.dialect.fragments false <$>
        node (env mixedSettings (contentsWithin mixedSettings 1)) mixedChain).outcome
      mixedSession).1 =
      .ok "<?php if ($b) : ?>B<?php elseif ($c) : ?>C<?php endif; ?>" := by
  have steady : ∀ branch ∈ plan mixedSession.scope (mixedChain :: mixedChain.laterBranches),
      ∀ c ∈ branch.2, Steady .php c := by
    have text (value : String) : Steady .php (.text value 0) :=
      .node (fun _ => by simp [Node.kind, Directive.ofKind?]) nofun
    have loop : Steady .php (.block "for" (some "x in xs") 0 [.leaf "meta" none 0]) := .loop rfl rfl
    rw [plan_mixedChain]
    simp [openBody, text, loop]
  refine ⟨steady, ?_⟩
  rw [(chain_is_written_as_planned mixedSettings 1 false mixedChain mixedSession
    (.of_block rfl rfl) steady).1, plan_mixedChain]
  cbv

end Example

end Transform

end Stencil
