import Stencil.Proofs.CompileEquations
import Stencil.Proofs.Outcome
import Stencil.Proofs.Walk

set_option autoImplicit false

/-!
# Which parts of a template are compiled

`Calls` says what compiling a part of a template leads to, and in which session: nodes in order,
the branches that are not known to be false, the bodies of the others. Loops and components are
entered elsewhere, since they push a frame. `sequential_parts` is the induction that goes with it:
what sequences of computations share, and loops, components, meta data and all that reads the scope
have, holds of every part that is compiled. Where computations find one scope, reading it is for
free (`local_parts`).
-/

namespace Stencil.Compile

open Template

inductive Part
  | node (n : Node)
  | nodes (ns : List Node)
  | following (n : Node)
  | chain (n : Node)
  | branches (n : Node)

def Open (scope : Scope) (c : Condition) : Prop :=
  ∀ v, scope.condition? c.name = some v → v.fulfils c.comparison = .ok true

def Refused (scope : Scope) (c : Condition) : Prop :=
  ∃ v, scope.condition? c.name = some v ∧ v.fulfils c.comparison = .ok false

/-- What compiling a part leads to in the same frame. -/
inductive Calls (env : Env) : Part × Session → Part × Session → Prop
  | head {n : Node} {rest : List Node} {s : Session} :
    Calls env (.nodes (n :: rest), s) (.node n, s)
  | tail {n : Node} {rest : List Node} {rs : List Residual} {s t : Session}
      (first : (node env n).outcome s = (.ok rs, t)) :
    Calls env (.nodes (n :: rest), s) (.nodes rest, t)
  | native {n : Node} {s : Session} {e : Extension} {given : String}
      (block : n.isBlock = true) (he : env.dialect.extension? n.kind = some e)
      (arg : argument e n.parameters = .ok given) (opens : e.opens = true) :
    Calls env (.node n, s) (.nodes n.children, s)
  | cond {n : Node} {s : Session} (acts : Acts env n .cond) :
    Calls env (.node n, s) (.chain n, s)
  | comment {n : Node} {s : Session} (acts : Acts env n .comment) :
    Calls env (.node n, s) (.nodes n.children, s)
  | unlessBody {n : Node} {s : Session} {name : String} (acts : Acts env n .ifNot)
      (asked : unlessName n.parameters = .ok name)
      (falsy : ∀ v, s.scope.condition? name = some v → v.truthy = false) :
    Calls env (.node n, s) (.nodes n.branchBody, s)
  | unlessTrue {n : Node} {s : Session} {name : String} {v : Value} (acts : Acts env n .ifNot)
      (asked : unlessName n.parameters = .ok name) (known : s.scope.condition? name = some v)
      (truthy : v.truthy = true) :
    Calls env (.node n, s) (.following n, s)
  | unlessElse {n : Node} {s t : Session} {name : String} {rs : List Residual}
      (acts : Acts env n .ifNot) (asked : unlessName n.parameters = .ok name)
      (unknown : s.scope.condition? name = none)
      (body : (nodes env n.branchBody).outcome s = (.ok rs, t))
      (more : n.nextBranch.isSome = true) :
    Calls env (.node n, s) (.following n, t)
  | next {n next : Node} {s : Session} (hnext : n.nextBranch = some next) :
    Calls env (.following n, s) (.chain next, s)
  | elseBody {n : Node} {s : Session} (he : n.kind = "else") :
    Calls env (.chain n, s) (.nodes n.branchBody, s)
  | chainBody {n : Node} {s : Session} {c : Condition} (he : n.kind ≠ "else")
      (hc : Condition.ofParameters n.parameters = .ok c) (holds : Open s.scope c) :
    Calls env (.chain n, s) (.nodes n.branchBody, s)
  | chainNext {n : Node} {s : Session} {c : Condition} (he : n.kind ≠ "else")
      (hc : Condition.ofParameters n.parameters = .ok c) (fails : Refused s.scope c) :
    Calls env (.chain n, s) (.following n, s)
  | chainRest {n : Node} {s t : Session} {c : Condition} {rs : List Residual}
      (he : n.kind ≠ "else") (hc : Condition.ofParameters n.parameters = .ok c)
      (unknown : s.scope.condition? c.name = none)
      (body : (nodes env n.branchBody).outcome s = (.ok rs, t)) :
    Calls env (.chain n, s) (.branches n, t)
  | laterElse {n next : Node} {s : Session} (hnext : n.nextBranch = some next)
      (he : next.kind = "else") :
    Calls env (.branches n, s) (.nodes next.branchBody, s)
  | laterBody {n next : Node} {s : Session} {c : Condition} (hnext : n.nextBranch = some next)
      (he : next.kind ≠ "else") (hc : Condition.ofParameters next.parameters = .ok c)
      (holds : Open s.scope c) :
    Calls env (.branches n, s) (.nodes next.branchBody, s)
  | laterNext {n next : Node} {s : Session} {c : Condition} (hnext : n.nextBranch = some next)
      (he : next.kind ≠ "else") (hc : Condition.ofParameters next.parameters = .ok c)
      (fails : Refused s.scope c) :
    Calls env (.branches n, s) (.branches next, s)
  | laterRest {n next : Node} {s t : Session} {c : Condition} {rs : List Residual}
      (hnext : n.nextBranch = some next) (he : next.kind ≠ "else")
      (hc : Condition.ofParameters next.parameters = .ok c)
      (unknown : s.scope.condition? c.name = none)
      (body : (nodes env next.branchBody).outcome s = (.ok rs, t)) :
    Calls env (.branches n, s) (.branches next, t)

theorem open_of_none {scope : Scope} {c : Condition} (h : scope.condition? c.name = none) :
    Open scope c := by
  intro v hv
  rw [h] at hv
  exact nomatch hv

theorem open_of_some {scope : Scope} {c : Condition} {v : Value}
    (h : scope.condition? c.name = some v) (hv : v.fulfils c.comparison = .ok true) :
    Open scope c := by
  intro w hw
  rw [h] at hw
  rw [← Option.some.inj hw]
  exact hv

def Part.Every (Q : Node → Prop) : Part → Prop
  | node n | following n | chain n | branches n => Node.Every Q n
  | nodes ns => ∀ n ∈ ns, Node.Every Q n

theorem Calls.every {Q : Node → Prop} {env : Env} {p q : Part × Session} (hp : p.1.Every Q)
    (h : Calls env p q) : q.1.Every Q := by
  cases h with
  | head => exact hp _ List.mem_cons_self
  | tail => exact fun m hm => hp m (List.mem_cons_of_mem _ hm)
  | native | comment => exact fun _ => hp.children
  | unlessBody | elseBody | chainBody => exact hp.branchBody
  | next hnext => exact hp.nextBranch hnext
  | laterElse hnext | laterBody hnext => exact (hp.nextBranch hnext).branchBody
  | laterNext hnext | laterRest hnext => exact hp.nextBranch hnext
  | cond | unlessTrue | unlessElse | chainNext | chainRest => exact hp

theorem keeps_loopItems (parameters : Option String) : Eval.Keeps id (loopItems parameters) := by
  intro s
  unfold loopItems
  split
  · rfl
  · rw [Eval.outcome_scope_bind]
    simp only
    split
    · rfl
    · rfl

/-- The names whose values decide which branch of a part is compiled. -/
inductive Asked (env : Env) : Part → String → Prop
  | ifNot {n : Node} {name : String} (acts : Acts env n .ifNot)
      (asked : unlessName n.parameters = .ok name) :
    Asked env (.node n) name
  | branch {n : Node} {c : Condition} (he : n.kind ≠ "else")
      (hc : Condition.ofParameters n.parameters = .ok c) :
    Asked env (.chain n) c.name
  | later {n next : Node} {c : Condition} (hnext : n.nextBranch = some next)
      (he : next.kind ≠ "else") (hc : Condition.ofParameters next.parameters = .ok c) :
    Asked env (.branches n) c.name

/-- What a relation of computations has to fulfil to hold of every part that is compiled: `H`
tells the parts and the sessions that they are compiled in. -/
structure Reduces (P : ∀ {α : Type}, Eval α → Eval α → Session → Prop)
    (H : Part × Session → Prop) (env env' : Env) : Prop where
  calls : ∀ {p q}, H p → Calls env p q → H q
  dialects : ∀ {n s}, H (.node n, s) →
    env'.dialect.extension? n.kind = env.dialect.extension? n.kind
  loop : ∀ {n s}, H (.node n, s) → env.dialect.extension? n.kind = none →
    Directive.ofKind? n.kind = some .loop →
    (∀ t, H (.nodes n.children, t) → P (loopBody env n) (loopBody env' n) t) →
    P (Compile.loop n.parameters (loopBody env n)) (Compile.loop n.parameters (loopBody env' n)) s
  render : ∀ {n s}, H (.node n, s) → env.dialect.extension? n.kind = none →
    Directive.ofKind? n.kind = some .render →
    P (env.render n.parameters n.indentation) (env'.render n.parameters n.indentation) s
  metadata : ∀ {n s}, H (.node n, s) → env.dialect.extension? n.kind = none →
    Directive.ofKind? n.kind = some .metadata →
    P (Compile.metadata n.parameters) (Compile.metadata n.parameters) s

/-- What it has to fulfil beyond that if the two computations may find different scopes: variables
and the names that are asked for have to be compared as well. -/
structure Answers (P : ∀ {α : Type}, Eval α → Eval α → Session → Prop)
    (H : Part × Session → Prop) (env env' : Env) : Prop extends Reduces P H env env' where
  echo : ∀ {n s}, H (.node n, s) → env.dialect.extension? n.kind = none →
    Directive.ofKind? n.kind = some .echo →
    P (Compile.echo n.parameters) (Compile.echo n.parameters) s
  asks : ∀ {p s name}, H (p, s) → Asked env p name →
    ∀ {β : Type} {f g : Option Value → Eval β},
      P (f (s.scope.condition? name)) (g (s.scope.condition? name)) s →
      P (Eval.scope >>= fun scope => f (scope.condition? name))
        (Eval.scope >>= fun scope => g (scope.condition? name)) s

section Sequential

variable {P : ∀ {α : Type}, Eval α → Eval α → Session → Prop} {H : Part × Session → Prop}
  {env env' : Env} (hP : Eval.Sequential P)
include hP

theorem sequential_loop {parameters : Option String} {body body' : Eval (List Residual)}
    {s : Session} (read : P (loopItems parameters) (loopItems parameters) s)
    (record : ∀ level message t, P (Eval.record level message) (Eval.record level message) t)
    (each : ∀ item collection done v later rs t frame,
      (loopItems parameters).outcome s = (.ok (item, collection, done ++ v :: later), s) →
      (done.mapM (forItem item body)).outcome s = (.ok rs, t) →
      Frame.expand (.str item) v [] = .ok frame →
      P (Eval.withFrame frame body) (Eval.withFrame frame body') t) :
    P (loop parameters body) (loop parameters body') s := by
  unfold loop
  refine hP.bind read fun read t hread => ?_
  obtain ⟨item, collection, items⟩ := read
  have still : t = s := keeps_loopItems parameters |>.ok hread
  rw [still] at hread ⊢
  refine hP.bind (hP.mapM ?_) fun _ u _ => hP.bind (record _ _ u) fun _ _ _ => hP.pure _
  intro done v later rs u split hdone
  rw [split] at hread
  exact hP.read fun frame bound => each item collection done v later rs u frame hread hdone bound

theorem sequential_branch {c : Condition} {s : Session} {β : Type}
    (ask : ∀ {f g : Option Value → Eval β},
      P (f (s.scope.condition? c.name)) (g (s.scope.condition? c.name)) s →
      P (Eval.scope >>= fun scope => f (scope.condition? c.name))
        (Eval.scope >>= fun scope => g (scope.condition? c.name)) s)
    {yes yes' no no' later later' : Eval β}
    (hyes : Open s.scope c → P yes yes' s) (hno : Refused s.scope c → P no no' s)
    (hlater : s.scope.condition? c.name = none → P later later' s) :
    P (Eval.scope >>= fun scope =>
        match scope.condition? c.name with
        | some v =>
          Eval.ofExcept (v.fulfils c.comparison) >>= fun holds => if holds then yes else no
        | none => later)
      (Eval.scope >>= fun scope =>
        match scope.condition? c.name with
        | some v =>
          Eval.ofExcept (v.fulfils c.comparison) >>= fun holds => if holds then yes' else no'
        | none => later') s := by
  refine ask
    (f := fun
      | some v => Eval.ofExcept (v.fulfils c.comparison) >>= fun holds => if holds then yes else no
      | none => later)
    (g := fun
      | some v =>
        Eval.ofExcept (v.fulfils c.comparison) >>= fun holds => if holds then yes' else no'
      | none => later') ?_
  cases hv : s.scope.condition? c.name with
  | some v =>
    refine hP.read fun holds hh => ?_
    cases holds with
    | true => exact hyes (open_of_some hv hh)
    | false => exact hno ⟨v, hv, hh⟩
  | none => exact hlater hv

omit hP in
theorem sequential_unless {name : String} {s : Session} {β : Type}
    (ask : ∀ {f g : Option Value → Eval β},
      P (f (s.scope.condition? name)) (g (s.scope.condition? name)) s →
      P (Eval.scope >>= fun scope => f (scope.condition? name))
        (Eval.scope >>= fun scope => g (scope.condition? name)) s)
    {yes yes' no no' later later' : Eval β}
    (hyes : ∀ v, s.scope.condition? name = some v → v.truthy = true → P yes yes' s)
    (hno : (∀ v, s.scope.condition? name = some v → v.truthy = false) → P no no' s)
    (hlater : s.scope.condition? name = none → P later later' s) :
    P (Eval.scope >>= fun scope =>
        match scope.condition? name with
        | some v => if v.truthy then yes else no
        | none => later)
      (Eval.scope >>= fun scope =>
        match scope.condition? name with
        | some v => if v.truthy then yes' else no'
        | none => later') s := by
  refine ask
    (f := fun
      | some v => if v.truthy then yes else no
      | none => later)
    (g := fun
      | some v => if v.truthy then yes' else no'
      | none => later') ?_
  cases hv : s.scope.condition? name with
  | some v =>
    simp only
    split
    · rename_i truthy
      exact hyes v hv truthy
    · rename_i falsy
      refine hno fun w hw => ?_
      rw [← Option.some.inj (hv.symm.trans hw)]
      exact Bool.eq_false_iff.2 falsy
  | none => exact hlater hv

variable (hr : Answers P H env env')
include hr

theorem sequential_leaf {kind : String} {parameters : Option String} {indentation : Nat}
    {s : Session} (h : H (.node (.leaf kind parameters indentation), s)) :
    P (leaf env kind parameters indentation) (leaf env' kind parameters indentation) s := by
  have same : env'.dialect.extension? kind = env.dialect.extension? kind := hr.dialects h
  unfold leaf
  rw [same]
  split
  · refine hP.read fun given _ => ?_
    split
    · exact hP.bind (hP.throw _) fun _ _ _ => hP.pure _
    · exact hP.pure _
  · rename_i hn
    split
    · rename_i hd
      have := hr.echo h hn hd
      exact this
    · rename_i hd
      have := hr.render h hn hd
      exact this
    · rename_i hd
      have := hr.metadata h hn hd
      exact this
    · exact hP.read fun _ _ => hP.throw _
    · rename_i hd
      have := hr.loop h hn hd fun _ _ => hP.throw _
      exact this
    all_goals exact hP.throw _

theorem sequential_ifNot {n : Node} {s : Session} (h : H (.node n, s)) (acts : Acts env n .ifNot)
    (ihFollowing : ∀ t, H (.following n, t) → P (following env n) (following env' n) t)
    (ihBody : ∀ t, H (.nodes n.branchBody, t) →
      P (nodes env n.branchBody) (nodes env' n.branchBody) t) :
    P (node env n) (node env' n) s := by
  rw [node_ifNot acts, node_ifNot (acts.of_dialect (hr.dialects h))]
  refine hP.read fun name hname => sequential_unless (hr.asks h (.ifNot acts hname)) ?_ ?_ ?_
  · intro v known truthy
    exact ihFollowing s (hr.calls h (.unlessTrue acts hname known truthy))
  · intro falsy
    exact ihBody s (hr.calls h (.unlessBody acts hname falsy))
  · intro unknown
    have body := ihBody s (hr.calls h (.unlessBody acts hname fun v hv => by
      rw [unknown] at hv
      cases hv))
    refine hP.bind body fun rs t hrs => ?_
    split
    · rename_i more
      have next := ihFollowing t (hr.calls h (.unlessElse acts hname unknown hrs more))
      exact hP.bind next fun _ _ _ => hP.pure _
    · exact hP.pure _

theorem sequential_chain {n : Node} {s : Session} (h : H (.chain n, s)) (he : n.kind ≠ "else")
    (ihBody : ∀ t, H (.nodes n.branchBody, t) →
      P (nodes env n.branchBody) (nodes env' n.branchBody) t)
    (ihFollowing : ∀ t, H (.following n, t) → P (following env n) (following env' n) t)
    (ihBranches : ∀ t, H (.branches n, t) → P (branches env n) (branches env' n) t) :
    P (chain env n) (chain env' n) s := by
  rw [chain_if he, chain_if he]
  refine hP.read fun c hc => sequential_branch hP (hr.asks h (.branch he hc)) ?_ ?_ ?_
  · intro holds
    exact ihBody s (hr.calls h (.chainBody he hc holds))
  · intro fails
    exact ihFollowing s (hr.calls h (.chainNext he hc fails))
  · intro unknown
    have body := ihBody s (hr.calls h (.chainBody he hc (open_of_none unknown)))
    refine hP.bind body fun rs t hrs => ?_
    have rest := ihBranches t (hr.calls h (.chainRest he hc unknown hrs))
    exact hP.bind rest fun _ _ _ => hP.pure _

theorem sequential_branches {n next : Node} {s : Session} (h : H (.branches n, s))
    (hnext : n.nextBranch = some next) (he : next.kind ≠ "else")
    (ihBody : ∀ t, H (.nodes next.branchBody, t) →
      P (nodes env next.branchBody) (nodes env' next.branchBody) t)
    (ihBranches : ∀ t, H (.branches next, t) → P (branches env next) (branches env' next) t) :
    P (branches env n) (branches env' n) s := by
  rw [branches_if hnext he, branches_if hnext he]
  refine hP.read fun c hc => sequential_branch hP (hr.asks h (.later hnext he hc)) ?_ ?_ ?_
  · intro holds
    have body := ihBody s (hr.calls h (.laterBody hnext he hc holds))
    exact hP.bind body fun _ _ _ => hP.pure _
  · intro fails
    exact ihBranches s (hr.calls h (.laterNext hnext he hc fails))
  · intro unknown
    have body := ihBody s (hr.calls h (.laterBody hnext he hc (open_of_none unknown)))
    refine hP.bind body fun rs t hrs => ?_
    have rest := ihBranches t (hr.calls h (.laterRest hnext he hc unknown hrs))
    exact hP.bind rest fun _ _ _ => hP.pure _

/-- What sequences share and loops, components, meta data and all that reads the scope have holds of
every part. -/
theorem sequential_parts :
    (∀ n s, H (.node n, s) → P (node env n) (node env' n) s) ∧
    (∀ n s, H (.following n, s) → P (following env n) (following env' n) s) ∧
    (∀ n s, H (.chain n, s) → P (chain env n) (chain env' n) s) ∧
    (∀ n s, H (.branches n, s) → P (branches env n) (branches env' n) s) ∧
    (∀ ns s, H (.nodes ns, s) → P (nodes env ns) (nodes env' ns) s) := by
  have plain {n : Node} {s : Session} {d : Directive} (h : H (.node n, s)) (acts : Acts env n d) :
      node env n = plainly env n d ∧ node env' n = plainly env' n d :=
    ⟨node_plainly acts.shared acts.directive,
      node_plainly ((hr.dialects h).trans acts.shared) acts.directive⟩
  apply parts_induction env
  case text =>
    intro value indentation s _
    rw [node, node]
    exact hP.pure _
  case leaf =>
    intro kind parameters indentation s h
    rw [node, node]
    exact sequential_leaf hP hr h
  case native =>
    intro n e block he ih s h
    rw [node_native block he, node_native block ((hr.dialects h).trans he)]
    refine hP.read fun given harg => ?_
    split
    · rename_i opens
      have body := ih s (hr.calls h (.native block he harg opens))
      exact hP.bind body fun _ _ _ => hP.pure _
    · exact hP.bind (hP.pure _) fun _ _ _ => hP.pure _
  case cond =>
    intro n acts ih s h
    rw [node_cond acts, node_cond (acts.of_dialect (hr.dialects h))]
    exact ih s (hr.calls h (.cond acts))
  case ifNot =>
    intro n acts ihFollowing ihBody s h
    exact sequential_ifNot hP hr h acts ihFollowing ihBody
  case loop =>
    intro n acts ih s h
    rw [(plain h acts).1, (plain h acts).2]
    refine hr.loop h acts.shared acts.directive ?_
    obtain ⟨k, p, i, cs, rfl⟩ := exists_block acts.block
    exact ih
  case comment =>
    intro n acts ih s h
    rw [node_comment acts, node_comment (acts.of_dialect (hr.dialects h))]
    exact hP.bind (ih s (hr.calls h (.comment acts))) fun _ _ _ => hP.pure _
  case echo =>
    intro n acts s h
    rw [(plain h acts).1, (plain h acts).2]
    exact hr.echo h acts.shared acts.directive
  case render =>
    intro n acts s h
    rw [(plain h acts).1, (plain h acts).2]
    exact hr.render h acts.shared acts.directive
  case metadata =>
    intro n acts s h
    rw [(plain h acts).1, (plain h acts).2]
    exact hr.metadata h acts.shared acts.directive
  case textBlock =>
    intro n acts s h
    rw [node_text acts, node_text (acts.of_dialect (hr.dialects h))]
    exact hP.throw _
  case unknown =>
    intro n block hn hd s h
    rw [node_unknown block hn hd, node_unknown block ((hr.dialects h).trans hn) hd]
    exact hP.throw _
  case last =>
    intro n hnext s h
    rw [following_none hnext, following_none hnext]
    exact hP.pure _
  case next =>
    intro n next hnext ih s h
    rw [following_some hnext, following_some hnext]
    exact ih s (hr.calls h (.next hnext))
  case chainElse =>
    intro n he ih s h
    rw [chain_else he, chain_else he]
    exact ih s (hr.calls h (.elseBody he))
  case chainIf =>
    intro n he ihBody ihFollowing ihBranches s h
    exact sequential_chain hP hr h he ihBody ihFollowing ihBranches
  case branchesNone =>
    intro n hnext s h
    rw [branches_none hnext, branches_none hnext]
    exact hP.pure _
  case branchesElse =>
    intro n next hnext he ih s h
    rw [branches_else hnext he, branches_else hnext he]
    exact hP.bind (ih s (hr.calls h (.laterElse hnext he))) fun _ _ _ => hP.pure _
  case branchesIf =>
    intro n next hnext he ihBody ihBranches s h
    exact sequential_branches hP hr h hnext he ihBody ihBranches
  case nil =>
    intro s h
    rw [nodes, nodes]
    exact hP.pure _
  case cons =>
    intro n rest ihNode ihRest s h
    rw [nodes, nodes]
    refine hP.bind (ihNode s (hr.calls h .head)) fun rs t hrs => ?_
    exact hP.bind (ihRest t (hr.calls h (.tail hrs))) fun _ _ _ => hP.pure _

end Sequential

section Local

variable {P : ∀ {α : Type}, Eval α → Eval α → Session → Prop} {H : Part × Session → Prop}
  {env env' : Env} (hP : Eval.Local P)
include hP

theorem local_echo (parameters : Option String) (s : Session) :
    P (echo parameters) (echo parameters) s := by
  refine hP.look ?_
  split
  · exact hP.pure _
  · exact hP.ofExcept _ s
  · exact hP.read fun _ _ => hP.pure _

theorem local_loopItems (parameters : Option String) (s : Session) :
    P (loopItems parameters) (loopItems parameters) s := by
  unfold loopItems
  split
  · exact hP.throw _
  · refine hP.look ?_
    simp only
    split
    · exact hP.pure _
    · exact hP.throw _

theorem local_loop {parameters : Option String} {body body' : Eval (List Residual)} {s : Session}
    (record : ∀ level message t, P (Eval.record level message) (Eval.record level message) t)
    (each : ∀ item collection done v later rs t frame,
      (loopItems parameters).outcome s = (.ok (item, collection, done ++ v :: later), s) →
      (done.mapM (forItem item body)).outcome s = (.ok rs, t) →
      Frame.expand (.str item) v [] = .ok frame →
      P (Eval.withFrame frame body) (Eval.withFrame frame body') t) :
    P (loop parameters body) (loop parameters body') s :=
  sequential_loop hP.toSequential (local_loopItems hP parameters s) record each

theorem local_parts (hr : Reduces P H env env') :
    (∀ n s, H (.node n, s) → P (node env n) (node env' n) s) ∧
    (∀ n s, H (.following n, s) → P (following env n) (following env' n) s) ∧
    (∀ n s, H (.chain n, s) → P (chain env n) (chain env' n) s) ∧
    (∀ n s, H (.branches n, s) → P (branches env n) (branches env' n) s) ∧
    (∀ ns s, H (.nodes ns, s) → P (nodes env ns) (nodes env' ns) s) := by
  refine sequential_parts hP.toSequential ⟨hr, ?_, ?_⟩
  · intro n s _ _ _
    exact local_echo hP n.parameters s
  · intro p s name _ _ β f g h
    exact hP.look h

end Local

end Stencil.Compile
