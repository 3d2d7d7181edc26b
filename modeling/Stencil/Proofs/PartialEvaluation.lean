import Mathlib
import Stencil.Dialect.Php
import Stencil.Proofs.Calls
import Stencil.Proofs.CompileEquations
import Stencil.Proofs.Frames
import Stencil.Proofs.Lexemes
import Stencil.Proofs.Outcome
import Stencil.Proofs.Runtime
import Stencil.Proofs.Walk
import Stencil.Transform

set_option autoImplicit false

/-!
# Partial evaluation is sound

A template of texts, variables, conditions and comments is compiled twice, against a scope and
against one that knows more. Both residual templates print the same in every runtime that gives
the known names the values that they were known with.
-/

namespace Stencil.PartialEvaluation

open Template

def straightKinds : List String :=
  ["text", "variable", "if", "elseif", "else", "unless", "comment"]

def Straight (n : Node) : Prop := n.kind ∈ straightKinds

theorem not_straight_directive {n : Node} {d : Directive} (h : Straight n)
    (hd : Directive.ofKind? n.kind = some d) : d ≠ .loop ∧ d ≠ .render ∧ d ≠ .metadata := by
  have hk := Directive.ofKind?_eq_some.1 hd
  unfold Straight at h
  rw [hk] at h
  refine ⟨?_, ?_, ?_⟩ <;>
  · rintro rfl
    exact absurd h (by decide)

theorem keeps_straight (env : Compile.Env) :
    (∀ n, Node.Every Straight n → Eval.Keeps id (Compile.node env n)) ∧
    (∀ n, Node.Every Straight n → Eval.Keeps id (Compile.following env n)) ∧
    (∀ n, Node.Every Straight n → Eval.Keeps id (Compile.chain env n)) ∧
    (∀ n, Node.Every Straight n → Eval.Keeps id (Compile.branches env n)) ∧
    (∀ ns, (∀ n ∈ ns, Node.Every Straight n) → Eval.Keeps id (Compile.nodes env ns)) := by
  have reduces : Compile.Reduces (fun x _ s => id (x.outcome s).2 = id s)
      (fun p => p.1.Every Straight) env env := by
    constructor
    · exact Compile.Calls.every
    · intro n s h
      rfl
    · intro n s h hn hd
      exact absurd rfl (not_straight_directive (Node.Every.self h) hd).1
    · intro n s h hn hd
      exact absurd rfl (not_straight_directive (Node.Every.self h) hd).2.1
    · intro n s h hn hd
      exact absurd rfl (not_straight_directive (Node.Every.self h) hd).2.2
  obtain ⟨node, following, chain, branches, nodes⟩ :=
    Compile.local_parts (Eval.local_keeps id) reduces
  exact ⟨fun n h s => node n s h, fun n h s => following n s h, fun n h s => chain n s h,
    fun n h s => branches n s h, fun ns h s => nodes ns s h⟩

/-- What two scopes and a runtime have to do with each other: the second scope knows all that the
first one knows, the runtime gives the known names their values, and texts that only the second
scope knows name no variables. -/
structure Foreseen (known more : Scope) (rt : Runtime) : Prop where
  extended : ∀ {name v}, known.lookup? name = some v → more.lookup? name = some v
  realised : ∀ {name v}, more.lookup? name = some v → rt.value name = v
  unnested : ∀ {name text}, more.lookup? name = some (.str text) → known.lookup? name = none →
    ¬ Lexeme.braces <:+: text.toList
  unboundTrue : more.lookup? "true" = none
  unboundFalse : more.lookup? "false" = none
  isTrue : rt.value "true" = .bool true
  isFalse : rt.value "false" = .bool false

theorem condition?_eq_some {scope : Scope} {name : String} {v : Value} :
    scope.condition? name = some v ↔
      scope.lookup? name = some v ∨ (scope.lookup? name = none ∧
        (name = "true" ∧ v = .bool true ∨ name = "false" ∧ v = .bool false)) := by
  unfold Scope.condition?
  cases hl : scope.lookup? name with
  | some w => simp
  | none =>
    simp only [reduceCtorEq, false_or, true_and]
    split
    · simp [eq_comm]
    · simp [eq_comm]
    · rename_i notTrue notFalse
      exact ⟨nofun, fun h => h.elim (fun h => (notTrue h.1).elim) fun h => (notFalse h.1).elim⟩

namespace Foreseen

variable {known more : Scope} {rt : Runtime} (h : Foreseen known more rt)
include h

theorem value_of_condition? {name : String} {v : Value} (hv : more.condition? name = some v) :
    rt.value name = v := by
  rcases condition?_eq_some.1 hv with hv | ⟨-, ⟨rfl, rfl⟩ | ⟨rfl, rfl⟩⟩
  · exact h.realised hv
  · exact h.isTrue
  · exact h.isFalse

theorem condition?_more {name : String} {v : Value} (hv : known.condition? name = some v) :
    more.condition? name = some v := by
  rcases condition?_eq_some.1 hv with hv | ⟨-, ⟨rfl, rfl⟩ | ⟨rfl, rfl⟩⟩
  · exact condition?_eq_some.2 (.inl (h.extended hv))
  · exact condition?_eq_some.2 (.inr ⟨h.unboundTrue, .inl ⟨rfl, rfl⟩⟩)
  · exact condition?_eq_some.2 (.inr ⟨h.unboundFalse, .inr ⟨rfl, rfl⟩⟩)

theorem decides_of_condition? {c : Condition} {v : Value}
    (hv : more.condition? c.name = some v) : rt.decides c = v.fulfils c.comparison := by
  rw [Runtime.decides, h.value_of_condition? hv]

end Foreseen

/-- Two computations whose results, if both give one, are read as the same text. -/
def Agree {α β : Type} (s t : Session) (p : α → Except Failure String)
    (q : β → Except Failure String) (x : Eval α) (y : Eval β) : Prop :=
  ∀ a b, (x.outcome s).1 = .ok a → (y.outcome t).1 = .ok b → p a = q b

namespace Agree

variable {α β γ : Type} {s t : Session} {p : α → Except Failure String}
  {q : β → Except Failure String}

theorem pure {a : α} {b : β} (h : p a = q b) :
    Agree s t p q (Pure.pure a : Eval α) (Pure.pure b : Eval β) := by
  intro a' b' ha hb
  rw [← Except.ok.inj ha, ← Except.ok.inj hb]
  exact h

theorem left {x : Eval γ} {f : γ → Eval α} {y : Eval β} (hx : Eval.Keeps id x)
    (h : ∀ c, (x.outcome s).1 = .ok c → Agree s t p q (f c) y) : Agree s t p q (x >>= f) y := by
  intro a b ha hb
  have still : (x.outcome s).2 = s := hx s
  cases hc : x.outcome s with
  | mk r u =>
    rw [hc] at still h
    have hu : u = s := still
    cases r with
    | error e =>
      rw [Eval.outcome_bind_error hc] at ha
      exact absurd ha (by simp)
    | ok c =>
      rw [Eval.outcome_bind_ok hc, hu] at ha
      exact h c rfl a b ha hb

theorem symm {x : Eval α} {y : Eval β} (h : Agree t s q p y x) : Agree s t p q x y :=
  fun a b ha hb => (h b a hb ha).symm

theorem right {x : Eval α} {y : Eval γ} {g : γ → Eval β} (hy : Eval.Keeps id y)
    (h : ∀ c, (y.outcome t).1 = .ok c → Agree s t p q x (g c)) : Agree s t p q x (y >>= g) :=
  symm (left hy fun c hc => symm (h c hc))

theorem throw (f : Failure) (y : Eval β) :
    Agree s t p q (MonadExcept.throw f : Eval α) y :=
  fun _ _ ha _ => nomatch ha

theorem bind {δ : Type} {p' : γ → Except Failure String} {q' : δ → Except Failure String}
    {x : Eval γ} {y : Eval δ} {f : γ → Eval α} {g : δ → Eval β} (hx : Eval.Keeps id x)
    (hy : Eval.Keeps id y) (hxy : Agree s t p' q' x y)
    (h : ∀ c d, p' c = q' d → Agree s t p q (f c) (g d)) :
    Agree s t p q (x >>= f) (y >>= g) :=
  left hx fun c hc => right hy fun d hd => h c d (hxy c d hc hd)

theorem ofExcept {e : Except Failure γ} {f : γ → Eval α} {g : γ → Eval β}
    (h : ∀ c, e = .ok c → Agree s t p q (f c) (g c)) :
    Agree s t p q (Eval.ofExcept e >>= f) (Eval.ofExcept e >>= g) := by
  cases e with
  | error _ => exact fun _ _ ha _ => nomatch ha
  | ok c => exact h c rfl

theorem scope {f : Scope → Eval α} {g : Scope → Eval β}
    (h : Agree s t p q (f s.scope) (g t.scope)) :
    Agree s t p q (Eval.scope >>= f) (Eval.scope >>= g) :=
  h

end Agree

section Echo

variable {known more : Scope} {rt : Runtime}

theorem run_echoText (h : Foreseen known more rt) {owner : String} {l : Lexeme} {r r' : Residual}
    (hr : Compile.echoText known owner l = .ok r) (hr' : Compile.echoText more owner l = .ok r') :
    Residual.run rt r = Residual.run rt r' := by
  cases l with
  | text value =>
    rw [← Except.ok.inj hr, ← Except.ok.inj hr']
  | tag before after name parameters =>
    rw [← Except.ok.inj hr, ← Except.ok.inj hr']
  | interpolation before after name =>
    simp only [Compile.echoText] at hr hr'
    split at hr
    · rename_i own
      rw [if_pos own] at hr'
      rw [← Except.ok.inj hr, ← Except.ok.inj hr']
    · rename_i foreign
      rw [if_neg foreign] at hr'
      cases hk : known.lookup? (String.ofList name) with
      | some v =>
        simp only [hk, h.extended hk] at hr hr'
        rw [hr] at hr'
        rw [Except.ok.inj hr']
      | none =>
        simp only [hk] at hr
        rw [← Except.ok.inj hr]
        cases hm : more.lookup? (String.ofList name) with
        | none =>
          simp only [hm] at hr'
          rw [← Except.ok.inj hr']
        | some v =>
          simp only [hm] at hr'
          rw [Residual.run, h.realised hm]
          cases hv : v.stringify with
          | error e =>
            rw [hv] at hr'
            cases hr'
          | ok text =>
            rw [hv] at hr'
            rw [← Except.ok.inj hr', Residual.run]

theorem mapM_cons_eq_ok {α β : Type} {f : α → Except Failure β} {a : α} {as : List α}
    {bs : List β} (h : (a :: as).mapM f = .ok bs) :
    ∃ b rest, f a = .ok b ∧ as.mapM f = .ok rest ∧ bs = b :: rest := by
  rw [List.mapM_cons] at h
  cases hb : f a with
  | error e =>
    rw [hb] at h
    exact nomatch h
  | ok b =>
    rw [hb] at h
    cases hrest : as.mapM f with
    | error e =>
      rw [hrest] at h
      exact nomatch h
    | ok rest =>
      rw [hrest] at h
      exact ⟨b, rest, rfl, rfl, (Except.ok.inj h).symm⟩

theorem runAll_echoTexts (h : Foreseen known more rt) {owner : String}
    {ls : List (Lexeme × List Char)} {rs rs' : List Residual}
    (hr : ls.mapM (fun l => Compile.echoText known owner l.1) = .ok rs)
    (hr' : ls.mapM (fun l => Compile.echoText more owner l.1) = .ok rs') :
    Residual.runAll rt rs = Residual.runAll rt rs' := by
  induction ls generalizing rs rs' with
  | nil =>
    rw [List.mapM_nil] at hr hr'
    rw [← Except.ok.inj hr, ← Except.ok.inj hr']
  | cons l ls ih =>
    obtain ⟨r, rest, h1, h2, rfl⟩ := mapM_cons_eq_ok hr
    obtain ⟨r', rest', h1', h2', rfl⟩ := mapM_cons_eq_ok hr'
    rw [Residual.runAll, Residual.runAll, run_echoText h h1 h1', ih h2 h2']

theorem runAll_echoTexts_plain {scope : Scope} {owner : String} {ls : List (Lexeme × List Char)}
    {rs : List Residual} (hr : ls.mapM (fun l => Compile.echoText scope owner l.1) = .ok rs)
    (texts : ∀ l ∈ ls, l.1.isText = true) :
    Residual.runAll rt rs = .ok (String.ofList (ls.flatMap fun l => l.1.textChars)) := by
  induction ls generalizing rs with
  | nil =>
    rw [List.mapM_nil] at hr
    rw [← Except.ok.inj hr]
    rfl
  | cons l ls ih =>
    obtain ⟨r, rest, h1, h2, rfl⟩ := mapM_cons_eq_ok hr
    have hrest := ih h2 fun m hm => texts m (List.mem_cons_of_mem l hm)
    have hl := texts l List.mem_cons_self
    obtain ⟨l, source⟩ := l
    cases l with
    | text value =>
      rw [← Except.ok.inj h1, Residual.runAll, Residual.run, hrest, List.flatMap_cons,
        String.ofList_append]
      rfl
    | interpolation before after name => exact absurd hl Bool.false_ne_true
    | tag before after name parameters => exact absurd hl Bool.false_ne_true

end Echo

section Agreement

variable {s t : Session} {rt : Runtime}

abbrev Same (rt : Runtime) (s t : Session) (x y : Eval (List Residual)) : Prop :=
  Agree s t (Residual.runAll rt) (Residual.runAll rt) x y

theorem same_echo (h : Foreseen s.scope t.scope rt) (parameters : Option String) :
    Same rt s t (Compile.echo parameters) (Compile.echo parameters) := by
  apply Agree.scope
  cases hk : s.scope.lookup? (parameters.getD "") with
  | some v =>
    simp only [h.extended hk]
    split
    · contradiction
    · intro rs rs' hr hr'
      exact runAll_echoTexts h hr hr'
    · exact Agree.ofExcept fun text _ => Agree.pure rfl
  | none =>
    cases hm : t.scope.lookup? (parameters.getD "") with
    | none => exact Agree.pure rfl
    | some v =>
      have hv := h.realised hm
      simp only
      split
      · contradiction
      · rename_i text ht
        obtain rfl := Option.some.inj ht
        intro rs rs' hr hr'
        obtain ⟨texts, whole⟩ := Lexeme.all_nil_texts (h.unnested hm hk)
        rw [← Except.ok.inj hr, Residual.runAll_singleton, Residual.run, hv,
          runAll_echoTexts_plain hr' texts, whole, String.ofList_toList]
        rfl
      · rename_i w hw
        obtain rfl := Option.some.inj hw
        refine Agree.right (Eval.keeps_ofExcept id _) fun text htext => Agree.pure ?_
        rw [Residual.runAll_singleton, Residual.runAll_singleton, Residual.run, Residual.run, hv]
        exact htext

theorem same_leaf (h : Foreseen s.scope t.scope rt) (env : Compile.Env) {kind : String}
    {parameters : Option String} {indentation : Nat}
    (straight : Straight (.leaf kind parameters indentation)) :
    Same rt s t (Compile.leaf env kind parameters indentation)
      (Compile.leaf env kind parameters indentation) := by
  unfold Compile.leaf
  split
  · refine Agree.ofExcept fun given _ => ?_
    split
    · exact Agree.throw _ _
    · exact Agree.pure rfl
  · split
    · exact same_echo h parameters
    · rename_i hd
      exact absurd rfl (not_straight_directive straight hd).2.1
    · rename_i hd
      exact absurd rfl (not_straight_directive straight hd).2.2
    · exact Agree.ofExcept fun _ _ => Agree.throw _ _
    · rename_i hd
      exact absurd rfl (not_straight_directive straight hd).1
    all_goals exact Agree.throw _ _

def runBranches (rt : Runtime) (b : Compile.Branches) : Except Failure String :=
  Residual.runFurther rt (Residual.runElse rt b.otherwise) b.further

theorem runBranches_skip {c : Condition} (hc : rt.decides c = .ok false) {b : List Residual}
    {r : Compile.Branches} :
    runBranches rt ⟨(c, b) :: r.further, r.otherwise⟩ = runBranches rt r := by
  rw [runBranches, Residual.runFurther, Runtime.choose_false hc, runBranches]

theorem runBranches_take {c : Condition} (hc : rt.decides c = .ok true) {b : List Residual}
    {r : List (Condition × List Residual)} {o : Option (List Residual)} :
    runBranches rt ⟨(c, b) :: r, o⟩ = Residual.runAll rt b := by
  rw [runBranches, Residual.runFurther, Runtime.choose_true hc]

/-- The branches behind one that is left to the runtime, under the first scope, against the same
branches and against the chain that they make up, under the second. -/
structure BranchesAgree (rt : Runtime) (s t : Session) (env : Compile.Env) (n : Node) :
    Prop where
  branches : Agree s t (runBranches rt) (runBranches rt) (Compile.branches env n)
    (Compile.branches env n)
  following : Agree s t (runBranches rt) (Residual.runAll rt) (Compile.branches env n)
    (Compile.following env n)

variable {env : Compile.Env} {n next : Node} (h : Foreseen s.scope t.scope rt)
include h

theorem same_chain (straight : Node.Every Straight n) (he : n.kind ≠ "else")
    (body : Same rt s t (Compile.nodes env n.branchBody) (Compile.nodes env n.branchBody))
    (following : Same rt s t (Compile.following env n) (Compile.following env n))
    (further : BranchesAgree rt s t env n) :
    Same rt s t (Compile.chain env n) (Compile.chain env n) := by
  obtain ⟨-, -, -, stillBranches, stillNodes⟩ := keeps_straight env
  have bodyStill := stillNodes _ straight.branchBody
  have branchesStill := stillBranches n straight
  rw [Compile.chain_if he]
  refine Agree.ofExcept fun c _ => Agree.scope ?_
  cases hk : s.scope.condition? c.name with
  | some v =>
    simp only [h.condition?_more hk]
    refine Agree.ofExcept fun holds _ => ?_
    cases holds with
    | true => exact body
    | false => exact following
  | none =>
    cases hm : t.scope.condition? c.name with
    | none =>
      refine Agree.bind bodyStill bodyStill body fun b b' hb =>
        Agree.bind branchesStill branchesStill further.branches fun r r' hr => Agree.pure ?_
      rw [Residual.runAll_singleton, Residual.runAll_singleton, Residual.run, Residual.run, hb]
      exact congrArg (rt.choose c _) hr
    | some v =>
      refine Agree.right (Eval.keeps_ofExcept id _) fun holds hh => ?_
      have decided : rt.decides c = .ok holds := (h.decides_of_condition? hm).trans hh
      refine Agree.left bodyStill fun b hb => Agree.left branchesStill fun r hr => ?_
      intro rs rs' hrs hrs'
      rw [← Except.ok.inj hrs, Residual.runAll_singleton, Residual.run]
      cases holds with
      | true =>
        rw [Runtime.choose_true decided]
        exact body b rs' hb hrs'
      | false =>
        rw [Runtime.choose_false decided]
        exact further.following r rs' hr hrs'

theorem same_unless (acts : Compile.Acts env n .ifNot) (straight : Node.Every Straight n)
    (following : Same rt s t (Compile.following env n) (Compile.following env n))
    (body : Same rt s t (Compile.nodes env n.branchBody) (Compile.nodes env n.branchBody)) :
    Same rt s t (Compile.node env n) (Compile.node env n) := by
  obtain ⟨-, stillFollowing, -, -, stillNodes⟩ := keeps_straight env
  have bodyStill := stillNodes _ straight.branchBody
  have followingStill := stillFollowing _ straight
  rw [Compile.node_ifNot acts]
  refine Agree.ofExcept fun name _ => Agree.scope ?_
  cases hk : s.scope.condition? name with
  | some v =>
    simp only [h.condition?_more hk]
    split
    · exact following
    · exact body
  | none =>
    cases hm : t.scope.condition? name with
    | none =>
      refine Agree.bind bodyStill bodyStill body fun b b' hb => ?_
      split
      · refine Agree.bind followingStill followingStill following fun r r' hr => Agree.pure ?_
        rw [Residual.runAll_singleton, Residual.runAll_singleton, Residual.run, Residual.run,
          Residual.runElse, Residual.runElse, hb, hr]
      · refine Agree.pure ?_
        rw [Residual.runAll_singleton, Residual.runAll_singleton, Residual.run, Residual.run, hb]
    | some v =>
      have hv := h.value_of_condition? hm
      simp only
      refine Agree.left bodyStill fun b hb => ?_
      cases hnext : n.nextBranch with
      | some next =>
        simp only [Option.isSome_some, if_true]
        refine Agree.left followingStill fun r hr => ?_
        intro rs rs' hrs hrs'
        rw [← Except.ok.inj hrs, Residual.runAll_singleton, Residual.run, hv, Residual.runElse]
        split at hrs'
        · rename_i truthy
          rw [if_pos truthy]
          exact following r rs' hr hrs'
        · rename_i falsy
          rw [if_neg falsy]
          exact body b rs' hb hrs'
      | none =>
        intro rs rs' hrs hrs'
        rw [← Except.ok.inj hrs, Residual.runAll_singleton, Residual.run, hv, Residual.runElse]
        split at hrs'
        · rename_i truthy
          rw [Compile.following_none hnext] at hrs'
          rw [if_pos truthy, ← Except.ok.inj hrs', Residual.runAll]
        · rename_i falsy
          rw [if_neg falsy]
          exact body b rs' hb hrs'

omit h in
theorem branchesAgree_none (hnext : n.nextBranch = none) : BranchesAgree rt s t env n := by
  constructor
  · rw [Compile.branches_none hnext]
    exact Agree.pure rfl
  · rw [Compile.branches_none hnext, Compile.following_none hnext]
    exact Agree.pure rfl

omit h in
theorem branchesAgree_else (straight : Node.Every Straight next)
    (hnext : n.nextBranch = some next) (he : next.kind = "else")
    (body : Same rt s t (Compile.nodes env next.branchBody)
      (Compile.nodes env next.branchBody)) : BranchesAgree rt s t env n := by
  obtain ⟨-, -, -, -, stillNodes⟩ := keeps_straight env
  have bodyStill := stillNodes _ straight.branchBody
  constructor
  · rw [Compile.branches_else hnext he]
    exact Agree.bind bodyStill bodyStill body fun b b' hb => Agree.pure hb
  · rw [Compile.branches_else hnext he, Compile.following_some hnext, Compile.chain_else he]
    refine Agree.left bodyStill fun b hb => ?_
    intro r rs' hr hrs'
    rw [← Except.ok.inj hr]
    exact body b rs' hb hrs'

theorem branchesAgree_if (straight : Node.Every Straight next)
    (hnext : n.nextBranch = some next) (he : next.kind ≠ "else")
    (body : Same rt s t (Compile.nodes env next.branchBody) (Compile.nodes env next.branchBody))
    (further : BranchesAgree rt s t env next) : BranchesAgree rt s t env n := by
  obtain ⟨-, -, -, stillBranches, stillNodes⟩ := keeps_straight env
  have bodyStill := stillNodes _ straight.branchBody
  have branchesStill := stillBranches next straight
  constructor
  · rw [Compile.branches_if hnext he]
    refine Agree.ofExcept fun c _ => Agree.scope ?_
    cases hk : s.scope.condition? c.name with
    | some v =>
      simp only [h.condition?_more hk]
      refine Agree.ofExcept fun holds hh => ?_
      have decided : rt.decides c = .ok holds :=
        (h.decides_of_condition? (h.condition?_more hk)).trans hh
      cases holds with
      | true =>
        refine Agree.bind bodyStill bodyStill body fun b b' hb => Agree.pure ?_
        rw [runBranches_take decided, runBranches_take decided, hb]
      | false => exact further.branches
    | none =>
      cases hm : t.scope.condition? c.name with
      | none =>
        refine Agree.bind bodyStill bodyStill body fun b b' hb =>
          Agree.bind branchesStill branchesStill further.branches fun r r' hr => Agree.pure ?_
        rw [runBranches, runBranches, Residual.runFurther, Residual.runFurther, hb]
        exact congrArg (rt.choose c _) hr
      | some v =>
        refine Agree.left bodyStill fun b hb => Agree.left branchesStill fun r hr =>
          Agree.right (Eval.keeps_ofExcept id _) fun holds hh => ?_
        have decided : rt.decides c = .ok holds := (h.decides_of_condition? hm).trans hh
        cases holds with
        | true =>
          refine Agree.right bodyStill fun b' hb' => Agree.pure ?_
          rw [runBranches_take decided, runBranches_take decided]
          exact body b b' hb hb'
        | false =>
          intro a a' ha ha'
          rw [← Except.ok.inj ha, runBranches_skip decided]
          exact further.branches r a' hr ha'
  · rw [Compile.branches_if hnext he, Compile.following_some hnext, Compile.chain_if he]
    refine Agree.ofExcept fun c _ => Agree.scope ?_
    cases hk : s.scope.condition? c.name with
    | some v =>
      simp only [h.condition?_more hk]
      refine Agree.ofExcept fun holds hh => ?_
      have decided : rt.decides c = .ok holds :=
        (h.decides_of_condition? (h.condition?_more hk)).trans hh
      cases holds with
      | true =>
        refine Agree.left bodyStill fun b hb => ?_
        intro a rs' ha hrs'
        rw [← Except.ok.inj ha, runBranches_take decided]
        exact body b rs' hb hrs'
      | false => exact further.following
    | none =>
      cases hm : t.scope.condition? c.name with
      | none =>
        refine Agree.bind bodyStill bodyStill body fun b b' hb =>
          Agree.bind branchesStill branchesStill further.branches fun r r' hr => Agree.pure ?_
        rw [runBranches, Residual.runFurther, Residual.runAll_singleton, Residual.run, hb]
        exact congrArg (rt.choose c _) hr
      | some v =>
        refine Agree.left bodyStill fun b hb => Agree.left branchesStill fun r hr =>
          Agree.right (Eval.keeps_ofExcept id _) fun holds hh => ?_
        have decided : rt.decides c = .ok holds := (h.decides_of_condition? hm).trans hh
        intro a rs' ha hrs'
        rw [← Except.ok.inj ha]
        cases holds with
        | true =>
          rw [runBranches_take decided]
          exact body b rs' hb hrs'
        | false =>
          rw [runBranches_skip decided]
          exact further.following r rs' hr hrs'

theorem same_nodes (env : Compile.Env) :
    (∀ n, Node.Every Straight n → Same rt s t (Compile.node env n) (Compile.node env n)) ∧
    (∀ n, Node.Every Straight n →
      Same rt s t (Compile.following env n) (Compile.following env n)) ∧
    (∀ n, Node.Every Straight n → Same rt s t (Compile.chain env n) (Compile.chain env n)) ∧
    (∀ n, Node.Every Straight n → BranchesAgree rt s t env n) ∧
    (∀ ns, (∀ n ∈ ns, Node.Every Straight n) →
      Same rt s t (Compile.nodes env ns) (Compile.nodes env ns)) := by
  obtain ⟨stillNode, -, -, -, stillNodes⟩ := keeps_straight env
  apply Compile.parts_induction env
  case text =>
    intro value indentation _
    rw [Compile.node]
    exact Agree.pure rfl
  case leaf =>
    intro kind parameters indentation straight
    rw [Compile.node]
    exact same_leaf h env straight.self
  case native =>
    intro n e block he ih straight
    have below : ∀ c ∈ n.children, Node.Every Straight c := fun _ => straight.children
    rw [Compile.node_native block he]
    refine Agree.ofExcept fun given _ => ?_
    split
    · refine Agree.bind (stillNodes _ below) (stillNodes _ below) (ih below) fun b b' hb =>
        Agree.pure ?_
      rw [Residual.runAll_singleton, Residual.runAll_singleton, Residual.run, Residual.run, hb]
    · exact Agree.pure rfl
  case cond =>
    intro n acts ih straight
    rw [Compile.node_cond acts]
    exact ih straight
  case ifNot =>
    intro n acts ihFollowing ihBody straight
    exact same_unless h acts straight (ihFollowing straight) (ihBody straight.branchBody)
  case loop =>
    intro n acts _ straight
    exact absurd rfl (not_straight_directive straight.self acts.directive).1
  case comment =>
    intro n acts ih straight
    have below : ∀ c ∈ n.children, Node.Every Straight c := fun _ => straight.children
    rw [Compile.node_comment acts]
    refine Agree.bind (stillNodes _ below) (stillNodes _ below) (ih below) fun b b' hb =>
      Agree.pure ?_
    rw [Residual.runAll_singleton, Residual.runAll_singleton, Residual.run, Residual.run, hb]
  case echo =>
    intro n acts _
    rw [Compile.node_plainly acts.shared acts.directive]
    exact same_echo h n.parameters
  case render =>
    intro n acts straight
    exact absurd rfl (not_straight_directive straight.self acts.directive).2.1
  case metadata =>
    intro n acts straight
    exact absurd rfl (not_straight_directive straight.self acts.directive).2.2
  case textBlock =>
    intro n acts _
    rw [Compile.node_text acts]
    exact Agree.throw _ _
  case unknown =>
    intro n block hn hd _
    rw [Compile.node_unknown block hn hd]
    exact Agree.throw _ _
  case last =>
    intro n hnext _
    rw [Compile.following_none hnext]
    exact Agree.pure rfl
  case next =>
    intro n next hnext ih straight
    rw [Compile.following_some hnext]
    exact ih (straight.nextBranch hnext)
  case chainElse =>
    intro n he ih straight
    rw [Compile.chain_else he]
    exact ih straight.branchBody
  case chainIf =>
    intro n he ihBody ihFollowing ihBranches straight
    exact same_chain h straight he (ihBody straight.branchBody) (ihFollowing straight)
      (ihBranches straight)
  case branchesNone => exact fun n hnext _ => branchesAgree_none hnext
  case branchesElse =>
    intro n next hnext he ih straight
    have later := straight.nextBranch hnext
    exact branchesAgree_else later hnext he (ih later.branchBody)
  case branchesIf =>
    intro n next hnext he ihBody ihBranches straight
    have later := straight.nextBranch hnext
    exact branchesAgree_if h later hnext he (ihBody later.branchBody) (ihBranches later)
  case nil =>
    intro _
    rw [Compile.nodes]
    exact Agree.pure rfl
  case cons =>
    intro n rest ihNode ihRest straight
    have first := straight n List.mem_cons_self
    have others : ∀ m ∈ rest, Node.Every Straight m := fun m hm =>
      straight m (List.mem_cons_of_mem n hm)
    rw [Compile.nodes]
    refine Agree.bind (stillNode n first) (stillNode n first) (ihNode first) fun a a' ha =>
      Agree.bind (stillNodes rest others) (stillNodes rest others) (ihRest others) fun b b' hb =>
        Agree.pure ?_
    rw [Residual.runAll_append, Residual.runAll_append, ha, hb]

end Agreement

/-- A template of texts, variables, conditions and comments, compiled against a scope and against
one that knows more, leaves programs that print the same. -/
theorem residuals_print_the_same (settings : Settings) (roots : List Node)
    (straight : ∀ n ∈ Node.walkAll roots, n.kind ∈ straightKinds) (s t s' t' : Session)
    (rt : Runtime) (foreseen : Foreseen s.scope t.scope rt) (rs rs' : List Residual)
    (hs : (Transform.tree settings roots).outcome s = (.ok rs, s'))
    (ht : (Transform.tree settings roots).outcome t = (.ok rs', t')) :
    Residual.runAll rt rs = Residual.runAll rt rs' := by
  have trees : ∀ n ∈ roots, Node.Every Straight n := Node.every_of_walkAll straight
  obtain ⟨-, -, -, -, same⟩ :=
    same_nodes foreseen (Transform.env settings (Transform.contents settings))
  exact same roots trees rs rs' (congrArg Prod.fst hs) (congrArg Prod.fst ht)

def greetingRoots : List Node :=
  [.leaf "variable" (some "greeting") 0,
    .block "if" (some "a") 0
      [.text "A" 0,
        .block "elseif" (some "b == 'new'") 0 [.text "B" 0, .block "else" none 0 [.text "C" 0]]],
    .block "unless" (some "c") 0
      [.leaf "variable" (some "b") 0, .block "else" none 0 [.text "V" 0]]]

def greetingScope : Scope := ⟨[[(.str "greeting", .str "Hi {{ name }}!")]], none⟩

def visitorScope : Scope :=
  ⟨[[(.str "greeting", .str "Hi {{ name }}!"), (.str "name", .str "Bob"), (.str "b", .str "new"),
    (.str "c", .str "")]], none⟩

def visitorRuntime : Runtime where
  value name :=
    if name = "true" then .bool true
    else if name = "false" then .bool false
    else (visitorScope.lookup? name).getD .null
  comment _ := .ok ""

theorem foreseen_visitor : Foreseen greetingScope visitorScope visitorRuntime where
  extended := by
    intro name v h
    simp only [greetingScope, visitorScope, Scope.lookup?_single, Mapping.lookup?_str_cons,
      Mapping.lookup?_nil] at h ⊢
    grind
  realised := by
    intro name v h
    simp only [visitorRuntime, visitorScope, Scope.lookup?_single, Mapping.lookup?_str_cons,
      Mapping.lookup?_nil] at h ⊢
    grind
  unnested := by
    intro name text hm hk
    simp only [greetingScope, visitorScope, Scope.lookup?_single, Mapping.lookup?_str_cons,
      Mapping.lookup?_nil] at hm hk
    have plain : text = "Bob" ∨ text = "new" ∨ text = "" := by grind
    rcases plain with rfl | rfl | rfl <;> decide
  unboundTrue := by decide
  unboundFalse := by decide
  isTrue := rfl
  isFalse := rfl

def greetingSettings : Settings := ⟨.php, ".liquid", ⟨[], [], []⟩⟩

def greetingResidual : List Residual :=
  [.text "Hi ", .echo "name", .text "!",
    .cond ⟨"a", none⟩ [.text "A"] [(⟨"b", some ⟨"==", "new"⟩⟩, [.text "B"])] (some [.text "C"]),
    .ifNot "c" [.echo "b"] (some [.text "V"])]

def visitorResidual : List Residual :=
  [.text "Hi ", .text "Bob", .text "!",
    .cond ⟨"a", none⟩ [.text "A"] [(⟨"b", some ⟨"==", "new"⟩⟩, [.text "B"])] none, .text "new"]

theorem greeting_prints_the_same :
    (Transform.tree greetingSettings greetingRoots).outcome ⟨greetingScope, []⟩ =
        (.ok greetingResidual, ⟨greetingScope, []⟩) ∧
      (Transform.tree greetingSettings greetingRoots).outcome ⟨visitorScope, []⟩ =
        (.ok visitorResidual, ⟨visitorScope, []⟩) ∧
      Residual.runAll visitorRuntime greetingResidual =
        Residual.runAll visitorRuntime visitorResidual := by
  have hs : (Transform.tree greetingSettings greetingRoots).outcome ⟨greetingScope, []⟩ =
      (.ok greetingResidual, ⟨greetingScope, []⟩) := by cbv
  have ht : (Transform.tree greetingSettings greetingRoots).outcome ⟨visitorScope, []⟩ =
      (.ok visitorResidual, ⟨visitorScope, []⟩) := by
    cbv
  have straight : ∀ n ∈ Node.walkAll greetingRoots, n.kind ∈ straightKinds := by
    simp [greetingRoots, Node.walkAll, Node.walk, straightKinds, Node.kind]
  refine ⟨hs, ht, ?_⟩
  exact residuals_print_the_same greetingSettings greetingRoots straight _ _ _ _ visitorRuntime
    foreseen_visitor _ _ hs ht

end Stencil.PartialEvaluation
