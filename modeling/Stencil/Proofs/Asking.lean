import Mathlib
import Stencil.Proofs.Calls
import Stencil.Proofs.Lexemes
import Stencil.Proofs.Runtime

set_option autoImplicit false

/-!
# What a residual template asks of the runtime

Compiling texts, variables, conditions and loops leaves a program that asks the runtime for names
that were not known where they were met. There is one exception: a branch that is known to hold ends
a chain that has already been left to the runtime, and its condition is asked again.
-/

namespace Stencil

open Template

namespace Residual

mutual

/-- A residual template without comments that asks for the values of certain names and for certain
conditions alone. -/
def Asks (names : String → Prop) (conditions : Condition → Prop) : Residual → Prop
  | text _ => True
  | echo name => names name
  | cond first body further otherwise =>
    conditions first ∧ AsksAll names conditions body ∧ AsksFurther names conditions further ∧
      AsksElse names conditions otherwise
  | ifNot name body otherwise =>
    names name ∧ AsksAll names conditions body ∧ AsksElse names conditions otherwise
  | comment _ => False
  | native _ body _ => AsksAll names conditions body

def AsksAll (names : String → Prop) (conditions : Condition → Prop) : List Residual → Prop
  | [] => True
  | r :: rs => Asks names conditions r ∧ AsksAll names conditions rs

def AsksFurther (names : String → Prop) (conditions : Condition → Prop) :
    List (Condition × List Residual) → Prop
  | [] => True
  | (c, body) :: rest =>
    conditions c ∧ AsksAll names conditions body ∧ AsksFurther names conditions rest

def AsksElse (names : String → Prop) (conditions : Condition → Prop) :
    Option (List Residual) → Prop
  | none => True
  | some body => AsksAll names conditions body

end

section Asks

variable {names : String → Prop} {conditions : Condition → Prop}

theorem asksAll_singleton {r : Residual} (h : Asks names conditions r) :
    AsksAll names conditions [r] := by
  rw [AsksAll, AsksAll]
  exact ⟨h, trivial⟩

theorem asksAll_append {as bs : List Residual} (ha : AsksAll names conditions as)
    (hb : AsksAll names conditions bs) : AsksAll names conditions (as ++ bs) := by
  induction as with
  | nil => exact hb
  | cons a as ih =>
    rw [AsksAll] at ha
    rw [List.cons_append, AsksAll]
    exact ⟨ha.1, ih ha.2⟩

theorem asksAll_flatten {parts : List (List Residual)}
    (h : ∀ rs ∈ parts, AsksAll names conditions rs) : AsksAll names conditions parts.flatten := by
  induction parts with
  | nil => trivial
  | cons rs parts ih =>
    obtain ⟨first, others⟩ := List.forall_mem_cons.1 h
    exact asksAll_append first (ih others)

variable {rt rt' : Runtime} (values : ∀ name, names name → rt.value name = rt'.value name)
  (decisions : ∀ c, conditions c → rt.decides c = rt'.decides c)
include values decisions

theorem run_congr :
    (∀ r, Asks names conditions r → run rt r = run rt' r) ∧
    (∀ otherwise, AsksElse names conditions otherwise →
      runElse rt otherwise = runElse rt' otherwise) ∧
    (∀ rs, AsksAll names conditions rs → runAll rt rs = runAll rt' rs) ∧
    (∀ further, AsksFurther names conditions further →
      ∀ final, runFurther rt final further = runFurther rt' final further) := by
  apply parts_induction
  case text =>
    intro value _
    rw [run, run]
  case echo =>
    intro name h
    rw [Asks] at h
    rw [run, run, values name h]
  case cond =>
    intro first body further otherwise ihBody ihFurther ihElse h
    rw [Asks] at h
    obtain ⟨asked, inBody, inFurther, inElse⟩ := h
    rw [run, run, ihBody inBody, ihElse inElse, ihFurther inFurther, Runtime.choose,
      Runtime.choose, decisions first asked]
  case ifNot =>
    intro name body otherwise ihBody ihElse h
    rw [Asks] at h
    obtain ⟨asked, inBody, inElse⟩ := h
    rw [run, run, values name asked, ihBody inBody, ihElse inElse]
  case comment =>
    intro body _ h
    rw [Asks] at h
    exact h.elim
  case native =>
    intro before body after ih h
    rw [Asks] at h
    rw [run, run, ih h]
  case nil =>
    intro _
    rw [runAll, runAll]
  case cons =>
    intro r rs ihFirst ihRest h
    rw [AsksAll] at h
    rw [runAll, runAll, ihFirst h.1, ihRest h.2]
  case noFurther =>
    intro _ final
    rw [runFurther, runFurther]
  case further =>
    intro c body rest ihBody ihRest h final
    rw [AsksFurther] at h
    obtain ⟨asked, inBody, inRest⟩ := h
    rw [runFurther, runFurther, ihBody inBody, ihRest inRest, Runtime.choose, Runtime.choose,
      decisions c asked]
  case noElse =>
    intro _
    rw [runElse, runElse]
  case otherwise =>
    intro body ih h
    rw [AsksElse] at h
    rw [runElse, runElse, ih h]

end Asks

end Residual

namespace Compile

def loopKinds : List String :=
  ["text", "variable", "if", "elseif", "else", "unless", "for"]

theorem not_loopKinds_directive {n : Node} {d : Directive} (h : n.kind ∈ loopKinds)
    (hd : Directive.ofKind? n.kind = some d) : d ≠ .render ∧ d ≠ .metadata ∧ d ≠ .comment := by
  rw [Directive.ofKind?_eq_some.1 hd] at h
  refine ⟨?_, ?_, ?_⟩ <;>
  · rintro rfl
    exact absurd h (by decide)

def Interpolates (text name : String) : Prop :=
  ∃ l ∈ Lexeme.all [] text.toList, ∃ before after, l.1 = .interpolation before after name.toList

/-- No text interpolates the name under which it is known. -/
def Selfless (scope : Scope) : Prop :=
  ∀ name text, scope.lookup? name = some (.str text) → ¬ Interpolates text name

theorem not_interpolates {text : String} (plain : ¬ Lexeme.braces <:+: text.toList)
    (name : String) : ¬ Interpolates text name := by
  rintro ⟨l, mem, before, after, named⟩
  have isText := (Lexeme.all_nil_texts plain).1 l mem
  rw [named] at isText
  exact Bool.false_ne_true isText

/-- A name that is met where nothing is known of it: the name of a variable, one that a known text
interpolates, or the name of a condition. In conditions `true` and `false` are known. -/
inductive LeftOpen (dialect : Dialect) (scope : Scope) : Part → String → Prop
  | echoed {n : Node} (shared : dialect.extension? n.kind = none)
      (directive : Directive.ofKind? n.kind = some .echo)
      (unknown : scope.lookup? (n.parameters.getD "") = none) :
    LeftOpen dialect scope (.node n) (n.parameters.getD "")
  | interpolated {n : Node} {text name : String} (shared : dialect.extension? n.kind = none)
      (directive : Directive.ofKind? n.kind = some .echo)
      (known : scope.lookup? (n.parameters.getD "") = some (.str text))
      (names : Interpolates text name) (unknown : scope.lookup? name = none) :
    LeftOpen dialect scope (.node n) name
  | ifNot {n : Node} {name : String} (shared : dialect.extension? n.kind = none)
      (directive : Directive.ofKind? n.kind = some .ifNot)
      (asked : unlessName n.parameters = .ok name) (unknown : scope.condition? name = none) :
    LeftOpen dialect scope (.node n) name
  | branch {n : Node} {c : Condition} (he : n.kind ≠ "else")
      (hc : Condition.ofParameters n.parameters = .ok c)
      (unknown : scope.condition? c.name = none) :
    LeftOpen dialect scope (.chain n) c.name
  | later {n next : Node} {c : Condition} (hnext : n.nextBranch = some next)
      (he : next.kind ≠ "else") (hc : Condition.ofParameters next.parameters = .ok c)
      (unknown : scope.condition? c.name = none) :
    LeftOpen dialect scope (.branches n) c.name

/-- A condition that is known to hold where its chain has already been left to the runtime. -/
inductive Closes (scope : Scope) : Part → Condition → Prop
  | mk {n next : Node} {c : Condition} {v : Value} (hnext : n.nextBranch = some next)
      (he : next.kind ≠ "else") (hc : Condition.ofParameters next.parameters = .ok c)
      (known : scope.condition? c.name = some v) (holds : v.fulfils c.comparison = .ok true) :
    Closes scope (.branches n) c

open Residual Eval

section Leaves

/-- The points that a compilation comes to: calls and loops pass on what `H` tells of them, and
what is left to the runtime there is among certain names and conditions. -/
structure Leaves (env : Env) (H : Part × Session → Prop) (names : String → Prop)
    (closing : Condition → Prop) : Prop where
  calls : ∀ {p q}, H p → Calls env p q → H q
  item : ∀ {n s t item collection done value later rs frame}, H (.node n, s) →
    Acts env n .loop →
    (loopItems n.parameters).outcome s = (.ok (item, collection, done ++ value :: later), s) →
    (done.mapM (forItem item (nodes env n.children))).outcome s = (.ok rs, t) →
    Frame.expand (.str item) value [] = .ok frame →
    H (.nodes n.children, t.push frame)
  kinds : ∀ {p}, H p → p.1.Every fun n => n.kind ∈ loopKinds
  selfless : ∀ {p}, H p → Selfless p.2.scope
  opens : ∀ {p name}, H p → LeftOpen env.dialect p.2.scope p.1 name → names name
  closes : ∀ {p c}, H p → Closes p.2.scope p.1 c → closing c

variable {env : Env} {H : Part × Session → Prop} {names : String → Prop}
  {closing : Condition → Prop}

abbrev AsksOnly (names : String → Prop) (closing : Condition → Prop) (rs : List Residual) : Prop :=
  AsksAll names (fun c => names c.name ∨ closing c) rs

def BranchesAsk (names : String → Prop) (closing : Condition → Prop) (b : Branches) : Prop :=
  AsksFurther names (fun c => names c.name ∨ closing c) b.further ∧
    AsksElse names (fun c => names c.name ∨ closing c) b.otherwise

theorem asks_echoText {scope : Scope} {owner : String} {l : Lexeme} {r : Residual}
    (other : ∀ before after, l ≠ .interpolation before after owner.toList)
    (opens : ∀ before after name, l = .interpolation before after name →
      scope.lookup? (String.ofList name) = none → names (String.ofList name))
    (h : echoText scope owner l = .ok r) {conditions : Condition → Prop} :
    Asks names conditions r := by
  have plain (value : String) : Asks names conditions (.text value) := by
    rw [Asks]
    trivial
  unfold echoText at h
  split at h
  · rename_i before after name
    simp only at h
    split at h
    · rename_i own
      have same := congrArg String.toList own
      rw [String.toList_ofList] at same
      exact absurd (congrArg _ same) (other before after)
    · split at h
      · rename_i v _
        cases hv : v.stringify with
        | error e =>
          rw [hv] at h
          cases h
        | ok value =>
          rw [hv] at h
          rw [← Except.ok.inj h]
          exact plain value
      · rename_i unknown
        rw [← Except.ok.inj h, Asks]
        exact opens before after name rfl unknown
  · rw [← Except.ok.inj h]
    exact plain _
  · rw [← Except.ok.inj h]
    exact plain _

theorem asksAll_echoTexts {scope : Scope} {owner : String} {ls : List (Lexeme × List Char)}
    {rs : List Residual}
    (other : ∀ l ∈ ls, ∀ before after, l.1 ≠ .interpolation before after owner.toList)
    (opens : ∀ l ∈ ls, ∀ before after name, l.1 = .interpolation before after name →
      scope.lookup? (String.ofList name) = none → names (String.ofList name))
    (h : ls.mapM (fun l => echoText scope owner l.1) = .ok rs) {conditions : Condition → Prop} :
    AsksAll names conditions rs := by
  induction ls generalizing rs with
  | nil =>
    rw [← Except.ok.inj h]
    trivial
  | cons l ls ih =>
    rw [List.mapM_cons] at h
    obtain ⟨first, hfirst, h₁⟩ := exists_of_bind_eq_ok h
    obtain ⟨rest, hrest, h₂⟩ := exists_of_bind_eq_ok h₁
    obtain ⟨otherFirst, otherRest⟩ := List.forall_mem_cons.1 other
    obtain ⟨opensFirst, opensRest⟩ := List.forall_mem_cons.1 opens
    rw [← Except.ok.inj h₂, AsksAll]
    exact ⟨asks_echoText otherFirst opensFirst hfirst, ih otherRest opensRest hrest⟩

variable (leaves : Leaves env H names closing)
include leaves

theorem asks_echo {n : Node} {s : Session} (h : H (.node n, s))
    (shared : env.dialect.extension? n.kind = none)
    (directive : Directive.ofKind? n.kind = some .echo) :
    GivesAt s (AsksOnly names closing) (echo n.parameters) := by
  refine GivesAt.look ?_
  split
  · rename_i unknown
    refine GivesAt.pure (asksAll_singleton ?_)
    rw [Asks]
    exact leaves.opens h (.echoed shared directive unknown)
  · rename_i text known
    intro rs t hrs
    refine asksAll_echoTexts ?_ ?_ (Prod.mk.inj hrs).1
    · intro l hl before after own
      exact leaves.selfless h _ _ known ⟨l, hl, before, after, own⟩
    · intro l hl before after name named unknown
      refine leaves.opens h (.interpolated shared directive known ?_ unknown)
      refine ⟨l, hl, before, after, ?_⟩
      rw [named, String.toList_ofList]
  · refine GivesAt.read fun text _ => GivesAt.pure (asksAll_singleton ?_)
    rw [Asks]
    trivial

theorem asks_loop {n : Node} {s : Session} (h : H (.node n, s))
    (shared : env.dialect.extension? n.kind = none)
    (directive : Directive.ofKind? n.kind = some .loop)
    (body : ∀ t, H (.nodes n.children, t) →
      GivesAt t (AsksOnly names closing) (loopBody env n)) :
    GivesAt s (AsksOnly names closing) (loop n.parameters (loopBody env n)) := by
  refine GivesAt.bind (fun _ _ _ => trivial) fun read t hread (_ : True) => ?_
  obtain ⟨item, collection, items⟩ := read
  obtain rfl : t = s := (keeps_loopItems n.parameters).ok hread
  have each : GivesAt t (fun parts => ∀ rs ∈ parts, AsksOnly names closing rs)
      (items.mapM (forItem item (loopBody env n))) := by
    refine GivesAt.mapM fun done value later bs u split before => ?_
    rw [split] at hread
    refine GivesAt.read fun frame bound => GivesAt.withFrame ?_
    cases n with
    | text v i => exact GivesAt.throw _
    | leaf k p i => exact GivesAt.throw _
    | block k p i cs => exact body _ (leaves.item h (.of_block shared directive) hread before bound)
  refine GivesAt.bind each fun parts _ _ good => ?_
  exact GivesAt.bind (fun _ _ _ => trivial) fun _ _ _ (_ : True) =>
    GivesAt.pure (asksAll_flatten good)

theorem asks_leaf {kind : String} {parameters : Option String} {indentation : Nat} {s : Session}
    (h : H (.node (.leaf kind parameters indentation), s)) :
    GivesAt s (AsksOnly names closing) (leaf env kind parameters indentation) := by
  have kinds := Node.Every.self (leaves.kinds h)
  unfold leaf
  split
  · refine GivesAt.read fun given _ => ?_
    split
    · exact GivesAt.throw _
    · refine GivesAt.pure (asksAll_singleton ?_)
      rw [Asks]
      trivial
  · rename_i shared
    split
    · rename_i directive
      exact (asks_echo leaves h shared directive :)
    · rename_i directive
      exact absurd rfl (not_loopKinds_directive kinds directive).1
    · rename_i directive
      exact absurd rfl (not_loopKinds_directive kinds directive).2.1
    · exact GivesAt.read fun _ _ => GivesAt.throw _
    · rename_i directive
      exact (asks_loop leaves h shared directive fun t _ => GivesAt.throw _ :)
    all_goals exact GivesAt.throw _

omit leaves in
theorem givesAt_branch {c : Condition} {s : Session} {β : Type} {fine : β → Prop}
    {yes no later : Eval β}
    (hyes : ∀ v, s.scope.condition? c.name = some v → v.fulfils c.comparison = .ok true →
      GivesAt s fine yes)
    (hno : Refused s.scope c → GivesAt s fine no)
    (hlater : s.scope.condition? c.name = none → GivesAt s fine later) :
    GivesAt s fine (Eval.scope >>= fun scope =>
      match scope.condition? c.name with
      | some v =>
        Eval.ofExcept (v.fulfils c.comparison) >>= fun holds => if holds then yes else no
      | none => later) := by
  refine GivesAt.look ?_
  cases hv : s.scope.condition? c.name with
  | some v =>
    refine GivesAt.read fun holds hh => ?_
    cases holds with
    | true => exact hyes v hv hh
    | false => exact hno ⟨v, hv, hh⟩
  | none => exact hlater hv

theorem asks_ifNot {n : Node} {s : Session} (h : H (.node n, s)) (acts : Acts env n .ifNot)
    (following : ∀ t, H (.following n, t) →
      GivesAt t (AsksOnly names closing) (Compile.following env n))
    (body : ∀ t, H (.nodes n.branchBody, t) →
      GivesAt t (AsksOnly names closing) (nodes env n.branchBody)) :
    GivesAt s (AsksOnly names closing) (node env n) := by
  rw [node_ifNot acts]
  refine GivesAt.read fun name hname => GivesAt.look ?_
  cases hv : s.scope.condition? name with
  | some v =>
    simp only
    split
    · rename_i truthy
      exact following s (leaves.calls h (.unlessTrue acts hname hv truthy))
    · rename_i falsy
      refine body s (leaves.calls h (.unlessBody acts hname fun w hw => ?_))
      rw [hv] at hw
      rw [← Option.some.inj hw]
      exact Bool.eq_false_iff.2 falsy
  | none =>
    have asked : names name := leaves.opens h (.ifNot acts.shared acts.directive hname hv)
    have entered : H (.nodes n.branchBody, s) :=
      leaves.calls h (.unlessBody acts hname fun w hw => nomatch hv.symm.trans hw)
    refine GivesAt.bind (body s entered) fun rs t hrs inBody => ?_
    split
    · rename_i more
      have next := following t (leaves.calls h (.unlessElse acts hname hv hrs more))
      refine GivesAt.bind next fun _ _ _ inElse => GivesAt.pure (asksAll_singleton ?_)
      rw [Asks, AsksElse]
      exact ⟨asked, inBody, inElse⟩
    · refine GivesAt.pure (asksAll_singleton ?_)
      rw [Asks, AsksElse]
      exact ⟨asked, inBody, trivial⟩

theorem asks_chain {n : Node} {s : Session} (h : H (.chain n, s)) (he : n.kind ≠ "else")
    (body : ∀ t, H (.nodes n.branchBody, t) →
      GivesAt t (AsksOnly names closing) (nodes env n.branchBody))
    (following : ∀ t, H (.following n, t) →
      GivesAt t (AsksOnly names closing) (Compile.following env n))
    (further : ∀ t, H (.branches n, t) →
      GivesAt t (BranchesAsk names closing) (branches env n)) :
    GivesAt s (AsksOnly names closing) (chain env n) := by
  rw [chain_if he]
  refine GivesAt.read fun c hc => givesAt_branch ?_ ?_ ?_
  · intro v hv holds
    exact body s (leaves.calls h (.chainBody he hc (open_of_some hv holds)))
  · intro fails
    exact following s (leaves.calls h (.chainNext he hc fails))
  · intro unknown
    have first := body s (leaves.calls h (.chainBody he hc (open_of_none unknown)))
    refine GivesAt.bind first fun rs t hrs inBody => ?_
    have rest := further t (leaves.calls h (.chainRest he hc unknown hrs))
    refine GivesAt.bind rest fun _ _ _ inRest => GivesAt.pure (asksAll_singleton ?_)
    rw [Asks]
    exact ⟨.inl (leaves.opens h (.branch he hc unknown)), inBody, inRest.1, inRest.2⟩

theorem asks_branches {n next : Node} {s : Session} (h : H (.branches n, s))
    (hnext : n.nextBranch = some next) (he : next.kind ≠ "else")
    (body : ∀ t, H (.nodes next.branchBody, t) →
      GivesAt t (AsksOnly names closing) (nodes env next.branchBody))
    (further : ∀ t, H (.branches next, t) →
      GivesAt t (BranchesAsk names closing) (branches env next)) :
    GivesAt s (BranchesAsk names closing) (branches env n) := by
  rw [branches_if hnext he]
  refine GivesAt.read fun c hc => givesAt_branch ?_ ?_ ?_
  · intro v hv holds
    have last := body s (leaves.calls h (.laterBody hnext he hc (open_of_some hv holds)))
    refine GivesAt.bind last fun _ _ _ inBody => GivesAt.pure ?_
    unfold BranchesAsk
    rw [AsksFurther, AsksFurther, AsksElse]
    exact ⟨⟨.inr (leaves.closes h (.mk hnext he hc hv holds)), inBody, trivial⟩, trivial⟩
  · intro fails
    exact further s (leaves.calls h (.laterNext hnext he hc fails))
  · intro unknown
    have first := body s (leaves.calls h (.laterBody hnext he hc (open_of_none unknown)))
    refine GivesAt.bind first fun rs t hrs inBody => ?_
    have rest := further t (leaves.calls h (.laterRest hnext he hc unknown hrs))
    refine GivesAt.bind rest fun _ _ _ inRest => GivesAt.pure ?_
    unfold BranchesAsk
    rw [AsksFurther]
    exact ⟨⟨.inl (leaves.opens h (.later hnext he hc unknown)), inBody, inRest.1⟩, inRest.2⟩

/-- What is left of any part asks for nothing but what is left open at the points that compiling the
part comes to. -/
theorem asks_parts :
    (∀ n s, H (.node n, s) → GivesAt s (AsksOnly names closing) (node env n)) ∧
    (∀ n s, H (.following n, s) → GivesAt s (AsksOnly names closing) (following env n)) ∧
    (∀ n s, H (.chain n, s) → GivesAt s (AsksOnly names closing) (chain env n)) ∧
    (∀ n s, H (.branches n, s) → GivesAt s (BranchesAsk names closing) (branches env n)) ∧
    (∀ ns s, H (.nodes ns, s) → GivesAt s (AsksOnly names closing) (nodes env ns)) := by
  have kinds {n : Node} {s : Session} (h : H (.node n, s)) : n.kind ∈ loopKinds :=
    Node.Every.self (leaves.kinds h)
  apply parts_induction env
  case text =>
    intro value indentation s _
    rw [node]
    refine GivesAt.pure (asksAll_singleton ?_)
    rw [Asks]
    trivial
  case leaf =>
    intro kind parameters indentation s h
    rw [node]
    exact asks_leaf leaves h
  case native =>
    intro n e block he ih s h
    rw [node_native block he]
    refine GivesAt.read fun given harg => ?_
    split
    · rename_i opens
      have body := ih s (leaves.calls h (.native block he harg opens))
      refine GivesAt.bind body fun _ _ _ inBody => GivesAt.pure (asksAll_singleton ?_)
      rw [Asks]
      exact inBody
    · refine GivesAt.pure (asksAll_singleton ?_)
      rw [Asks]
      trivial
  case cond =>
    intro n acts ih s h
    rw [node_cond acts]
    exact ih s (leaves.calls h (.cond acts))
  case ifNot =>
    intro n acts ihFollowing ihBody s h
    exact asks_ifNot leaves h acts ihFollowing ihBody
  case loop =>
    intro n acts ih s h
    rw [node_plainly acts.shared acts.directive]
    refine asks_loop leaves h acts.shared acts.directive ?_
    obtain ⟨k, p, i, cs, rfl⟩ := exists_block acts.block
    exact ih
  case comment =>
    intro n acts _ s h
    exact absurd rfl (not_loopKinds_directive (kinds h) acts.directive).2.2
  case echo =>
    intro n acts s h
    rw [node_plainly acts.shared acts.directive]
    exact asks_echo leaves h acts.shared acts.directive
  case render =>
    intro n acts s h
    exact absurd rfl (not_loopKinds_directive (kinds h) acts.directive).1
  case metadata =>
    intro n acts s h
    exact absurd rfl (not_loopKinds_directive (kinds h) acts.directive).2.1
  case textBlock =>
    intro n acts s _
    rw [node_text acts]
    exact GivesAt.throw _
  case unknown =>
    intro n block hn hd s _
    rw [node_unknown block hn hd]
    exact GivesAt.throw _
  case last =>
    intro n hnext s _
    rw [following_none hnext]
    exact GivesAt.pure trivial
  case next =>
    intro n next hnext ih s h
    rw [following_some hnext]
    exact ih s (leaves.calls h (.next hnext))
  case chainElse =>
    intro n he ih s h
    rw [chain_else he]
    exact ih s (leaves.calls h (.elseBody he))
  case chainIf =>
    intro n he ihBody ihFollowing ihBranches s h
    exact asks_chain leaves h he ihBody ihFollowing ihBranches
  case branchesNone =>
    intro n hnext s _
    rw [branches_none hnext]
    exact GivesAt.pure ⟨trivial, trivial⟩
  case branchesElse =>
    intro n next hnext he ih s h
    rw [branches_else hnext he]
    have body := ih s (leaves.calls h (.laterElse hnext he))
    refine GivesAt.bind body fun _ _ _ inBody => GivesAt.pure ⟨trivial, ?_⟩
    rw [AsksElse]
    exact inBody
  case branchesIf =>
    intro n next hnext he ihBody ihBranches s h
    exact asks_branches leaves h hnext he ihBody ihBranches
  case nil =>
    intro s _
    rw [nodes]
    exact GivesAt.pure trivial
  case cons =>
    intro n rest ihNode ihRest s h
    rw [nodes]
    refine GivesAt.bind (ihNode s (leaves.calls h .head)) fun rs t hrs first => ?_
    refine GivesAt.bind (ihRest t (leaves.calls h (.tail hrs))) fun _ _ _ others => ?_
    exact GivesAt.pure (asksAll_append first others)

end Leaves

end Compile

end Stencil
