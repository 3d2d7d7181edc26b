import Stencil.Dialect.Php
import Stencil.Proofs.Asking
import Stencil.Proofs.Frames
import Stencil.Proofs.Visits

set_option autoImplicit false

/-!
# Residual templates do not depend on what was known

Transforming a template of texts, variables, conditions and loops leaves a program that asks the
runtime for unknown names and for the conditions that close a chain. Two runtimes that agree on
these print the same, whatever values they give to the names that were known.
-/

namespace Stencil

open Template

namespace Compile

section Scope

variable {env : Env}

theorem keeps_scope_loops :
    (∀ n s, Node.Every (fun n => n.kind ∈ loopKinds) n →
      ((node env n).outcome s).2.scope = s.scope) ∧
    (∀ ns s, (∀ n ∈ ns, Node.Every (fun n => n.kind ∈ loopKinds) n) →
      ((nodes env ns).outcome s).2.scope = s.scope) := by
  have reduces : Reduces (fun x _ s => (x.outcome s).2.scope = s.scope)
      (fun p => p.1.Every fun n => n.kind ∈ loopKinds) env env := by
    constructor
    · exact Calls.every
    · intro n s _
      rfl
    · intro n s h _ _ body
      refine scope_loop (fun t => keepsBut_of_eq (body t ?_)) n.parameters s
      exact fun _ => Node.Every.children h
    · intro n s h _ hd
      exact absurd rfl (not_loopKinds_directive (Node.Every.self h) hd).1
    · intro n s h _ hd
      exact absurd rfl (not_loopKinds_directive (Node.Every.self h) hd).2.1
  obtain ⟨node, -, -, -, nodes⟩ := local_parts (Eval.local_keeps Session.scope) reduces
  exact ⟨fun n s h => node n s h, fun ns s h => nodes ns s h⟩

theorem scope_of_calls {p q : Part × Session} (every : p.1.Every fun n => n.kind ∈ loopKinds)
    (h : Calls env p q) : q.2.scope = p.2.scope := by
  obtain ⟨keptNode, keptNodes⟩ := @keeps_scope_loops env
  have after {ns : List Node} {s t : Session} {rs : List Residual}
      (call : Calls env p (.nodes ns, s)) (body : (nodes env ns).outcome s = (.ok rs, t)) :
      t.scope = s.scope := by
    rw [← keptNodes ns s (call.every every), body]
  cases h with
  | @tail n rest rs s t first => rw [← keptNode n s (every n List.mem_cons_self), first]
  | unlessElse acts asked unknown body more =>
    exact after (.unlessBody acts asked fun v hv => nomatch unknown.symm.trans hv) body
  | chainRest he hc unknown body => exact after (.chainBody he hc (open_of_none unknown)) body
  | laterRest hnext he hc unknown body =>
    exact after (.laterBody hnext he hc (open_of_none unknown)) body
  | head | native | cond | comment | unlessBody | unlessTrue | next | elseBody | chainBody
  | chainNext | laterElse | laterBody | laterNext => rfl

end Scope

theorem LeftOpen.unknown {dialect : Dialect} {scope : Scope} {part : Part} {name : String}
    (h : LeftOpen dialect scope part name) : scope.lookup? name = none := by
  have free {name : String} (unknown : scope.condition? name = none) :
      scope.lookup? name = none := by
    cases hl : scope.lookup? name with
    | none => rfl
    | some v =>
      unfold Scope.condition? at unknown
      rw [hl] at unknown
      exact nomatch unknown
  cases h with
  | echoed _ _ unknown => exact unknown
  | interpolated _ _ _ _ unknown => exact unknown
  | ifNot _ _ _ unknown => exact free unknown
  | branch _ _ unknown => exact free unknown
  | later _ _ _ unknown => exact free unknown

end Compile

namespace Transform

open Compile

variable {settings : Settings} {path : Option String} {text : String} {s : Session} {v : Visit}

/-- The names that transforming a template leaves to the runtime: those that it meets at a point
where they are not known. -/
def Unknown (settings : Settings) (path : Option String) (text : String) (s : Session)
    (name : String) : Prop :=
  ∃ v, Visited settings path text s v ∧ LeftOpen settings.dialect v.session.scope v.part name

/-- The conditions that are known to hold where transforming a template meets them, but only once
their chain has been left to the runtime. -/
def Closing (settings : Settings) (path : Option String) (text : String) (s : Session)
    (c : Condition) : Prop :=
  ∃ v, Visited settings path text s v ∧ Closes v.session.scope v.part c

def Parsed (settings : Settings) (path : Option String) (text : String) (s : Session)
    (Q : Node → Prop) : Prop :=
  ∀ roots t, (parse settings.dialect text).outcome (begun path s) = (.ok roots, t) →
    ∀ n ∈ Node.walkAll roots, Q n

theorem Visited.every {Q : Node → Prop} (parsed : Parsed settings path text s Q)
    (unrendered : ∀ n, Q n → Directive.ofKind? n.kind ≠ some .render)
    (h : Visited settings path text s v) : v.part.Every Q ∧ v.depth = maxNesting - 1 := by
  refine h.induction (I := fun v => v.part.Every Q ∧ v.depth = maxNesting - 1) ?_ ?_
  · intro roots t read
    exact ⟨Node.every_of_walkAll (parsed roots t read), rfl⟩
  · rintro w x _ ⟨every, depth⟩ step
    cases step with
    | call hq => exact ⟨hq.every every, depth⟩
    | item meets block items before =>
      rw [meets.part] at every
      exact ⟨fun _ => Node.Every.children every, depth⟩
    | component meets =>
      rw [meets.part] at every
      exact absurd meets.directive (unrendered _ (Node.Every.self every))

theorem contents_of_template {rs : List Residual} {t : Session}
    (left : (template settings path text).outcome s = (.ok (some rs), t)) :
    ∃ u, (contents settings text).outcome (begun path s) = (.ok rs, u) := by
  rw [outcome_template, outcome_cancellable] at left
  have result : ((framed s (contents settings text)).outcome (about path s)).1 = .ok rs := by
    split at left
    · rename_i a u ha
      rw [ha, ← Option.some.inj (Except.ok.inj (Prod.mk.inj left).1)]
    · exact nomatch (Prod.mk.inj left).1
    · exact nomatch (Prod.mk.inj left).1
  rw [outcome_framed] at result
  exact ⟨_, Prod.ext result rfl⟩

section Independence

variable (kinds : Parsed settings path text s fun n => n.kind ∈ loopKinds)
include kinds

theorem Visited.looped (h : Visited settings path text s v) :
    v.part.Every (fun n => n.kind ∈ loopKinds) ∧ v.depth = maxNesting - 1 :=
  h.every kinds fun _ kind directive => (not_loopKinds_directive kind directive).1 rfl

theorem asks_template
    (selfless : ∀ v, Visited settings path text s v → Selfless v.session.scope)
    {rs : List Residual} {t : Session}
    (left : (template settings path text).outcome s = (.ok (some rs), t)) :
    AsksOnly (Unknown settings path text s) (Closing settings path text s) rs := by
  have leaves : Leaves (env settings (contentsWithin settings (maxNesting - 1)))
      (fun q => ∃ v, Visited settings path text s v ∧ v.part = q.1 ∧ v.session = q.2)
      (Unknown settings path text s) (Closing settings path text s) := by
    constructor
    · rintro p q ⟨v, visited, part, session⟩ call
      have here : Calls (v.env settings) (v.part, v.session) q := by
        unfold Visit.env
        rw [(visited.looped kinds).2, part, session]
        exact call
      exact ⟨_, visited.step (.call here), rfl, rfl⟩
    · rintro n s' u item collection done value later rs frame ⟨v, visited, part, session⟩ acts
        items before bound
      change v.session = s' at session
      have step := @Leads.item settings v n item collection done later value rs u frame
        ⟨part, acts.shared, acts.directive⟩ acts.block
      unfold Visit.env at step
      rw [(visited.looped kinds).2, session] at step
      exact ⟨_, visited.step (step items before bound), rfl, rfl⟩
    · rintro p ⟨v, visited, part, -⟩
      rw [← part]
      exact (visited.looped kinds).1
    · rintro p ⟨v, visited, -, session⟩
      rw [← session]
      exact selfless v visited
    · rintro p name ⟨v, visited, part, session⟩ unknown
      rw [← part, ← session] at unknown
      exact ⟨v, visited, unknown⟩
    · rintro p c ⟨v, visited, part, session⟩ closes
      rw [← part, ← session] at closes
      exact ⟨v, visited, closes⟩
  obtain ⟨u, compiled⟩ := contents_of_template left
  obtain ⟨roots, t', read, compiled⟩ := Eval.outcome_bind_eq_ok.1 compiled
  obtain ⟨-, -, -, -, asked⟩ := asks_parts leaves
  exact asked roots t' ⟨_, ⟨roots, t', read, .refl⟩, rfl, rfl⟩ rs u compiled

end Independence

/-- The residual of a template of texts, variables, conditions and loops prints the same in any two
runtimes that agree on the unknown names and on the closing conditions. -/
theorem residual_ignores_known_names (settings : Settings) (path : Option String) (text : String)
    (s t : Session) (rs : List Residual)
    (kinds : Parsed settings path text s fun n => n.kind ∈ loopKinds)
    (selfless : ∀ v, Visited settings path text s v → Selfless v.session.scope)
    (rt rt' : Runtime)
    (values : ∀ name, Unknown settings path text s name → rt.value name = rt'.value name)
    (decisions : ∀ c, Closing settings path text s c → rt.decides c = rt'.decides c)
    (left : (template settings path text).outcome s = (.ok (some rs), t)) :
    Residual.runAll rt rs = Residual.runAll rt' rs := by
  have asked := asks_template kinds selfless left
  refine (Residual.run_congr values ?_).2.2.1 rs asked
  rintro c (unknown | closing)
  · rw [Runtime.decides, Runtime.decides, values c.name unknown]
  · exact decisions c closing

section Known

theorem lookup?_push (frame : Frame) (scope : Scope) (name : String) :
    (scope.push frame).lookup? name =
      (Mapping.lookup? name frame).or (scope.lookup? name) := by
  unfold Scope.lookup? Scope.push
  rw [List.findSome?_cons]
  cases Mapping.lookup? name frame <;> rfl

theorem lookup?_begun (path : Option String) (s : Session) (name : String) :
    (begun path s).scope.lookup? name = s.scope.lookup? name := by
  unfold begun
  split
  · exact lookup?_push [] (about path s).scope name
  · rfl

theorem known_of_loopItems {parameters : Option String} {s t : Session}
    {item collection : String} {items : List Value}
    (h : (loopItems parameters).outcome s = (.ok (item, collection, items), t)) :
    ∃ known, s.scope.lookup? collection = some known ∧ known.items? = some items := by
  unfold loopItems at h
  split at h
  · exact nomatch (Prod.mk.inj h).1
  · rename_i name found _
    rw [Eval.outcome_scope_bind] at h
    simp only at h
    split at h
    · rename_i listed
      obtain ⟨-, same⟩ := Prod.mk.inj (Except.ok.inj (Prod.mk.inj h).1)
      obtain ⟨rfl, rfl⟩ := Prod.mk.inj same
      cases known : s.scope.lookup? found with
      | none =>
        rw [known] at listed
        exact nomatch listed
      | some v =>
        rw [known] at listed
        exact ⟨v, rfl, listed⟩
    · exact nomatch (Prod.mk.inj h).1

variable (kinds : Parsed settings path text s fun n => n.kind ∈ loopKinds)
include kinds

theorem Visited.scope_step {w : Visit} (h : Visited settings path text s v)
    (step : Leads settings v w) :
    w.session.scope = v.session.scope ∨
      ∃ item collection known items value,
        v.session.scope.lookup? collection = some known ∧ known.items? = some items ∧
        value ∈ items ∧
        w.session.scope = v.session.scope.push (Frame.bind (.str item) value []) := by
  obtain ⟨every, -⟩ := h.looped kinds
  cases step with
  | call hq => exact .inl (scope_of_calls every hq)
  | @item n item collection done later value rs t frame meets block items before bound =>
    obtain ⟨known, looked, listed⟩ := known_of_loopItems items
    have same : t.scope = v.session.scope :=
      (keeps_scope_items (scope_renderWithin settings v.depth) item n.children done).ok before
    refine .inr ⟨item, collection, known, _, value, looked, listed, ?_, ?_⟩
    · exact List.mem_append_right _ List.mem_cons_self
    · rw [← same, ← (Frame.expand_eq_ok_iff.1 bound).2]
      rfl
  | component meets =>
    rw [meets.part] at every
    exact absurd rfl (not_loopKinds_directive (Node.Every.self every) meets.directive).1

theorem Visited.unknown (h : Visited settings path text s v) {name : String}
    (unknown : v.session.scope.lookup? name = none) : s.scope.lookup? name = none := by
  refine h.induction (I := fun v => v.session.scope.lookup? name = none →
    s.scope.lookup? name = none) ?_ ?_ unknown
  · intro roots t read
    have same : t.scope = (begun path s).scope := (keeps_scope_parse settings.dialect text).ok read
    change t.scope.lookup? name = none → _
    rw [same, lookup?_begun]
    exact id
  · intro v w visited ih step
    rcases visited.scope_step kinds step with same | ⟨item, _, _, _, value, -, -, -, pushed⟩
    · rw [same]
      exact ih
    · rw [pushed, lookup?_push, Option.or_eq_none_iff]
      exact fun both => ih both.2

theorem Visited.values {P : Value → Prop}
    (known : ∀ name value, s.scope.lookup? name = some value → P value)
    (bound : ∀ known items, P known → known.items? = some items → ∀ item ∈ items,
      ∀ name part value,
        Mapping.lookup? part (Frame.bind (.str name) item []) = some value → P value)
    (h : Visited settings path text s v) :
    ∀ name value, v.session.scope.lookup? name = some value → P value := by
  refine h.induction (I := fun v => ∀ name value,
    v.session.scope.lookup? name = some value → P value) ?_ ?_
  · intro roots t read name value looked
    have same : t.scope = (begun path s).scope := (keeps_scope_parse settings.dialect text).ok read
    change t.scope.lookup? name = some value at looked
    rw [same, lookup?_begun] at looked
    exact known name value looked
  · intro v w visited ih step name value looked
    rcases visited.scope_step kinds step with same |
      ⟨item, collection, list, items, member, listed, parts, mem, pushed⟩
    · rw [same] at looked
      exact ih name value looked
    · rw [pushed, lookup?_push] at looked
      rcases Option.or_eq_some_iff.1 looked with inner | ⟨-, outer⟩
      · exact bound list items (ih collection list listed) parts member mem item name value inner
      · exact ih name value outer

end Known

section Example

def openSettings : Settings := ⟨.php, ".liquid", ⟨[], [], []⟩⟩

def closedText : String :=
  "\x7b% if X %\x7dA\x7b% elseif Y %\x7dB\x7b% endif %\x7d"

def closedRoots : List Node :=
  [.block "if" (some "X") 0 [.text "A" 0, .block "elseif" (some "Y") 0 [.text "B" 0]]]

def closedSession : Session := ⟨⟨[[(.str "Y", .bool true)]], none⟩, []⟩

def closedResidual : List Residual :=
  [.cond ⟨"X", none⟩ [.text "A"] [(⟨"Y", none⟩, [.text "B"])] none]

def closedRuntime (value : Value) : Runtime where
  value name := if name = "Y" then value else .null
  comment := id

/-- Two runtimes that agree on every name that is not known print different texts, since one of them
gives another value to the name that is known. -/
theorem closing_branch_asks_known_name :
    (Parsed openSettings none closedText closedSession fun n => n.kind ∈ loopKinds) ∧
      Selfless closedSession.scope ∧
      (∀ name, closedSession.scope.lookup? name = none →
        (closedRuntime (.bool true)).value name = (closedRuntime (.bool false)).value name) ∧
      ∃ t, (template openSettings none closedText).outcome closedSession =
          (.ok (some closedResidual), t) ∧
        Residual.runAll (closedRuntime (.bool true)) closedResidual ≠
          Residual.runAll (closedRuntime (.bool false)) closedResidual := by
  have parsed : ((parse openSettings.dialect closedText).outcome
      (begun none closedSession)).1 = .ok closedRoots := by cbv
  have left : ((template openSettings none closedText).outcome closedSession).1 =
      .ok (some closedResidual) := by cbv
  refine ⟨?_, ?_, ?_, _, Prod.ext left rfl, ?_⟩
  · intro roots t read
    rw [read] at parsed
    rw [Except.ok.inj parsed]
    simp [closedRoots, Node.walkAll, Node.walk, Node.kind, loopKinds]
  · intro name text known
    simp [closedSession] at known
  · intro name unknown
    simp [closedSession] at unknown
    simp [closedRuntime, Ne.symm unknown]
  · have yes : Residual.runAll (closedRuntime (.bool true)) closedResidual = .ok "B" := by cbv
    have no : Residual.runAll (closedRuntime (.bool false)) closedResidual = .ok "" := by cbv
    rw [yes, no]
    exact fun same => absurd (Except.ok.inj same) (by decide)

def listText : String :=
  "\x7b% if X %\x7d\x7b\x7b name \x7d\x7d\x7b% elseif Y %\x7dB\x7b% endif %\x7d" ++
    "\x7b% for x in xs %\x7d\x7b\x7b x \x7d\x7d\x7b% endfor %\x7d"

def listRoots : List Node :=
  [.block "if" (some "X") 0
      [.leaf "variable" (some "name") 0, .block "elseif" (some "Y") 0 [.text "B" 0]],
    .block "for" (some "x in xs") 0 [.leaf "variable" (some "x") 0]]

def listSession : Session :=
  ⟨⟨[[(.str "Y", .bool true), (.str "name", .str "N"), (.str "xs", .list [.int 1])]], none⟩, []⟩

def listResidual : List Residual :=
  [.cond ⟨"X", none⟩ [.text "N"] [(⟨"Y", none⟩, [.text "B"])] none, .text "1"]

def listRuntime (name y : Value) : Runtime where
  value key := if key = "name" then name else if key = "Y" then y else .null
  comment := id

theorem list_selfless
    (kinds : Parsed openSettings none listText listSession fun n => n.kind ∈ loopKinds)
    {v : Visit} (h : Visited openSettings none listText listSession v) :
    Selfless v.session.scope := by
  let P (value : Value) : Prop := (∀ text, value = .str text → text = "N") ∧
    ∀ items, value.items? = some items → items = [.int 1]
  have values := h.values (P := P) kinds ?_ ?_
  · intro name text known
    rw [(values name _ known).1 text rfl]
    exact not_interpolates (by decide) name
  · intro name value known
    simp only [listSession, Scope.lookup?_single, Mapping.lookup?_str_cons,
      Mapping.lookup?_nil] at known
    have given : value = .bool true ∨ value = .str "N" ∨ value = .list [.int 1] := by grind
    rcases given with rfl | rfl | rfl
    · exact ⟨nofun, nofun⟩
    · exact ⟨fun text same => (Atom.str.inj (Value.atom.inj same)).symm, nofun⟩
    · exact ⟨nofun, fun items same => (Option.some.inj same).symm⟩
  · rintro known items ⟨-, listed⟩ hitems item mem name part value looked
    rw [listed items hitems, List.mem_singleton] at mem
    rw [mem] at looked
    change Mapping.lookup? part [(.str name, .int 1)] = some value at looked
    rw [Mapping.lookup?_str_cons, Mapping.lookup?_nil] at looked
    have number : value = .int 1 := by grind
    rw [number]
    exact ⟨nofun, nofun⟩

theorem list_closing {c : Condition} (continued : Parsed openSettings none listText listSession
      fun n => n.kind ∈ loopKinds ∧ (n.isContinuation = true → n.parameters = some "Y"))
    (h : Closing openSettings none listText listSession c) : c = ⟨"Y", none⟩ := by
  obtain ⟨v, visited, closes⟩ := h
  have every := (visited.every continued fun _ both directive =>
    (not_loopKinds_directive both.1 directive).1 rfl).1
  generalize v.part = part at closes every
  obtain ⟨hnext, he, hc, known, holds⟩ := closes
  obtain ⟨-, continuation⟩ := Option.filter_eq_some_iff.1 hnext
  rw [((every.nextBranch hnext).self).2 continuation] at hc
  have read : Condition.ofParameters (some "Y") = .ok ⟨"Y", none⟩ := by cbv
  exact Except.ok.inj (hc.symm.trans read)

theorem known_values_are_not_asked :
    ∃ t, (template openSettings none listText).outcome listSession =
        (.ok (some listResidual), t) ∧
      Residual.runAll (listRuntime (.str "a") (.bool true)) listResidual =
        Residual.runAll (listRuntime (.int 7) (.str "yes")) listResidual := by
  have parsed : ((parse openSettings.dialect listText).outcome
      (begun none listSession)).1 = .ok listRoots := by cbv
  have left : ((template openSettings none listText).outcome listSession).1 =
      .ok (some listResidual) := by cbv
  have continued : Parsed openSettings none listText listSession fun n =>
      n.kind ∈ loopKinds ∧ (n.isContinuation = true → n.parameters = some "Y") := by
    intro roots t read
    rw [read] at parsed
    rw [Except.ok.inj parsed]
    simp [listRoots, Node.walkAll, Node.walk, Node.kind, Node.isContinuation, Node.parameters,
      loopKinds]
  have kinds : Parsed openSettings none listText listSession fun n => n.kind ∈ loopKinds :=
    fun roots t read n mem => (continued roots t read n mem).1
  refine ⟨_, Prod.ext left rfl, ?_⟩
  refine residual_ignores_known_names openSettings none listText listSession _ listResidual kinds
    (fun v visited => list_selfless kinds visited) _ _ ?_ ?_ (Prod.ext left rfl)
  · rintro name ⟨v, visited, unknown⟩
    have free := visited.unknown kinds unknown.unknown
    simp only [listSession, Scope.lookup?_single, Mapping.lookup?_str_cons,
      Mapping.lookup?_nil] at free
    simp only [listRuntime]
    grind
  · intro c closing
    rw [list_closing continued closing]
    cbv

end Example

end Transform

end Stencil
