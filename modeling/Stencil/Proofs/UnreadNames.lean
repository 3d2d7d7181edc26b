import Stencil.Proofs.Agreement
import Stencil.Proofs.ComponentLookup
import Stencil.Proofs.PlainText
import Stencil.Proofs.RuntimeIndependence

set_option autoImplicit false

/-!
# Names that are not read

A name that no variable, condition or loop of a template asks for, that has no default and that no
text interpolates may have any value or none: runs from two sessions that differ in it alone give
the same result or failure and the same log, and the sessions they leave differ in it alone. The
texts are those of the scope, of meta data and of render calls, and the paths of the components
that are put in place.
-/

namespace Stencil

open Template

namespace Transform

open Compile Eval

def nodesOf (dialect : Dialect) (text : String) : Except Failure (List Node) := do
  let tokens ← Token.ofText dialect.tags text
  let forest ← Forest.ofTokens dialect.tags tokens
  return Node.walkAll forest.roots

/-- A text whose nodes have nothing to do with a name. -/
def TextIgnores (dialect : Dialect) (name text : String) : Prop :=
  ∀ ns, nodesOf dialect text = .ok ns → ∀ n ∈ ns, Ignores name n

theorem nodesOf_eq (dialect : Dialect) (text : String) (s : Session) :
    nodesOf dialect text = ((parse dialect text).outcome s).1.map Node.walkAll := by
  rw [result_parse]
  unfold nodesOf
  cases Token.ofText dialect.tags text with
  | error f => rfl
  | ok tokens =>
    change Forest.ofTokens dialect.tags tokens >>= _ =
      ((Forest.ofTokens dialect.tags tokens).map Forest.roots).map Node.walkAll
    cases Forest.ofTokens dialect.tags tokens <;> rfl

theorem nodesOf_of_parse {dialect : Dialect} {text : String} {roots : List Node} {s t : Session}
    (parsed : (parse dialect text).outcome s = (.ok roots, t)) :
    nodesOf dialect text = .ok (Node.walkAll roots) := by
  rw [nodesOf_eq dialect text s, parsed]
  rfl

variable {settings : Settings} {path : Option String} {text name : String} {s : Session}

/-- What the nodes of a template have in common, and those of a component if the node has it that
it is put in place of, all nodes have that a transformation comes to. -/
theorem Visited.every_node {Q : Node → Prop}
    (template : ∀ ns, nodesOf settings.dialect text = .ok ns → ∀ n ∈ ns, Q n)
    (components : ∀ v n found frame t, Visited settings path text s v →
      v.Meets settings n .render → Q n →
      (component settings n.parameters n.indentation).outcome v.session =
        (.ok (found, frame), t) →
      ∀ ns, nodesOf settings.dialect found.contents = .ok ns → ∀ m ∈ ns, Q m)
    {v : Visit} (h : Visited settings path text s v) : v.part.Every Q := by
  refine h.induction (I := fun v => v.part.Every Q) ?_ ?_
  · intro roots t parsed
    exact Node.every_of_walkAll (template _ (nodesOf_of_parse parsed))
  · intro w x visited every step
    cases step with
    | call hq => exact hq.every every
    | item meets =>
      rw [meets.part] at every
      exact fun _ => Node.Every.children every
    | component meets _ load parsed =>
      rw [meets.part] at every
      refine Node.every_of_walkAll (components w _ _ _ _ visited meets ?_ load _ ?_)
      · exact Node.Every.self every
      · exact nodesOf_of_parse parsed

/-- Transforming a template puts a component in place. -/
def Includes (settings : Settings) (path : Option String) (text : String) (s : Session)
    (found : Component) : Prop :=
  ∃ v n frame t, Visited settings path text s v ∧ v.Meets settings n .render ∧
    (component settings n.parameters n.indentation).outcome v.session = (.ok (found, frame), t)

/-- A name that transforming a template does not read: no node of the texts that it reads uses it,
and no text interpolates it that these nodes or the scope bring, or that is the path of a
component. What the scope binds to the name itself does not count. -/
structure Unread (settings : Settings) (path : Option String) (text : String) (s : Session)
    (name : String) : Prop where
  noPath : name ≠ Scope.pathName
  template : TextIgnores settings.dialect name text
  scope : s.scope.Quiet name
  components : ∀ found, Includes settings path text s found →
    TextIgnores settings.dialect name found.contents
  paths : ∀ found, Includes settings path text s found → ¬ Interpolates found.path name

/-- A point that transforming a template comes to, where components may be nested so deep. -/
def At (settings : Settings) (path : Option String) (text : String) (s : Session) (depth : Nat)
    (q : Part × Session) : Prop :=
  ∃ v, Visited settings path text s v ∧ v.depth = depth ∧ v.part = q.1 ∧ v.session = q.2

theorem At.call {depth : Nat} {p q : Part × Session} (h : At settings path text s depth p)
    (call : Calls (env settings (contentsWithin settings depth)) p q) :
    At settings path text s depth q := by
  obtain ⟨v, visited, rfl, part, session⟩ := h
  have here : Calls (v.env settings) (v.part, v.session) q := by
    rw [part, session]
    exact call
  exact ⟨_, visited.step (.call here), rfl, rfl, rfl⟩

theorem At.item {depth : Nat} {n : Node} {u t : Session}
    (h : At settings path text s depth (.node n, u))
    (shared : settings.dialect.extension? n.kind = none)
    (directive : Directive.ofKind? n.kind = some .loop) (block : n.isBlock = true)
    {item collection : String} {done later : List Value} {value : Value}
    {rs : List (List Residual)} {frame : Frame}
    (items : (loopItems n.parameters).outcome u =
      (.ok (item, collection, done ++ value :: later), u))
    (before : (done.mapM (forItem item
      (nodes (env settings (contentsWithin settings depth)) n.children))).outcome u = (.ok rs, t))
    (bound : Frame.expand (.str item) value [] = .ok frame) :
    At settings path text s depth (.nodes n.children, t.push frame) := by
  obtain ⟨v, visited, rfl, part, rfl⟩ := h
  exact ⟨_, visited.step (.item ⟨part, shared, directive⟩ block items before bound), rfl, rfl, rfl⟩

theorem kind_of_nextBranch {n next : Node} (h : n.nextBranch = some next) :
    next.kind = "elseif" ∨ next.kind = "else" := by
  obtain ⟨-, continuation⟩ := Option.filter_eq_some_iff.1 h
  cases next with
  | text v i => cases continuation
  | leaf k p i => cases continuation
  | block k p i cs => simpa [Node.isContinuation, Node.kind] using continuation

theorem Visited.kind_of_chain {v : Visit} (h : Visited settings path text s v) {n : Node}
    (part : v.part = .chain n) : n.kind = "if" ∨ n.kind = "elseif" ∨ n.kind = "else" := by
  revert n
  refine h.induction (I := fun v => ∀ {n}, v.part = .chain n →
    n.kind = "if" ∨ n.kind = "elseif" ∨ n.kind = "else") ?_ ?_
  · intro roots t _ n part
    cases part
  · intro w x _ _ step n part
    cases step with
    | item => cases part
    | component => cases part
    | @call q hq =>
      change q.1 = .chain n at part
      generalize (w.part, w.session) = p at hq
      cases hq with
      | cond acts =>
        cases part
        exact .inl (Directive.ofKind?_eq_some.1 acts.directive)
      | next hnext =>
        cases part
        exact .inr (kind_of_nextBranch hnext)
      | _ => cases part

theorem blind_parse (dialect : Dialect) (text : String) : Blind name (parse dialect text) s :=
  sequential_parse (sequential_blind name) (fun _ _ _ => .record _ _) dialect text s

theorem blind_currentFile (noPath : name ≠ Scope.pathName) : Blind name currentFile s := by
  refine .look ?_ ?_
  · intro s' agree
    rw [agree.scope.currentPath noPath]
  · split
    · exact .pure _
    · exact .pure _
    · exact .throw _

theorem blind_component (noPath : name ≠ Scope.pathName) (parameters : Option String)
    (indentation : Nat) : Blind name (component settings parameters indentation) s := by
  refine .read fun call _ => .bind ?_ fun _ _ _ => .read fun _ _ =>
    .bind (blind_currentFile noPath) fun _ _ _ => .read fun _ _ =>
    .bind (.record _ _) fun _ _ _ => .pure _
  unfold noteDiscarded
  split
  · exact .record _ _
  · exact .pure _

theorem quiet_frame {n : Node} (ignores : Ignores name n)
    (directive : Directive.ofKind? n.kind = some .render) {found : Component} {frame : Frame}
    {t : Session} (unnamed : ¬ Interpolates found.path name)
    (load : (component settings n.parameters n.indentation).outcome s = (.ok (found, frame), t)) :
    frame.Quiet name := by
  obtain ⟨call, current, called, -, -, rfl⟩ := component_eq_ok load
  intro other v _ here
  rw [Mapping.lookup?_insert] at here
  split at here
  · rw [← Option.some.inj here]
    exact Value.silent_str unnamed
  · exact ignores.argument_silent directive called _ (Mapping.mem_of_lookup? here)

namespace Unread

variable (unread : Unread settings path text s name)
include unread

theorem visited {v : Visit} (h : Visited settings path text s v) :
    v.part.Every (Ignores name) := by
  refine h.every_node unread.template fun w n found frame t visited meets _ load => ?_
  exact unread.components found ⟨w, n, frame, t, visited, meets, load⟩

variable {depth : Nat}

theorem node {n : Node} {t : Session} (h : At settings path text s depth (.node n, t)) :
    Ignores name n := by
  obtain ⟨v, visited, -, part, -⟩ := h
  have every := unread.visited visited
  rw [part] at every
  exact Node.Every.self every

theorem asked_ne {p : Part} {t : Session} {other : String}
    (h : At settings path text s depth (p, t))
    (asked : Asked (env settings (contentsWithin settings depth)) p other) : other ≠ name := by
  have whole := h
  obtain ⟨v, visited, -, part, -⟩ := h
  have every := unread.visited visited
  rw [part] at every
  cases asked with
  | ifNot acts named =>
    obtain ⟨c, hc, rest⟩ := exists_of_bind_eq_ok named
    have same : c.name = other := by
      split at rest
      · cases rest
      · exact Except.ok.inj rest
    rw [← same]
    have kind := Directive.ofKind?_eq_some.1 acts.directive
    exact (unread.node whole).condition_ne (.inr (.inr kind)) hc
  | branch he hc =>
    refine (Node.Every.self every).condition_ne ?_ hc
    rcases visited.kind_of_chain part with kind | kind | kind
    · exact .inl kind
    · exact .inr (.inl kind)
    · exact absurd kind he
  | later hnext he hc =>
    refine (Node.Every.self (every.nextBranch hnext)).condition_ne ?_ hc
    exact .inr (.inl ((kind_of_nextBranch hnext).resolve_right he))

theorem loop {n : Node} {t : Session} (h : At settings path text s depth (.node n, t))
    (shared : settings.dialect.extension? n.kind = none)
    (directive : Directive.ofKind? n.kind = some .loop)
    (body : ∀ u, At settings path text s depth (.nodes n.children, u) →
      Blind name (loopBody (env settings (contentsWithin settings depth)) n) u) :
    Blind name (Compile.loop n.parameters
      (loopBody (env settings (contentsWithin settings depth)) n)) t := by
  have ignores := unread.node h
  intro quiet
  refine @sequential_loop _ (sequential_blind name) n.parameters
    _ (loopBody (env settings (contentsWithin settings depth)) n) t
    (blind_loopItems unread.noPath fun _ _ => ignores.collection_ne directive)
    (fun level message _ => .record level message) ?_ quiet
  intro item collection done value later rs u frame items before bound
  have silent : value.Silent name := by
    obtain ⟨known, looked, listed⟩ := known_of_loopItems items
    have apart := ignores.collection_ne directive (loopNames_of_loopItems items)
    exact (quiet.silent apart looked).item listed value
      (List.mem_append_right _ List.mem_cons_self)
  obtain rfl := (Frame.expand_eq_ok_iff.1 bound).2
  refine .withFrame (Frame.quiet_bind _ silent) ?_
  cases n with
  | text v i => exact .throw _
  | leaf k p i => exact .throw _
  | block k p i cs => exact body _ (h.item shared directive rfl items before bound)

theorem render {n : Node} {t : Session} (h : At settings path text s depth (.node n, t))
    (shared : settings.dialect.extension? n.kind = none)
    (directive : Directive.ofKind? n.kind = some .render)
    (inner : ∀ found frame u,
      (component settings n.parameters n.indentation).outcome t = (.ok (found, frame), u) →
      Blind name (contentsWithin settings depth found.contents) (u.push frame)) :
    Blind name (Transform.render settings (contentsWithin settings depth) n.parameters
      n.indentation) t := by
  have ignores := unread.node h
  refine .bind (blind_component unread.noPath _ _) fun (found, frame) u load => ?_
  obtain ⟨v, visited, -, part, session⟩ := h
  change v.session = t at session
  have included : Includes settings path text s found := by
    rw [← session] at load
    exact ⟨v, n, frame, u, visited, ⟨part, shared, directive⟩, load⟩
  exact .withFrame (quiet_frame ignores directive (unread.paths found included) load)
    (inner found frame u load)

theorem nodes_of_components
    (components : ∀ n t, At settings path text s depth (.node n, t) →
      settings.dialect.extension? n.kind = none → Directive.ofKind? n.kind = some .render →
      ∀ found frame u,
        (component settings n.parameters n.indentation).outcome t = (.ok (found, frame), u) →
        Blind name (contentsWithin settings depth found.contents) (u.push frame))
    {ns : List Node} {t : Session} (h : At settings path text s depth (.nodes ns, t)) :
    Blind name (nodes (env settings (contentsWithin settings depth)) ns) t := by
  have answers : Answers (fun act _ t => Blind name act t) (At settings path text s depth)
      (env settings (contentsWithin settings depth))
      (env settings (contentsWithin settings depth)) := by
    refine ⟨⟨?_, ?_, ?_, ?_, ?_⟩, ?_, ?_⟩
    · intro p q hp hq
      exact hp.call hq
    · intro n t _
      rfl
    · intro n t h shared directive body
      exact unread.loop h shared directive body
    · intro n t h shared directive
      exact unread.render h shared directive (components n t h shared directive)
    · intro n t h _ directive
      have ignores := unread.node h
      exact blind_metadata unread.noPath (fun _ => ignores.default_ne directive)
        fun _ => ignores.default_silent directive
    · intro n t h _ directive
      exact blind_echo ((unread.node h).variable_ne directive)
    · intro p t other h asked β f _ branch
      refine .look (fun t' agree => ?_) branch
      rw [agree.scope.condition? (unread.asked_ne h asked)]
  obtain ⟨-, -, -, -, blind⟩ := sequential_parts (sequential_blind name) answers
  exact blind ns t h

theorem nodes {ns : List Node} {t : Session} (h : At settings path text s depth (.nodes ns, t)) :
    Blind name (Compile.nodes (env settings (contentsWithin settings depth)) ns) t := by
  induction depth generalizing ns t with
  | zero =>
    refine unread.nodes_of_components (fun n t _ _ _ found frame u _ => ?_) h
    exact .throw _
  | succ depth ih =>
    refine unread.nodes_of_components (fun n t beside shared directive found frame u load => ?_) h
    rw [contentsWithin_succ]
    refine .bind (blind_parse _ _) fun roots r parsed => ih ?_
    obtain ⟨v, visited, room, part, session⟩ := beside
    change v.session = t at session
    rw [← session] at load
    exact ⟨_, visited.step (.component ⟨part, shared, directive⟩ room load parsed), rfl, rfl, rfl⟩

theorem contents : Blind name (Transform.contents settings text) (begun path s) := by
  change Blind name (contentsWithin settings (maxNesting - 1 + 1) text) _
  rw [contentsWithin_succ]
  refine .bind (blind_parse _ _) fun roots t parsed => unread.nodes ?_
  exact ⟨_, ⟨roots, t, parsed, .refl⟩, rfl, rfl, rfl⟩

end Unread

theorem blind_cancellable {α : Type} {act : Eval α} (h : Blind name act s)
    (path : Option String) : Blind name (cancellable path act) s := by
  unfold cancellable
  rw [map_eq_pure_bind]
  refine .tryCatch (.bind h fun _ _ _ => .pure _) fun f t _ => ?_
  split
  · exact .bind (.record _ _) fun _ _ _ => .pure _
  · exact .throw _

/-- Nothing sees an unread name: whatever value it is given or whether it has one at all in any
frame, the output, the failure or the cancellation and the log are the same, and afterwards all
other names are bound alike in every frame. -/
theorem unread_name_does_not_matter (settings : Settings) (shown : Bool) (path : Option String)
    (text : String) (s s' : Session) (name : String) (unread : Unread settings path text s name)
    (agree : s.AgreeBut name s') :
    ((output settings shown path text).outcome s').1 =
      ((output settings shown path text).outcome s).1 ∧
    ((output settings shown path text).outcome s).2.AgreeBut name
      ((output settings shown path text).outcome s').2 := by
  have framed : Blind name (framed s (contents settings text)) (about path s) := by
    have inner := unread.contents
    unfold begun at inner
    unfold Transform.framed
    split
    · rename_i empty
      rw [if_pos empty] at inner
      exact .withFrame Frame.quiet_nil inner
    · rename_i filled
      rw [if_neg filled] at inner
      exact inner
  obtain ⟨-, alike⟩ := blind_cancellable framed path unread.scope
  have begins : (about path s).AgreeBut name (about path s') := by
    refine ⟨⟨?_, agree.scope.frames⟩, agree.log⟩
    exact congrArg path.or agree.scope.basePath
  have same : Transform.framed s' (contents settings text) =
      Transform.framed s (contents settings text) := by
    unfold Transform.framed
    rw [agree.scope.isEmpty]
  rw [Presentation.outcome_output, Presentation.outcome_output, outcome_template,
    outcome_template, same]
  obtain ⟨result, left⟩ := alike _ begins
  exact ⟨congrArg (Except.map _) result, left⟩

section Example

theorem ignores_of_usedNames {n : Node} {names : List String} (used : usedNames n = names)
    (given : givenValues n = []) (unused : name ∉ names) : Ignores name n := by
  constructor
  · rw [used]
    exact unused
  · rw [given]
    exact List.forall_mem_nil _

def teamText : String :=
  "\x7b% meta " ++ userText ++ " %\x7d\x7b% for x in xs %\x7d\x7b% if user %\x7d" ++
    "\x7b\x7b x \x7d\x7d\x7b% endif %\x7d\x7b% endfor %\x7d" ++
    "\x7b% render '/site/part.liquid' %\x7d"

def teamRoots : List Node :=
  [.leaf "meta" (some userText) 0,
    .block "for" (some "x in xs") 0 [.block "if" (some "user") 0 [.leaf "variable" (some "x") 0]],
    .leaf "render" (some "'/site/part.liquid'") 0]

def teamSettings : Settings where
  dialect := .php
  extension := ".liquid"
  files := ⟨[(["site", "part.liquid"], "\x7b\x7b user.name \x7d\x7d".toUTF8.toList)], [], []⟩

def teamPart : Component := ⟨"\x7b\x7b user.name \x7d\x7d", "/site/part.liquid"⟩

def teamSession (frame : Frame) : Session :=
  ⟨⟨[frame ++ [(.str "xs", .list [.str "a", .str "b"])]], none⟩, []⟩

theorem nodesOf_team : nodesOf teamSettings.dialect teamText = .ok (Node.walkAll teamRoots) := by
  cbv

theorem nodesOf_part : nodesOf teamSettings.dialect teamPart.contents =
    .ok [.leaf "variable" (some "user.name") 0] := by
  cbv

theorem load_part (current : Option String) (indentation : Nat) :
    Component.load teamSettings.files current "/site/part.liquid" indentation ".liquid" =
      .ok teamPart := by
  have named : Path.ofString "/site/part.liquid" = ⟨"/", ["site", "part.liquid"]⟩ := by decide
  have read : teamSettings.files.readText ⟨"/", ["site", "part.liquid"]⟩ =
      .ok "\x7b\x7b user.name \x7d\x7d" := by cbv
  have fitted : Component.fit indentation "\x7b\x7b user.name \x7d\x7d" =
      "\x7b\x7b user.name \x7d\x7d" := by cbv
  have text : Path.text ⟨"/", ["site", "part.liquid"]⟩ = "/site/part.liquid" := by decide
  have resolved : teamSettings.files.resolve
      ((Component.baseOf teamSettings.files current).join (Path.ofString "/site/part.liquid")) =
        .ok ⟨"/", ["site", "part.liquid"]⟩ := by
    rw [named]
    rfl
  rw [Component.load_of_isFile resolved (by decide) read, fitted, text]
  rfl

theorem eq_part {n : Node} {t u : Session} {found : Component} {frame : Frame}
    (named : n.parameters = some "'/site/part.liquid'")
    (load : (component teamSettings n.parameters n.indentation).outcome t =
      (.ok (found, frame), u)) : found = teamPart := by
  have read : RenderCall.ofParameters (some "'/site/part.liquid'") =
      .ok ⟨"/site/part.liquid", ⟨[], none⟩⟩ := by cbv
  obtain ⟨call, current, called, -, loaded, -⟩ := component_eq_ok load
  rw [named, read] at called
  rw [← Except.ok.inj called] at loaded
  exact (Except.ok.inj ((load_part current n.indentation).symm.trans loaded)).symm

theorem included_part {found : Component}
    (h : Includes teamSettings path teamText s found) : found = teamPart := by
  obtain ⟨v, n, frame, t, visited, meets, load⟩ := h
  have every : v.part.Every fun n => Directive.ofKind? n.kind = some .render →
      n.parameters = some "'/site/part.liquid'" := by
    refine visited.every_node ?_ ?_
    · intro ns read n mem directive
      rw [← Except.ok.inj (nodesOf_team.symm.trans read)] at mem
      revert directive
      revert n
      simp [teamRoots, Node.walkAll, Node.walk, Node.kind, Node.parameters, Directive.ofKind?]
    · intro w m found frame t _ meets named load ns read n mem directive
      rw [eq_part (named meets.directive) load] at read
      rw [← Except.ok.inj (nodesOf_part.symm.trans read), List.mem_singleton] at mem
      rw [mem] at directive
      cases directive
  rw [meets.part] at every
  exact eq_part (Node.Every.self every meets.directive) load

theorem unread_team : Unread teamSettings (some "/site/page.liquid") teamText
    (teamSession [(.str "n", .str "secret")]) "n" where
  noPath := by decide
  template := by
    intro ns read
    rw [← Except.ok.inj (nodesOf_team.symm.trans read)]
    simp only [teamRoots, Node.walkAll, Node.walk, List.append_nil, List.cons_append,
      List.nil_append, List.forall_mem_cons]
    refine ⟨?_, ?_, ?_, ?_, ?_, List.forall_mem_nil _⟩
    · have used : usedNames (.leaf "meta" (some userText) 0) = ["user"] := by
        simp only [usedNames, Node.kind, Node.parameters, userText_data]
        rfl
      have given : givenValues (.leaf "meta" (some userText) 0) =
          [.map [(.str "name", .str "Bob")]] := by
        simp only [givenValues, Node.kind, Node.parameters, userText_data]
        rfl
      constructor
      · rw [used]
        decide
      · rw [given, List.forall_mem_singleton, Value.silent_entries rfl,
          List.forall_mem_singleton]
        exact Value.silent_str (not_interpolates (by decide) "n")
    · exact @ignores_of_usedNames _ _ ["xs"] (by cbv) (by cbv) (by decide)
    · exact @ignores_of_usedNames _ _ ["user"] (by cbv) (by cbv) (by decide)
    · exact @ignores_of_usedNames _ _ ["x"] (by cbv) (by cbv) (by decide)
    · exact @ignores_of_usedNames _ _ [] (by cbv) (by cbv) (by decide)
  scope := by
    intro frame mem other v apart here
    rw [List.mem_singleton.1 mem] at here
    have value : v = .list [.str "a", .str "b"] := by
      simp only [List.cons_append, List.nil_append, Mapping.lookup?_str_cons,
        Mapping.lookup?_nil, if_neg apart.symm] at here
      split at here
      · exact (Option.some.inj here).symm
      · cases here
    rw [value, Value.silent_list]
    simp only [List.forall_mem_cons]
    refine ⟨?_, ?_, List.forall_mem_nil _⟩
    · exact Value.silent_str (not_interpolates (by decide) "n")
    · exact Value.silent_str (not_interpolates (by decide) "n")
  components := by
    intro found included ns read
    rw [included_part included] at read
    rw [← Except.ok.inj (nodesOf_part.symm.trans read), List.forall_mem_singleton]
    exact ignores_of_usedNames rfl rfl (by decide)
  paths := by
    intro found included
    rw [included_part included]
    exact not_interpolates (by decide) "n"

theorem team_ignores_name :
    Unread teamSettings (some "/site/page.liquid") teamText
        (teamSession [(.str "n", .str "secret")]) "n" ∧
      (teamSession [(.str "n", .str "secret")]).AgreeBut "n" (teamSession []) ∧
      ((output teamSettings false (some "/site/page.liquid") teamText).outcome
        (teamSession [])).1 =
      ((output teamSettings false (some "/site/page.liquid") teamText).outcome
        (teamSession [(.str "n", .str "secret")])).1 ∧
      ((output teamSettings false (some "/site/page.liquid") teamText).outcome
        (teamSession [(.str "n", .str "secret")])).2.AgreeBut "n"
      ((output teamSettings false (some "/site/page.liquid") teamText).outcome
        (teamSession [])).2 := by
  have agree : (teamSession [(.str "n", .str "secret")]).AgreeBut "n" (teamSession []) := by
    refine ⟨⟨rfl, .cons (fun other apart => ?_) .nil⟩, rfl⟩
    exact ((Mapping.lookup?_str_cons _ _ _ _).trans (if_neg apart.symm)).symm
  exact ⟨unread_team, agree, unread_name_does_not_matter teamSettings false
    (some "/site/page.liquid") teamText _ _ "n" unread_team agree⟩

def hiddenFile : List String := ["ROOT", "\x7b\x7b n \x7d\x7d", "c.liquid"]

def hiddenSettings : Settings where
  dialect := .ispconfig
  extension := ".liquid"
  files := ⟨[(hiddenFile, "\x7b\x7b path \x7d\x7d".toUTF8.toList)], [], ["ROOT"]⟩

def hiddenPath : String := "/ROOT/\x7b\x7b n \x7d\x7d/t.liquid"

def hiddenText : String := "\x7b% render 'c.liquid' %\x7d"

def hiddenPart : Component :=
  ⟨"\x7b\x7b path \x7d\x7d", "/ROOT/\x7b\x7b n \x7d\x7d/c.liquid"⟩

def hiddenSession (frame : Frame) : Session := ⟨⟨[frame], none⟩, []⟩

theorem load_hidden (indentation : Nat) :
    Component.load hiddenSettings.files (some hiddenPath) "c.liquid" indentation ".liquid" =
      .ok hiddenPart := by
  have named : Path.ofString "c.liquid" = ⟨"", ["c.liquid"]⟩ := by decide
  have base : Component.baseOf hiddenSettings.files (some hiddenPath) =
      ⟨"/", ["ROOT", "\x7b\x7b n \x7d\x7d"]⟩ := by decide
  have resolved : hiddenSettings.files.resolve
      ((Component.baseOf hiddenSettings.files (some hiddenPath)).join (Path.ofString "c.liquid")) =
        .ok ⟨"/", hiddenFile⟩ := by
    rw [named, base]
    rfl
  have read : hiddenSettings.files.readText ⟨"/", hiddenFile⟩ = .ok hiddenPart.contents := by cbv
  have fitted : Component.fit indentation hiddenPart.contents = hiddenPart.contents := by cbv
  have text : Path.text ⟨"/", hiddenFile⟩ = hiddenPart.path := by decide
  rw [Component.load_of_isFile resolved (by decide) read, fitted, text]

theorem quietly_component {call : RenderCall} {parameters : Option String} {indentation : Nat}
    {current : Option String} {found : Component}
    (called : RenderCall.ofParameters parameters = .ok call)
    (kept : call.arguments.discarded = none)
    (allowed : Arguments.checkReserved call.arguments.bindings = .ok ())
    (file : s.scope.currentPath = current.map .str)
    (load : Component.load settings.files current call.component indentation settings.extension =
      .ok found) :
    (component settings parameters indentation).Quietly s
      (found,
        Mapping.insert (.str Scope.pathName) (.str found.path) call.arguments.bindings) := by
  refine .read called (.bind (a := ()) ?_ fun t same => .read allowed (.bind (a := current) ?_
    fun u _ => .read load (.bind (.debug _) fun _ _ => .pure _)))
  · unfold noteDiscarded
    rw [kept]
    exact .pure ()
  · refine ⟨t, ?_, rfl, rfl⟩
    rw [outcome_currentFile, same, file]
    cases current <;> rfl

def hiddenScope (frame : Frame) : Scope :=
  ⟨[[(.str Scope.pathName, .str hiddenPart.path)], frame], some hiddenPath⟩

theorem quietly_single {e : Env} {n : Node} {rs : List Residual}
    (h : (Compile.node e n).Quietly s rs) : (Compile.nodes e [n]).Quietly s rs := by
  rw [Compile.nodes]
  refine .bind h fun t _ => ?_
  rw [Compile.nodes]
  refine .bind (.pure []) fun u _ => ?_
  rw [List.append_nil]
  exact .pure rs

theorem quietly_hidden {frame : Frame} {rs : List Residual}
    (unbound : Mapping.lookup? Scope.pathName frame = none)
    (shown : (Lexeme.all [] hiddenPart.path.toList).mapM
      (fun l => echoText (hiddenScope frame) Scope.pathName l.1) = .ok rs) :
    (contents hiddenSettings hiddenText).Quietly
      (begun (some hiddenPath) (hiddenSession frame)) rs := by
  have outer (t : Session) : (parse hiddenSettings.dialect hiddenText).Quietly t
      [.leaf "render" (some "'c.liquid'") 0] :=
    @quietly_parse _ _ [⟨"render", 0, false, false, some "'c.liquid'", none, 0⟩] _ (by cbv)
      (by cbv) t
  have inner (t : Session) : (parse hiddenSettings.dialect hiddenPart.contents).Quietly t
      [.leaf "variable" (some "path") 0] :=
    @quietly_parse _ _ [⟨"variable", 0, false, false, some "path", none, 0⟩] _ (by cbv)
      (by cbv) t
  have called : RenderCall.ofParameters (some "'c.liquid'") = .ok ⟨"c.liquid", ⟨[], none⟩⟩ := by
    cbv
  refine .bind (outer _) fun t same => quietly_single ?_
  rw [node_plainly (d := .render) rfl rfl]
  have file : t.scope.currentPath = (some hiddenPath).map .str := by
    rw [same]
    change Scope.currentPath ⟨[frame], some hiddenPath⟩ = _
    rw [Scope.currentPath_eq, Scope.paths, List.map_singleton, unbound]
    rfl
  refine .bind (quietly_component called rfl rfl file (load_hidden 0)) fun u still =>
    .withFrame ?_
  change (contentsWithin hiddenSettings (998 + 1) hiddenPart.contents).Quietly _ rs
  rw [contentsWithin_succ]
  refine .bind (inner _) fun v here => quietly_single ?_
  rw [node_plainly (d := .echo) rfl rfl]
  have scope : v.scope = hiddenScope frame := by
    rw [here]
    change u.scope.push _ = _
    rw [still, same]
    rfl
  refine ⟨v, ?_, rfl, rfl⟩
  change (echo (some "path")).outcome v = _
  unfold echo
  rw [Eval.outcome_scope_bind, scope]
  exact congrArg (fun result => (result, v)) shown

/-- All that a name has to fulfil but for the path of the component, and the two outputs differ. -/
theorem component_path_reads_name :
    "n" ≠ Scope.pathName ∧ TextIgnores hiddenSettings.dialect "n" hiddenText ∧
      (hiddenSession [(.str "n", .str "v")]).scope.Quiet "n" ∧
      (∀ found,
        Includes hiddenSettings (some hiddenPath) hiddenText
          (hiddenSession [(.str "n", .str "v")]) found →
        TextIgnores hiddenSettings.dialect "n" found.contents) ∧
      (hiddenSession [(.str "n", .str "v")]).AgreeBut "n" (hiddenSession []) ∧
      ((output hiddenSettings false (some hiddenPath) hiddenText).outcome
        (hiddenSession [(.str "n", .str "v")])).1 = .ok (some "/ROOT/v/c.liquid") ∧
      ((output hiddenSettings false (some hiddenPath) hiddenText).outcome
        (hiddenSession [])).1 = .ok (some "/ROOT/\x7btmpl_var name=\"n\"\x7d/c.liquid") := by
  refine ⟨by decide, ?_, ?_, ?_, ?_, ?_, ?_⟩
  · have nodes : nodesOf hiddenSettings.dialect hiddenText =
        .ok [.leaf "render" (some "'c.liquid'") 0] := by cbv
    intro ns read
    rw [← Except.ok.inj (nodes.symm.trans read), List.forall_mem_singleton]
    exact @ignores_of_usedNames _ _ [] (by cbv) (by cbv) (by decide)
  · intro frame mem other v apart here
    rw [List.mem_singleton.1 mem, Mapping.lookup?_str_cons, if_neg apart.symm] at here
    cases here
  · rintro found ⟨v, n, frame, t, -, -, load⟩ ns read
    obtain ⟨call, current, -, -, loaded, -⟩ := component_eq_ok load
    obtain ⟨file, mem, text, decoded, same⟩ := Presentation.exists_file_of_load loaded
    have shown : FileTree.textOf "\x7b\x7b path \x7d\x7d".toUTF8.toList =
        .ok "\x7b\x7b path \x7d\x7d" := by cbv
    have fitted : Component.fit n.indentation "\x7b\x7b path \x7d\x7d" =
        "\x7b\x7b path \x7d\x7d" := by cbv
    have nodes : nodesOf hiddenSettings.dialect "\x7b\x7b path \x7d\x7d" =
        .ok [.leaf "variable" (some "path") 0] := by cbv
    rw [List.mem_singleton.1 mem, shown] at decoded
    rw [same, ← Except.ok.inj decoded, fitted] at read
    rw [← Except.ok.inj (nodes.symm.trans read), List.forall_mem_singleton]
    exact ignores_of_usedNames rfl rfl (by decide)
  · refine ⟨⟨rfl, .cons (fun other apart => ?_) .nil⟩, rfl⟩
    exact ((Mapping.lookup?_str_cons _ _ _ _).trans (if_neg apart.symm)).symm
  · have quiet := @quietly_hidden [(.str "n", .str "v")]
      [.text "/ROOT/", .text "v", .text "/c.liquid"] rfl (by cbv)
    obtain ⟨t, run, -⟩ := outcome_of_quietly quiet false
    have spelled : Residual.renderAll hiddenSettings.dialect.fragments false
        [.text "/ROOT/", .text "v", .text "/c.liquid"] = "/ROOT/v/c.liquid" := by decide
    rw [run, spelled]
  · have quiet := @quietly_hidden [] [.text "/ROOT/", .echo "n", .text "/c.liquid"] rfl (by cbv)
    obtain ⟨t, run, -⟩ := outcome_of_quietly quiet false
    have spelled : Residual.renderAll hiddenSettings.dialect.fragments false
        [.text "/ROOT/", .echo "n", .text "/c.liquid"] =
          "/ROOT/\x7btmpl_var name=\"n\"\x7d/c.liquid" := by decide
    rw [run, spelled]

end Example

end Transform

end Stencil
