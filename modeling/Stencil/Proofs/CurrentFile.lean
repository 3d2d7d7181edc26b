import Mathlib
import Stencil.Dialect.Php
import Stencil.Proofs.Failures

set_option autoImplicit false

/-!
# The current file

The file that a directive stands in is looked up under a name of the scope, which loops and meta
data can bind as well. It is found exactly where they have not, and then a directive is at the
root if and only if it stands in the template itself.
-/

namespace Stencil

open Template

namespace Scope

/-- What each frame holds under the name of the current file. -/
def paths (s : Scope) : List (Option Value) :=
  s.frames.map (Mapping.lookup? pathName)

def firstFilled (ps : List (Option Value)) : Option Value :=
  ps.findSome? fun p => p.filter Value.filled

theorem currentPath_eq (s : Scope) :
    s.currentPath = (firstFilled s.paths).or (s.basePath.map .str) := by
  unfold currentPath firstFilled paths
  rw [List.findSome?_map]
  let filled (f : Frame) : Option Value := (Mapping.lookup? pathName f).filter Value.filled
  change _ = Option.or (s.frames.findSome? filled) _
  cases s.frames.findSome? filled <;> rfl

theorem firstFilled_append (ps qs : List (Option Value)) :
    firstFilled (ps ++ qs) = (firstFilled ps).or (firstFilled qs) :=
  List.findSome?_append

theorem firstFilled_str {file : String} (h : file ≠ "") (below : List (Option Value)) :
    firstFilled (some (.str file) :: below) = some (.str file) := by
  have filled : (Value.str file).filled = true := by
    change (!file.isEmpty) = true
    rw [Bool.not_eq_true', Bool.eq_false_iff]
    intro empty
    exact h (String.isEmpty_iff.1 empty)
  unfold firstFilled
  rw [List.findSome?_cons, Option.filter_some, if_pos filled]

theorem mem_of_firstFilled {ps : List (Option Value)} {v : Value} (h : firstFilled ps = some v) :
    some v ∈ ps := by
  obtain ⟨p, hp, hv⟩ := List.exists_of_findSome?_eq_some h
  rw [(Option.filter_eq_some_iff.1 hv).1] at hp
  exact hp

theorem not_properPart_path (name : String) : ¬ ProperPart name pathName := by
  intro h
  have mark := h.mark_mem
  revert mark
  decide

theorem paths_of_kept {changed : String → Prop} {a b : Scope} (h : Kept changed a b)
    (still : ¬ changed pathName) : b.paths = a.paths := by
  unfold paths
  rcases h.frames with ⟨ha, hb⟩ | ⟨f, f', rest, ha, hb, grown⟩
  · rw [ha, hb]
  · have same : Mapping.lookup? pathName f' = Mapping.lookup? pathName f := by
      refine grown.same _ fun name changed' equal => still ?_
      rw [Key.str_inj.1 equal]
      exact changed'
    rw [ha, hb, List.map_cons, List.map_cons, same]

theorem bound_iff_paths {s : Scope} :
    s.frames.any (Mapping.contains (.str pathName)) = true ↔ ∃ v, some v ∈ s.paths := by
  unfold paths
  simp only [List.any_eq_true, List.mem_map, Mapping.contains, Option.isSome_iff_exists]
  constructor
  · rintro ⟨f, hf, v, hv⟩
    exact ⟨v, f, hf, hv⟩
  · rintro ⟨v, f, hf, hv⟩
    exact ⟨f, hf, v, hv⟩

end Scope

theorem Value.str_same_str (a b : String) : (Value.str a).same (.str b) = (a == b) := by
  rw [Value.same]
  rfl

theorem Path.text_ne_empty {p : Path} (h : p.root = "/") : p.text ≠ "" := by
  unfold Path.text
  rw [h]
  split
  · decide
  · intro he
    have hl := congrArg String.toList he
    rw [String.toList_append] at hl
    exact nomatch hl

namespace Component

theorem root_of_find {t : FileTree} {p q : Path} {extension : String}
    (h : find t p extension = .ok q) : q.root = p.root := by
  unfold find at h
  split at h
  · rw [Except.ok.inj h]
  · simp only at h
    split at h
    · exact nomatch h
    · rw [← Except.ok.inj h]
      rfl

theorem path_ne_empty {t : FileTree} {current : Option String} {name extension : String}
    {indentation : Nat} {found : Component}
    (h : load t current name indentation extension = .ok found) : found.path ≠ "" := by
  obtain ⟨resolved, hr, h₁⟩ := exists_of_bind_eq_ok h
  obtain ⟨path, hp, h₂⟩ := exists_of_bind_eq_ok h₁
  have root : path.root = "/" := by
    rw [root_of_find hp]
    unfold FileTree.resolve at hr
    split at hr
    · exact nomatch hr
    · rw [← Except.ok.inj hr]
  split at h₂
  · obtain ⟨contents, -, h₃⟩ := exists_of_bind_eq_ok h₂
    rw [← Except.ok.inj h₃]
    exact Path.text_ne_empty root
  · exact nomatch h₂

end Component

namespace Transform

open Compile

def boundPath (loop : String × Value) : Option Value :=
  if loop.1 = Scope.pathName then some loop.2 else none

theorem eq_of_boundPath {loop : String × Value} {w : Value} (h : boundPath loop = some w) :
    loop = (Scope.pathName, w) := by
  unfold boundPath at h
  split at h
  · rename_i same
    exact Prod.ext same (Option.some.inj h)
  · exact nomatch h

theorem lookup?_bind_path (item : String) (value : Value) :
    Mapping.lookup? Scope.pathName (Frame.bind (.str item) value []) = boundPath (item, value) := by
  unfold boundPath
  split
  · rename_i same
    have same : item = Scope.pathName := same
    rw [same]
    exact Frame.get?_bind_self _ value []
  · rename_i other
    refine Frame.get?_bind_of_ne (fun part => ?_) value []
    rcases part with same | part
    · exact other same.symm
    · exact Scope.not_properPart_path item part

namespace Visit

def own (v : Visit) : List (Option Value) :=
  if v.top then v.session.scope.paths else v.session.scope.paths.take v.loops.length

/-- The file that the text itself has put in the place of its own. -/
def shadow (v : Visit) : Option Value :=
  Scope.firstFilled v.own

structure Placed (base : Option String) (v : Visit) : Prop where
  basePath : v.session.scope.basePath = base
  template : v.top = true → v.file = base
  component : v.top = false → ∃ file below, v.file = some file ∧ file ≠ "" ∧
    v.session.scope.paths = v.loops.map boundPath ++ some (.str file) :: below

theorem Placed.currentPath {base : Option String} {v : Visit} (h : v.Placed base) :
    v.session.scope.currentPath = v.shadow.or (v.file.map .str) := by
  rw [Scope.currentPath_eq, h.basePath]
  unfold shadow own
  cases ht : v.top with
  | true =>
    rw [if_pos rfl, h.template ht]
  | false =>
    obtain ⟨file, below, hf, filled, hp⟩ := h.component ht
    have found := Scope.firstFilled_str filled below
    have locals : (v.loops.map boundPath).length = v.loops.length := List.length_map _
    rw [if_neg Bool.false_ne_true, hp, List.take_left' locals,
      Scope.firstFilled_append, found, hf]
    cases Scope.firstFilled (v.loops.map boundPath) <;> rfl

theorem not_touched_of_bound {settings : Settings} {v : Visit}
    (bound : v.session.scope.frames.any (Mapping.contains (.str Scope.pathName)) = true) :
    ¬ Compile.Touched (v.env settings) (v.part, v.session) Scope.pathName := by
  rintro ⟨n, t, reached, -, -, data, key, w, -, -, unbound, part⟩
  have still : t.scope.frames.any (Mapping.contains (.str Scope.pathName)) = true :=
    bound_of_reached (scope_renderWithin settings v.depth) reached bound
  rcases part with same | part
  · rw [← same, still] at unbound
    exact Bool.false_ne_true unbound.symm
  · exact Scope.not_properPart_path key part

theorem Placed.step {settings : Settings} {base : Option String} {v w : Visit}
    (h : v.Placed base) (step : Leads settings v w) : w.Placed base := by
  cases step with
  | @call q hq =>
    have kept := kept_of_calls (scope_renderWithin settings v.depth) hq
    refine ⟨kept.basePath.trans h.basePath, h.template, fun ht => ?_⟩
    obtain ⟨file, below, hf, filled, hp⟩ := h.component ht
    have bound : v.session.scope.frames.any (Mapping.contains (.str Scope.pathName)) = true :=
      Scope.bound_iff_paths.2 ⟨.str file, by rw [hp]; simp⟩
    have same := Scope.paths_of_kept kept (not_touched_of_bound bound)
    exact ⟨file, below, hf, filled, same.trans hp⟩
  | @item n item collection done later value rs t frame meets block items before bound =>
    have same : t.scope = v.session.scope :=
      (keeps_scope_items (scope_renderWithin settings v.depth) item n.children done).ok before
    have pushed : (t.push frame).scope =
        v.session.scope.push (Frame.bind (.str item) value []) := by
      rw [← same, ← (Frame.expand_eq_ok_iff.1 bound).2]
      rfl
    refine ⟨?_, h.template, fun ht => ?_⟩
    · rw [pushed]
      exact h.basePath
    · obtain ⟨file, below, hf, filled, hp⟩ := h.component ht
      refine ⟨file, below, hf, filled, ?_⟩
      rw [pushed]
      change Mapping.lookup? _ _ :: v.session.scope.paths = _
      rw [lookup?_bind_path, hp]
      rfl
  | @component n depth found frame roots t u meets room load parsed =>
    have loaded : t.scope = v.session.scope :=
      (keeps_scope_component settings n.parameters n.indentation).ok load
    have read : u.scope = v.session.scope.push frame := by
      rw [← loaded]
      exact (keeps_scope_parse settings.dialect found.contents).ok parsed
    obtain ⟨call, current, -, -, hfound, hframe⟩ := component_eq_ok load
    refine ⟨?_, nofun, fun _ => ?_⟩
    · rw [read]
      exact h.basePath
    · refine ⟨found.path, v.session.scope.paths, rfl, Component.path_ne_empty hfound, ?_⟩
      rw [read, hframe]
      change Mapping.lookup? _ _ :: v.session.scope.paths = _
      rw [Mapping.lookup?, Mapping.get?_insert_self]
      rfl

end Visit

section Run

variable {settings : Settings} {path : Option String} {text : String} {s : Session} {v : Visit}

theorem begun_basePath : (begun path s).scope.basePath = path.or s.scope.basePath := by
  unfold begun
  split <;> rfl

theorem begun_paths
    (unbound : ∀ f ∈ s.scope.frames, Mapping.contains (.str Scope.pathName) f = false)
    (w : Value) : some w ∉ (begun path s).scope.paths := by
  intro mem
  have bound := Scope.bound_iff_paths.2 ⟨w, mem⟩
  obtain ⟨f, hf, binds⟩ := List.any_eq_true.1 bound
  have old : f ∈ s.scope.frames ∨ f = [] := by
    unfold begun at hf
    split at hf
    · rcases List.mem_cons.1 hf with new | old
      · exact .inr new
      · exact .inl old
    · exact .inl hf
  rcases old with old | rfl
  · rw [unbound f old] at binds
    exact Bool.false_ne_true binds
  · exact Bool.false_ne_true binds

theorem Visited.placed (h : Visited settings path text s v) :
    v.Placed (path.or s.scope.basePath) := by
  refine h.induction ?_ fun _ _ _ placed step => placed.step step
  intro roots t parsed
  have same := (keeps_scope_parse settings.dialect text).ok parsed
  refine ⟨?_, fun _ => rfl, nofun⟩
  change t.scope.basePath = _
  rw [same, begun_basePath]

/-- Meta data of the template itself that gives a default for the name of the current file. -/
def Defaulted (settings : Settings) (path : Option String) (text : String) (s : Session) : Prop :=
  ∃ v n data w, Visited settings path text s v ∧ v.top = true ∧ v.Meets settings n .metadata ∧
    Meta.ofParameters n.parameters = .ok data ∧ (.str Scope.pathName, w) ∈ data.defaults

theorem Visited.defaulted (h : Visited settings path text s v) (top : v.top = true)
    (touched : Compile.Touched (v.env settings) (v.part, v.session) Scope.pathName) :
    Defaulted settings path text s := by
  obtain ⟨n, t, reached, hn, hd, data, key, w, hdata, mem, -, part⟩ := touched
  have visited := h.calls reached
  rcases part with same | part
  · rw [← same] at mem
    exact ⟨_, n, data, w, visited, top, ⟨rfl, hn, hd⟩, hdata, mem⟩
  · exact absurd part (Scope.not_properPart_path key)

theorem Visited.paths_of_top
    (unbound : ∀ f ∈ s.scope.frames, Mapping.contains (.str Scope.pathName) f = false)
    (h : Visited settings path text s v) (top : v.top = true) (w : Value)
    (mem : some w ∈ v.session.scope.paths) :
    (Scope.pathName, w) ∈ v.loops ∨ Defaulted settings path text s := by
  revert w
  revert top
  refine h.induction (I := fun v => v.top = true → ∀ w, some w ∈ v.session.scope.paths →
    (Scope.pathName, w) ∈ v.loops ∨ Defaulted settings path text s) ?_ ?_
  · intro roots t parsed _ w mem
    have same := (keeps_scope_parse settings.dialect text).ok parsed
    change some w ∈ t.scope.paths at mem
    rw [same] at mem
    exact absurd mem (begun_paths unbound w)
  · intro v u visited ih step top w mem
    cases step with
    | @call q hq =>
      by_cases touched : Compile.Touched (v.env settings) (v.part, v.session) Scope.pathName
      · exact .inr (visited.defaulted top touched)
      · have kept := kept_of_calls (scope_renderWithin settings v.depth) hq
        rw [Scope.paths_of_kept kept touched] at mem
        exact ih top w mem
    | @item n item collection done later value rs t frame meets block items before bound =>
      obtain rfl := (Frame.expand_eq_ok_iff.1 bound).2
      have same : t.scope = v.session.scope :=
        (keeps_scope_items (scope_renderWithin settings v.depth) item n.children done).ok before
      change some w ∈ Mapping.lookup? _ _ :: t.scope.paths at mem
      rw [lookup?_bind_path, same] at mem
      rcases List.mem_cons.1 mem with here | there
      · rw [eq_of_boundPath here.symm]
        exact .inl List.mem_cons_self
      · exact (ih top w there).imp_left (List.mem_cons_of_mem _)
    | component => exact nomatch top

theorem Visited.shadow_origin
    (unbound : ∀ f ∈ s.scope.frames, Mapping.contains (.str Scope.pathName) f = false)
    (h : Visited settings path text s v) {w : Value} (shadow : v.shadow = some w) :
    (Scope.pathName, w) ∈ v.loops ∨ v.top = true ∧ Defaulted settings path text s := by
  have mem := Scope.mem_of_firstFilled shadow
  unfold Visit.own at mem
  cases top : v.top with
  | true =>
    rw [if_pos top] at mem
    exact (h.paths_of_top unbound top w mem).imp_right fun given => ⟨rfl, given⟩
  | false =>
    obtain ⟨file, below, -, -, hp⟩ := h.placed.component top
    have locals : (v.loops.map boundPath).length = v.loops.length := List.length_map _
    rw [top, if_neg Bool.false_ne_true, hp, List.take_left' locals] at mem
    obtain ⟨loop, hloop, bound⟩ := List.mem_map.1 mem
    rw [← eq_of_boundPath bound]
    exact .inl hloop

/-- No component that is rendered is the file of the template. -/
def Elsewhere (settings : Settings) (path : Option String) (text : String) (s : Session) : Prop :=
  ∀ v n found frame t, Visited settings path text s v → v.Meets settings n .render →
    (component settings n.parameters n.indentation).outcome v.session = (.ok (found, frame), t) →
    some found.path ≠ path.or s.scope.basePath

theorem Visited.file_ne (elsewhere : Elsewhere settings path text s)
    (h : Visited settings path text s v) (top : v.top = false) :
    v.file ≠ path.or s.scope.basePath := by
  revert top
  refine h.induction (I := fun v => v.top = false → v.file ≠ path.or s.scope.basePath) ?_ ?_
  · intro roots t _ top
    exact nomatch top
  · intro v u visited ih step top
    cases step with
    | call => exact ih top
    | item => exact ih top
    | @component n depth found frame roots t u meets room load parsed =>
      exact elsewhere v n found frame t visited meets load

end Run

namespace Visit

/-- The current file is that of the text, and it is the root exactly in the template. -/
structure Tracked (v : Visit) : Prop where
  path : v.session.scope.currentPath = v.file.map .str
  root : v.session.scope.atRoot = true ↔ v.top = true

/-- Nothing but the file itself has been put in its place. -/
def Unshadowed (v : Visit) : Prop :=
  v.shadow = none ∨ v.shadow = v.file.map .str

theorem Placed.currentPath_iff {base : Option String} {v : Visit} (h : v.Placed base) :
    v.session.scope.currentPath = v.file.map .str ↔ v.Unshadowed := by
  rw [h.currentPath]
  unfold Unshadowed
  cases v.shadow with
  | none => simp
  | some w => simp

theorem Placed.atRoot_iff {base : Option String} {v : Visit} (h : v.Placed base)
    (elsewhere : v.top = false → v.file ≠ base)
    (hp : v.session.scope.currentPath = v.file.map .str) :
    v.session.scope.atRoot = true ↔ v.top = true := by
  unfold Scope.atRoot
  rw [hp, h.basePath]
  cases top : v.top with
  | true =>
    rw [h.template top]
    cases base with
    | none => simp
    | some p => simp [Value.str_same_str]
  | false =>
    obtain ⟨file, below, hf, -⟩ := h.component top
    have apart := elsewhere top
    rw [hf] at apart ⊢
    cases base with
    | none => simp
    | some p => simpa [Value.str_same_str] using apart

end Visit

theorem checkReserved_ne_cancelled (bindings : Mapping) :
    Arguments.checkReserved bindings ≠ .error .cancelled := by
  unfold Arguments.checkReserved
  split
  · intro h
    exact nomatch h
  · exact nofun

/-- Meta data for components alone cancels where it finds itself at the root. -/
theorem cancelled_iff_atRoot {parameters : Option String} {data : Meta}
    (hd : Meta.ofParameters parameters = .ok data) (childOnly : data.childOnly = true)
    (s : Session) :
    ((metadata parameters).outcome s).1 = .error .cancelled ↔ s.scope.atRoot = true := by
  rw [outcome_metadata hd, childOnly, Bool.true_and]
  split
  · rename_i root
    simp [root]
  · rename_i inside
    refine ⟨fun h => ?_, fun root => absurd root inside⟩
    split at h
    · rename_i f hf
      refine absurd ?_ (checkReserved_ne_cancelled data.defaults)
      rw [hf, Except.error.inj h]
    · split at h <;> exact nomatch h

/-- The current file is that of the text that a directive stands in, and the root exactly in the
template, if and only if no loop of that text and no meta data has put another file in its place;
only an item that is called like it, or a default for it in the template, can have done so. Where
it is the right one, meta data for components alone cancels exactly in the template, with it the
whole transformation, and components are looked for from the file that renders them. -/
theorem current_file_iff_unshadowed (settings : Settings) (path : Option String) (text : String)
    (s : Session)
    (unbound : ∀ f ∈ s.scope.frames, Mapping.contains (.str Scope.pathName) f = false)
    (elsewhere : Elsewhere settings path text s) (v : Visit)
    (visited : Visited settings path text s v) :
    (v.Tracked ↔ v.Unshadowed) ∧
    (v.Unshadowed ∨ (∃ w, (Scope.pathName, w) ∈ v.loops) ∨
      v.top = true ∧ Defaulted settings path text s) ∧
    (v.Unshadowed →
      (∀ n data, v.Meets settings n .metadata → Meta.ofParameters n.parameters = .ok data →
        data.childOnly = true →
        (((node (v.env settings) n).outcome v.session).1 = .error .cancelled ↔ v.top = true) ∧
        (v.top = true → ((template settings path text).outcome s).1 = .ok none)) ∧
      currentFile.outcome v.session = (.ok v.file, v.session) ∧
      (∀ n found frame t, v.Meets settings n .render →
        (component settings n.parameters n.indentation).outcome v.session =
          (.ok (found, frame), t) →
        ∃ call, RenderCall.ofParameters n.parameters = .ok call ∧
          Component.load settings.files v.file call.component n.indentation settings.extension =
            .ok found)) := by
  have placed := visited.placed
  have root (h : v.session.scope.currentPath = v.file.map .str) :=
    placed.atRoot_iff (visited.file_ne elsewhere) h
  refine ⟨?_, ?_, ?_⟩
  · constructor
    · intro tracked
      exact placed.currentPath_iff.1 tracked.path
    · intro unshadowed
      have here := placed.currentPath_iff.2 unshadowed
      exact ⟨here, root here⟩
  · cases shadow : v.shadow with
    | none => exact .inl (.inl shadow)
    | some w =>
      refine .inr ((visited.shadow_origin unbound shadow).imp_left fun loop => ⟨w, loop⟩)
  · intro unshadowed
    have here := placed.currentPath_iff.2 unshadowed
    have file : currentFile.outcome v.session = (.ok v.file, v.session) := by
      rw [outcome_currentFile, here]
      cases v.file <;> rfl
    refine ⟨?_, file, ?_⟩
    · intro n data meets hd childOnly
      have cancels : ((node (v.env settings) n).outcome v.session).1 = .error .cancelled ↔
          v.top = true := by
        rw [node_plainly meets.shared meets.directive]
        exact (cancelled_iff_atRoot hd childOnly v.session).trans (root here)
      refine ⟨cancels, fun top => visited.cancels ?_⟩
      unfold Visit.Fails
      rw [meets.part]
      exact cancels.2 top
    · intro n found frame t meets load
      obtain ⟨call, current, hcall, hcurrent, hload, -⟩ := component_eq_ok load
      rw [file] at hcurrent
      rw [← Except.ok.inj (Prod.mk.inj hcurrent).1] at hload
      exact ⟨call, hcall, hload⟩

theorem elsewhere_of_parsed {settings : Settings} {path : Option String} {text : String}
    {s t : Session} {roots : List Node}
    (parsed : (parse settings.dialect text).outcome (begun path s) = (.ok roots, t))
    (unrendered : ∀ n ∈ Node.walkAll roots, n.kind ≠ Directive.render.kind) :
    Elsewhere settings path text s := by
  intro v n found frame u visited meets _
  have every : v.part.Every fun n => n.kind ≠ Directive.render.kind := by
    refine visited.induction
      (I := fun v => v.part.Every fun n => n.kind ≠ Directive.render.kind) ?_ ?_
    · intro roots' t' parsed'
      rw [parsed] at parsed'
      rw [← Except.ok.inj (Prod.mk.inj parsed').1]
      exact Node.every_of_walkAll unrendered
    · intro w x _ every step
      cases step with
      | call hq => exact hq.every every
      | item meets block items before =>
        rw [meets.part] at every
        exact fun _ => Node.Every.children every
      | component meets =>
        rw [meets.part] at every
        exact absurd (Directive.ofKind?_eq_some.1 meets.directive) (Node.Every.self every)
  rw [meets.part] at every
  exact absurd (Directive.ofKind?_eq_some.1 meets.directive) (Node.Every.self every)

section Example

def loopText (item : String) : String :=
  "\x7b% for " ++ item ++ " in items %\x7d\x7b% meta \x7b\"isChildOnly\": true\x7d %\x7d" ++
    "\x7b% endfor %\x7dX"

def childNode : Node := .leaf "meta" (some "\x7b\"isChildOnly\": true\x7d") 0

def loopRoots (item : String) : List Node :=
  [.block "for" (some (item ++ " in items")) 0 [childNode], .text "X" 0]

def loopSettings : Settings := ⟨.php, ".liquid", ⟨[], [], []⟩⟩

def loopSession : Session := ⟨⟨[[(.str "items", .list [.str "b"])]], none⟩, []⟩

def loopParsed (item : String) : Session :=
  ((parse loopSettings.dialect (loopText item)).outcome
    (begun (some "/site/page.liquid") loopSession)).2

def childVisit (item : String) : Visit where
  depth := maxNesting - 1
  file := some "/site/page.liquid"
  top := true
  loops := [(item, .str "b")]
  part := .node childNode
  session := (loopParsed item).push [(.str item, .str "b")]

theorem visited_child {item : String}
    (parsed : ((parse loopSettings.dialect (loopText item)).outcome
      (begun (some "/site/page.liquid") loopSession)).1 = .ok (loopRoots item))
    (items : (loopItems (some (item ++ " in items"))).outcome (loopParsed item) =
      (.ok (item, "items", [] ++ .str "b" :: []), loopParsed item)) :
    Visited loopSettings (some "/site/page.liquid") (loopText item) loopSession
      (childVisit item) := by
  let first := start (some "/site/page.liquid") loopSession (loopRoots item) (loopParsed item)
  let loop : Visit := { first with
    part := .node (.block "for" (some (item ++ " in items")) 0 [childNode]) }
  let body : Visit := { childVisit item with part := .nodes [childNode] }
  have met : Leads loopSettings first loop :=
    @Leads.call _ first (_, loopParsed item) .head
  have entered : Leads loopSettings loop body :=
    @Leads.item _ loop _ item "items" [] [] (.str "b") [] (loopParsed item) _ ⟨rfl, rfl, rfl⟩ rfl
      items rfl (Frame.expand_atom _ _ _)
  have inside : Leads loopSettings body (childVisit item) :=
    @Leads.call _ body (_, body.session) .head
  exact ⟨loopRoots item, loopParsed item, Prod.ext parsed rfl,
    ((Relation.ReflTransGen.single met).tail entered).tail inside⟩

theorem key?_isChildOnly : Json.key? Meta.rules "\"isChildOnly\": true\x7d".toList =
    some (.str "isChildOnly", "true\x7d".toList) := by
  rfl

theorem value?_true (fuel depth : Nat) : Json.value? Meta.rules (fuel + 1) depth "true\x7d".toList =
    some (.bool true, ['\x7d']) := by
  unfold Json.value?
  rfl

theorem members?_isChildOnly (fuel depth : Nat) :
    Json.members? Meta.rules (fuel + 2) depth "\"isChildOnly\": true\x7d".toList =
      some ([(.str "isChildOnly", .bool true)], []) := by
  unfold Json.members?
  simp only [key?_isChildOnly, value?_true]
  rfl

theorem value?_isChildOnly (fuel depth : Nat) :
    Json.value? Meta.rules (fuel + 3) (depth + 1) ('\x7b' :: "\"isChildOnly\": true\x7d".toList) =
      some (.map [(.str "isChildOnly", .bool true)], []) := by
  unfold Json.value?
  change (Json.members? Meta.rules (fuel + 2) depth "\"isChildOnly\": true\x7d".toList).map _ = _
  rw [members?_isChildOnly]
  rfl

theorem childNode_data : Meta.ofParameters childNode.parameters = .ok ⟨true, []⟩ := by
  have fuel : 2 * "\x7b\"isChildOnly\": true\x7d".toList.length + 2 = 41 + 3 := by decide
  have text : Json.skipSpace "\x7b\"isChildOnly\": true\x7d".toList =
      '\x7b' :: "\"isChildOnly\": true\x7d".toList := by decide
  have read : Json.readNested? Meta.rules Meta.maxDepth "\x7b\"isChildOnly\": true\x7d".toList =
      some (.map [(.str "isChildOnly", .bool true)]) := by
    unfold Json.readNested? Meta.maxDepth
    rw [fuel, text, value?_isChildOnly 41 199]
    rfl
  unfold Meta.ofParameters childNode
  simp only [Node.parameters]
  rw [if_neg (by decide), read]
  rfl

theorem loop_unbound : ∀ f ∈ loopSession.scope.frames,
    Mapping.contains (.str Scope.pathName) f = false := by
  decide

theorem loop_elsewhere {item : String}
    (parsed : ((parse loopSettings.dialect (loopText item)).outcome
      (begun (some "/site/page.liquid") loopSession)).1 = .ok (loopRoots item)) :
    Elsewhere loopSettings (some "/site/page.liquid") (loopText item) loopSession := by
  refine elsewhere_of_parsed (Prod.ext parsed rfl) ?_
  simp [loopRoots, childNode, Node.walkAll, Node.walk, Node.kind, Directive.kind]

theorem child_of_loop_cancels :
    (childVisit "part").Tracked ∧
      ((node ((childVisit "part").env loopSettings) childNode).outcome
        (childVisit "part").session).1 = .error .cancelled ∧
      ((template loopSettings (some "/site/page.liquid") (loopText "part")).outcome
        loopSession).1 = .ok none := by
  have parsed : ((parse loopSettings.dialect (loopText "part")).outcome
      (begun (some "/site/page.liquid") loopSession)).1 = .ok (loopRoots "part") := by cbv
  have items : (loopItems (some "part in items")).outcome (loopParsed "part") =
      (.ok ("part", "items", [] ++ .str "b" :: []), loopParsed "part") := by cbv
  have unshadowed : (childVisit "part").Unshadowed := .inl (by cbv)
  obtain ⟨tracked, -, hence⟩ := current_file_iff_unshadowed loopSettings (some "/site/page.liquid")
    (loopText "part") loopSession loop_unbound (loop_elsewhere parsed) (childVisit "part")
    (visited_child parsed items)
  obtain ⟨here, whole⟩ := (hence unshadowed).1 childNode _ ⟨rfl, rfl, rfl⟩ childNode_data rfl
  exact ⟨tracked.2 unshadowed, here.2 rfl, whole rfl⟩

/-- In a loop whose items are called like the current file, meta data of the template itself finds
an item in the place of the template, and does not cancel. -/
theorem path_item_hides_template :
    (∀ f ∈ loopSession.scope.frames, Mapping.contains (.str Scope.pathName) f = false) ∧
      Elsewhere loopSettings (some "/site/page.liquid") (loopText "path") loopSession ∧
      Visited loopSettings (some "/site/page.liquid") (loopText "path") loopSession
        (childVisit "path") ∧
      (childVisit "path").top = true ∧
      (childVisit "path").session.scope.currentPath = some (.str "b") ∧
      (childVisit "path").session.scope.atRoot = false ∧
      ((node ((childVisit "path").env loopSettings) childNode).outcome
        (childVisit "path").session).1 ≠ .error .cancelled := by
  have parsed : ((parse loopSettings.dialect (loopText "path")).outcome
      (begun (some "/site/page.liquid") loopSession)).1 = .ok (loopRoots "path") := by cbv
  have items : (loopItems (some "path in items")).outcome (loopParsed "path") =
      (.ok ("path", "items", [] ++ .str "b" :: []), loopParsed "path") := by cbv
  have root : (childVisit "path").session.scope.atRoot = false := by cbv
  refine ⟨loop_unbound, loop_elsewhere parsed, visited_child parsed items, rfl, by cbv, root, ?_⟩
  have meets : (childVisit "path").Meets loopSettings childNode .metadata := ⟨rfl, rfl, rfl⟩
  rw [node_plainly meets.shared meets.directive]
  intro cancelled
  have atRoot := (cancelled_iff_atRoot childNode_data rfl _).1 cancelled
  rw [root] at atRoot
  exact Bool.false_ne_true atRoot

end Example

end Transform

end Stencil
