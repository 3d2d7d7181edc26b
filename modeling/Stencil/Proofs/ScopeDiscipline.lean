import Mathlib.Logic.Relation
import Stencil.Proofs.Calls
import Stencil.Proofs.Frames
import Stencil.Proofs.JsonObjects
import Stencil.Transform

set_option autoImplicit false

/-!
# Scope discipline

However a transformation ends, it leaves the frames as it found them, except that the defaults of
the meta data met outside of loops and components stay in the innermost one. Loops and components
leave no trace.
-/

namespace Stencil

namespace Scope

/-- A scope that differs from an earlier one in its innermost frame alone, and there at certain
names alone. -/
structure Kept (changed : String → Prop) (before after : Scope) : Prop where
  basePath : after.basePath = before.basePath
  depth : after.depth = before.depth
  below : after.frames.tail = before.frames.tail
  innermost : Frame.Grown changed (before.frames.headD []) (after.frames.headD [])

namespace Kept

variable {changed other : String → Prop} {a b c : Scope}

theorem refl (a : Scope) : Kept changed a a := ⟨rfl, rfl, rfl, .refl _⟩

theorem trans (hab : Kept changed a b) (hbc : Kept changed b c) : Kept changed a c where
  basePath := hbc.basePath.trans hab.basePath
  depth := hbc.depth.trans hab.depth
  below := hbc.below.trans hab.below
  innermost := hab.innermost.trans hbc.innermost

theorem mono (h : Kept changed a b) (hc : ∀ name, changed name → other name) : Kept other a b :=
  { h with innermost := h.innermost.mono hc }

theorem frames (h : Kept changed a b) :
    (a.frames = [] ∧ b.frames = []) ∨
      ∃ f f' rest, a.frames = f :: rest ∧ b.frames = f' :: rest ∧ Frame.Grown changed f f' := by
  have hd : b.frames.length = a.frames.length := h.depth
  have hb := h.below
  have hi := h.innermost
  cases ha : a.frames with
  | nil =>
    rw [ha] at hd
    exact .inl ⟨rfl, List.eq_nil_of_length_eq_zero hd⟩
  | cons f rest =>
    rw [ha] at hd hb hi
    cases hb' : b.frames with
    | nil =>
      rw [hb'] at hd
      exact nomatch hd
    | cons f' rest' =>
      rw [hb'] at hb hi
      exact .inr ⟨f, f', rest, rfl, congrArg _ hb, hi⟩

theorem eq_of_empty (h : Kept changed a b) (ha : a.frames = []) : b = a := by
  have hp := h.basePath
  rcases h.frames with ⟨-, hb⟩ | ⟨f, f', rest, hf, -⟩
  · cases a
    cases b
    simp_all only
  · rw [ha] at hf
    exact nomatch hf

theorem bound (h : Kept changed a b) {k : Key}
    (bound : a.frames.any (Mapping.contains k) = true) :
    b.frames.any (Mapping.contains k) = true := by
  rcases h.frames with ⟨ha, hb⟩ | ⟨f, f', rest, ha, hb, grown⟩
  · rw [ha] at bound
    exact nomatch bound
  · rw [ha, List.any_cons, Bool.or_eq_true] at bound
    rw [hb, List.any_cons, Bool.or_eq_true]
    exact bound.imp_left (grown.keys k)

theorem truncate_push {frame : Frame} (h : Kept changed (a.push frame) b) :
    b.truncate a.depth = a := by
  obtain ⟨frames, path⟩ := a
  obtain ⟨frames', path'⟩ := b
  have hp : path' = path := h.basePath
  have hd : frames'.length = frames.length + 1 := h.depth
  have hb : frames'.tail = frames := h.below
  unfold Scope.truncate Scope.depth
  rw [hd, Nat.add_sub_cancel_left, List.drop_one, hb, hp]

end Kept

end Scope

/-- The names that the defaults of a `meta` directive make known in a scope: those that it did not
bind before, and the names of the parts of their values. -/
def Meta.Touches (scope : Scope) (parameters : Option String) (name : String) : Prop :=
  ∃ data key v, Meta.ofParameters parameters = .ok data ∧ (.str key, v) ∈ data.defaults ∧
    scope.frames.any (Mapping.contains (.str key)) = false ∧ PartName key name

namespace Compile

open Template

theorem grown_defaults {changed : String → Prop} {new : Mapping} (frame : Frame)
    (h : ∀ e ∈ new, ∃ key, e.1 = .str key ∧ ∀ name, PartName key name → changed name) :
    Frame.Grown changed frame (new.foldl (fun f (k, v) => Frame.bind k v f) frame) := by
  induction new generalizing frame with
  | nil => exact .refl frame
  | cons e new ih =>
    obtain ⟨key, hk, hc⟩ := h e List.mem_cons_self
    obtain ⟨k, v⟩ := e
    obtain rfl : k = .str key := hk
    have first := (Frame.grown_bind_str key v frame).mono hc
    exact first.trans (ih _ fun e' he => h e' (List.mem_cons_of_mem _ he))

theorem kept_bindDefaults {parameters : Option String} {data : Meta}
    (hd : Meta.ofParameters parameters = .ok data) (scope : Scope) :
    Scope.Kept (Meta.Touches scope parameters) scope (bindDefaults data.defaults scope) := by
  obtain ⟨frames, path⟩ := scope
  cases frames with
  | nil => exact .refl _
  | cons frame rest =>
    refine ⟨rfl, rfl, rfl, grown_defaults frame fun e he => ?_⟩
    obtain ⟨mem, unbound⟩ := List.mem_filter.1 he
    obtain ⟨key, hk⟩ := Meta.str_of_mem_defaults hd e mem
    obtain ⟨k, v⟩ := e
    obtain rfl : k = .str key := hk
    exact ⟨key, rfl, fun name part =>
      ⟨data, key, v, hd, mem, by simpa using unbound, part⟩⟩

theorem kept_metadata (parameters : Option String) (s : Session) :
    Scope.Kept (Meta.Touches s.scope parameters) s.scope
      ((metadata parameters).outcome s).2.scope := by
  cases hd : Meta.ofParameters parameters with
  | error e =>
    unfold metadata
    rw [hd]
    exact .refl _
  | ok data =>
    rw [outcome_metadata hd]
    split
    · exact .refl _
    · split
      · exact .refl _
      · split
        · exact .refl _
        · exact kept_bindDefaults hd s.scope

/-- A computation that keeps the scope of a session, certain names in its innermost frame
excepted. -/
def KeepsBut (changed : String → Prop) {α : Type} (act : Eval α) (s : Session) : Prop :=
  Scope.Kept changed s.scope (act.outcome s).2.scope

theorem KeepsBut.bind {changed : String → Prop} {α β : Type} {x : Eval α} {f : α → Eval β}
    {s : Session} (hx : KeepsBut changed x s)
    (hf : ∀ a t, x.outcome s = (.ok a, t) → KeepsBut changed (f a) t) :
    KeepsBut changed (x >>= f) s := by
  unfold KeepsBut at hx ⊢
  rw [Eval.outcome_bind]
  split
  · rename_i a t ha
    rw [ha] at hx
    exact hx.trans (hf a t ha)
  · rename_i e t he
    rw [he] at hx
    exact hx

theorem local_keepsBut (changed : String → Prop) :
    Eval.Local fun act _ s => KeepsBut changed act s where
  ofExcept _ _ := .refl _
  scope _ := .refl _
  bind := KeepsBut.bind

theorem keepsBut_of_eq {changed : String → Prop} {α : Type} {act : Eval α} {s : Session}
    (h : (act.outcome s).2.scope = s.scope) : KeepsBut changed act s := by
  unfold KeepsBut
  rw [h]
  exact .refl _

theorem scope_withFrame {changed : String → Prop} {α : Type} {frame : Frame} {act : Eval α}
    {s : Session} (h : KeepsBut changed act (s.push frame)) :
    ((Eval.withFrame frame act).outcome s).2.scope = s.scope := by
  rw [Eval.outcome_withFrame]
  exact Scope.Kept.truncate_push h

theorem scope_loop {body : Eval (List Residual)}
    (h : ∀ t, KeepsBut (fun _ => True) body t) (parameters : Option String) (s : Session) :
    ((loop parameters body).outcome s).2.scope = s.scope := by
  refine @local_loop _ (Eval.local_keeps Session.scope) parameters body body s (fun _ _ _ => rfl) ?_
  intro item collection done v later rs t frame _ _ _
  exact scope_withFrame (h _)

/-- A `meta` directive that a part leads to, outside of loops and components, makes a name
known. -/
def Touched (env : Env) (p : Part × Session) (name : String) : Prop :=
  ∃ n t, Relation.ReflTransGen (Calls env) p (.node n, t) ∧
    env.dialect.extension? n.kind = none ∧ Directive.ofKind? n.kind = some .metadata ∧
    Meta.Touches t.scope n.parameters name

theorem Touched.of_calls {env : Env} {p q : Part × Session} (h : Calls env p q) {name : String}
    (touched : Touched env q name) : Touched env p name := by
  obtain ⟨n, t, reached, rest⟩ := touched
  exact ⟨n, t, reached.head h, rest⟩

section Parts

variable {env : Env}
  (render : ∀ parameters indentation s,
    ((env.render parameters indentation).outcome s).2.scope = s.scope)
include render

theorem keepsBut_nodes (ns : List Node) (s : Session) :
    KeepsBut (fun _ => True) (nodes env ns) s := by
  have reduces : Reduces (fun act _ s => KeepsBut (fun _ => True) act s) (fun _ => True)
      env env := by
    constructor
    · intro p q _ _
      trivial
    · intro n s _
      rfl
    · intro n s _ _ _ body
      exact keepsBut_of_eq (scope_loop (fun t => body t trivial) n.parameters s)
    · intro n s _ _ _
      exact keepsBut_of_eq (render n.parameters n.indentation s)
    · intro n s _ _ _
      exact (kept_metadata n.parameters s).mono fun _ _ => trivial
  obtain ⟨-, -, -, -, nodes⟩ := local_parts (local_keepsBut _) reduces
  exact nodes ns s trivial

theorem keepsBut_loopBody (n : Node) (s : Session) :
    KeepsBut (fun _ => True) (loopBody env n) s := by
  cases n with
  | text v i => exact .refl _
  | leaf k p i => exact .refl _
  | block k p i cs => exact keepsBut_nodes render cs s

/-- Compiling changes the scope where the meta data that it meets touches it. -/
theorem keepsBut_touched :
    (∀ n s, KeepsBut (Touched env (.node n, s)) (node env n) s) ∧
    (∀ ns s, KeepsBut (Touched env (.nodes ns, s)) (nodes env ns) s) := by
  have reduces (p : Part × Session) : Reduces (fun act _ t => KeepsBut (Touched env p) act t)
      (Relation.ReflTransGen (Calls env) p) env env := by
    constructor
    · intro q r hq hr
      exact hq.tail hr
    · intro n t _
      rfl
    · intro n t _ _ _ _
      exact keepsBut_of_eq (scope_loop (keepsBut_loopBody render n) n.parameters t)
    · intro n t _ _ _
      exact keepsBut_of_eq (render n.parameters n.indentation t)
    · intro n t reached hn hd
      exact (kept_metadata n.parameters t).mono fun name touches =>
        ⟨n, t, reached, hn, hd, touches⟩
  constructor
  · intro n s
    exact (local_parts (local_keepsBut _) (reduces (.node n, s))).1 n s .refl
  · intro ns s
    exact (local_parts (local_keepsBut _) (reduces (.nodes ns, s))).2.2.2.2 ns s .refl

theorem kept_of_calls {p q : Part × Session} (h : Calls env p q) :
    Scope.Kept (Touched env p) p.2.scope q.2.scope := by
  obtain ⟨keptNode, keptNodes⟩ := keepsBut_touched render
  have after {ns : List Node} {s t : Session} {rs : List Residual}
      (call : Calls env p (.nodes ns, s)) (body : (nodes env ns).outcome s = (.ok rs, t)) :
      Scope.Kept (Touched env p) s.scope t.scope := by
    have kept := (keptNodes ns s).mono fun _ => Touched.of_calls call
    rw [body] at kept
    exact kept
  cases h with
  | @tail n rest rs s t first =>
    have kept := (keptNode n s).mono fun _ => Touched.of_calls (@Calls.head env n rest s)
    rw [first] at kept
    exact kept
  | unlessElse acts asked unknown body more =>
    refine after (.unlessBody acts asked fun v hv => ?_) body
    rw [unknown] at hv
    exact nomatch hv
  | chainRest he hc unknown body => exact after (.chainBody he hc (open_of_none unknown)) body
  | laterRest hnext he hc unknown body =>
    exact after (.laterBody hnext he hc (open_of_none unknown)) body
  | head | native | cond | comment | unlessBody | unlessTrue | next | elseBody | chainBody
  | chainNext | laterElse | laterBody | laterNext => exact .refl _

theorem bound_of_reached {p q : Part × Session}
    (reached : Relation.ReflTransGen (Calls env) p q) {k : Key}
    (bound : p.2.scope.frames.any (Mapping.contains k) = true) :
    q.2.scope.frames.any (Mapping.contains k) = true := by
  induction reached with
  | refl => exact bound
  | tail _ call ih => exact (kept_of_calls render call).bound ih

theorem keeps_scope_items (item : String) (ns : List Node) (values : List Value) :
    Eval.Keeps Session.scope (values.mapM (forItem item (nodes env ns))) :=
  .mapM (fun _ => .bind (Eval.keeps_ofExcept _ _) fun _ _ =>
    scope_withFrame (keepsBut_nodes render ns _)) values

end Parts

end Compile

namespace Transform

open Compile

theorem sequential_parse {P : ∀ {α : Type}, Eval α → Eval α → Session → Prop}
    (hP : Eval.Sequential P)
    (record : ∀ level message t, P (Eval.record level message) (Eval.record level message) t)
    (dialect : Dialect) (text : String) (s : Session) :
    P (parse dialect text) (parse dialect text) s := by
  refine hP.read fun tokens _ => hP.bind (record _ _ _) fun _ t _ =>
    hP.read fun forest _ => hP.bind ?_ fun _ u _ =>
    hP.bind (record _ _ u) fun _ _ _ => hP.pure _
  unfold warnUnclosed
  split
  · exact record _ _ _
  · exact hP.pure _

theorem keeps_scope_parse (dialect : Dialect) (text : String) :
    Eval.Keeps Session.scope (parse dialect text) :=
  sequential_parse (Eval.local_keeps Session.scope).toSequential
    (fun _ _ => Eval.keeps_scope_record _ _) dialect text

theorem keeps_scope_noteDiscarded (arguments : Arguments) :
    Eval.Keeps Session.scope (noteDiscarded arguments) := by
  unfold noteDiscarded
  split
  · exact Eval.keeps_scope_record _ _
  · exact Eval.keeps_ofExcept _ (.ok _)

theorem keeps_currentFile : Eval.Keeps id currentFile := by
  intro s
  unfold currentFile
  rw [Eval.outcome_scope_bind]
  split
  · rfl
  · rfl
  · rfl

theorem keeps_scope_component (settings : Settings) (parameters : Option String)
    (indentation : Nat) : Eval.Keeps Session.scope (component settings parameters indentation) := by
  refine .bind (Eval.keeps_ofExcept _ _) fun call => .bind (keeps_scope_noteDiscarded _) fun _ =>
    .bind (Eval.keeps_ofExcept _ _) fun _ => .bind ?_ fun current =>
    .bind (Eval.keeps_ofExcept _ _) fun found => .bind (Eval.keeps_scope_record _ _) fun _ =>
    Eval.keeps_ofExcept _ (.ok _)
  exact fun s => congrArg Session.scope (keeps_currentFile s)

theorem scope_render {inner : String → Eval (List Residual)} {settings : Settings}
    (h : ∀ text t, KeepsBut (fun _ => True) (inner text) t) (parameters : Option String)
    (indentation : Nat) (s : Session) :
    ((render settings inner parameters indentation).outcome s).2.scope = s.scope := by
  have keeps : Eval.Keeps Session.scope (render settings inner parameters indentation) :=
    .bind (keeps_scope_component settings parameters indentation) fun (found, frame) _ =>
      scope_withFrame (h found.contents _)
  exact keeps s

def Reached (settings : Settings) (depth : Nat) (text : String) (s : Session)
    (q : Part × Session) : Prop :=
  ∃ roots t, (parse settings.dialect text).outcome s = (.ok roots, t) ∧
    Relation.ReflTransGen (Calls (env settings (contentsWithin settings depth)))
      (.nodes roots, t) q

/-- The names that the meta data of a text makes known, outside of loops and components. -/
def Touched (settings : Settings) (depth : Nat) (text : String) (s : Session) (name : String) :
    Prop :=
  ∃ n t, Reached settings depth text s (.node n, t) ∧
    settings.dialect.extension? n.kind = none ∧ Directive.ofKind? n.kind = some .metadata ∧
    Meta.Touches t.scope n.parameters name

section Within

variable (settings : Settings)

theorem contentsWithin_succ (depth : Nat) (text : String) :
    contentsWithin settings (depth + 1) text =
      parse settings.dialect text >>= fun roots =>
        nodes (env settings (contentsWithin settings depth)) roots := rfl

theorem keepsBut_contentsWithin (depth : Nat) (text : String) (s : Session) :
    KeepsBut (fun _ => True) (contentsWithin settings depth text) s := by
  induction depth generalizing text s with
  | zero => exact .refl _
  | succ depth ih =>
    rw [contentsWithin_succ]
    refine .bind (keepsBut_of_eq (keeps_scope_parse _ text s)) ?_
    intro roots t _
    exact keepsBut_nodes (scope_render ih) roots t

theorem scope_renderWithin (depth : Nat) (parameters : Option String) (indentation : Nat)
    (s : Session) :
    ((render settings (contentsWithin settings depth) parameters indentation).outcome s).2.scope =
      s.scope :=
  scope_render (keepsBut_contentsWithin settings depth) parameters indentation s

theorem keepsBut_touched (depth : Nat) (text : String) (s : Session) :
    KeepsBut (Touched settings depth text s) (contentsWithin settings (depth + 1) text) s := by
  rw [contentsWithin_succ]
  refine .bind (keepsBut_of_eq (keeps_scope_parse _ text s)) ?_
  intro roots t parsed
  have kept : KeepsBut _ (nodes (env settings (contentsWithin settings depth)) roots) t :=
    (Compile.keepsBut_touched (scope_renderWithin settings depth)).2 roots t
  refine kept.mono ?_
  rintro name ⟨n, u, reached, hn, hd, touches⟩
  exact ⟨n, u, ⟨roots, t, parsed, reached⟩, hn, hd, touches⟩

end Within

theorem outcome_cancellable {α : Type} (path : Option String) (act : Eval α) (s : Session) :
    (cancellable path act).outcome s =
      match act.outcome s with
      | (.ok a, t) => (.ok (some a), t)
      | (.error .cancelled, t) =>
        (.ok none, t.record .debug ("Transformation cancelled for " ++
          match path with
          | some p => if p.isEmpty then "<string>" else p
          | none => "<string>"))
      | (.error f, t) => (.error f, t) := by
  unfold cancellable
  rw [Eval.outcome_tryCatch, Eval.outcome_map]
  rcases act.outcome s with ⟨f | a, t⟩
  · cases f <;> rfl
  · rfl

def about (path : Option String) (s : Session) : Session :=
  { s with scope := { s.scope with basePath := path.or s.scope.basePath } }

def framed {α : Type} (s : Session) (act : Eval α) : Eval α :=
  if s.scope.frames.isEmpty then Eval.withFrame [] act else act

theorem outcome_template (settings : Settings) (path : Option String) (text : String)
    (s : Session) :
    (template settings path text).outcome s =
      (cancellable path (framed s (contents settings text))).outcome (about path s) := by
  cases path with
  | none => rfl
  | some p => rfl

theorem scope_cancellable {α : Type} (path : Option String) (act : Eval α) (s : Session) :
    ((cancellable path act).outcome s).2.scope = (act.outcome s).2.scope := by
  rw [outcome_cancellable]
  rcases act.outcome s with ⟨f | a, t⟩
  · cases f <;> rfl
  · rfl

theorem kept_template (settings : Settings) (path : Option String) (text : String)
    (s : Session) :
    Scope.Kept (Touched settings (maxNesting - 1) text (about path s)) (about path s).scope
      ((template settings path text).outcome s).2.scope := by
  rw [outcome_template, scope_cancellable]
  unfold framed
  split
  · have kept := keepsBut_contentsWithin settings maxNesting text ((about path s).push [])
    exact keepsBut_of_eq (scope_withFrame kept)
  · exact keepsBut_touched settings (maxNesting - 1) text (about path s)

/-- However it ends, transforming a template leaves the stack of frames as it was, except that the
defaults of meta data met outside of loops and components stay in the innermost frame; loops and
components leave the whole stack as it was. -/
theorem scope_is_kept (settings : Settings) (path : Option String) (text : String)
    (s : Session) :
    Scope.Kept (Touched settings (maxNesting - 1) text (about path s)) (about path s).scope
      ((template settings path text).outcome s).2.scope ∧
    Scope.Kept (Touched settings (maxNesting - 1) text s) s.scope
      ((contents settings text).outcome s).2.scope ∧
    (∀ base log, ((template settings path text).outcome ⟨⟨[], base⟩, log⟩).2.scope.frames = []) ∧
    (∀ depth parameters ns,
      ((loop parameters (nodes (env settings (contentsWithin settings depth)) ns)).outcome
        s).2.scope = s.scope) ∧
    (∀ depth parameters indentation,
      ((render settings (contentsWithin settings depth) parameters indentation).outcome
        s).2.scope = s.scope) := by
  refine ⟨kept_template settings path text s, ?_, ?_, ?_, ?_⟩
  · exact keepsBut_touched settings (maxNesting - 1) text s
  · intro base log
    rw [(kept_template settings path text ⟨⟨[], base⟩, log⟩).eq_of_empty rfl]
    rfl
  · intro depth parameters ns
    refine scope_loop (fun t => ?_) parameters s
    exact keepsBut_nodes (scope_renderWithin settings depth) ns t
  · intro depth parameters indentation
    exact scope_renderWithin settings depth parameters indentation s

end Transform

end Stencil
