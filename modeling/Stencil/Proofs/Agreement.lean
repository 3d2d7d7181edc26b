import Stencil.Proofs.Asking
import Stencil.Proofs.CurrentFile
import Stencil.Proofs.MetaDefaults

set_option autoImplicit false

/-!
# Sessions that agree in all names but one

Two sessions agree in all names but one if they have the same log and all other names are bound
alike in each of their frames. A computation is blind to a name if, from sessions that agree in all
others, it ends alike and leaves sessions that agree in all others; as long as no text in the scope
interpolates the name, sequences of such computations are such computations, and so are the
directives that do not use the name.
-/

namespace Stencil

open Template

namespace Value

mutual

/-- The texts in a value. -/
def texts : Value → List String
  | .atom (.str s) => [s]
  | .atom _ => []
  | .list items => itemTexts items
  | .pair a b => texts a ++ texts b
  | .map entries => entryTexts entries
  | .ordered entries => entryTexts entries
  | .set _ => []

def itemTexts : List Value → List String
  | [] => []
  | v :: vs => texts v ++ itemTexts vs

def entryTexts : List (Key × Value) → List String
  | [] => []
  | (_, v) :: rest => texts v ++ entryTexts rest

end

/-- A value none of whose texts interpolates a name. -/
def Silent (name : String) (v : Value) : Prop :=
  ∀ text ∈ v.texts, ¬ Compile.Interpolates text name

variable {name : String}

theorem silent_str {text : String} (h : ¬ Compile.Interpolates text name) :
    Silent name (.str text) := by
  intro other mem
  rw [List.mem_singleton.1 mem]
  exact h

theorem Silent.str {text : String} (h : Silent name (.str text)) :
    ¬ Compile.Interpolates text name :=
  h text List.mem_cons_self

theorem mem_itemTexts {text : String} {items : List Value} :
    text ∈ itemTexts items ↔ ∃ v ∈ items, text ∈ v.texts := by
  induction items with
  | nil => simp [itemTexts]
  | cons v items ih => simp [itemTexts, ih]

theorem mem_entryTexts {text : String} {entries : List (Key × Value)} :
    text ∈ entryTexts entries ↔ ∃ e ∈ entries, text ∈ e.2.texts := by
  induction entries with
  | nil => simp [entryTexts]
  | cons e entries ih =>
    obtain ⟨k, v⟩ := e
    simp [entryTexts, ih]

theorem silent_list {items : List Value} :
    Silent name (.list items) ↔ ∀ v ∈ items, Silent name v := by
  unfold Silent
  simp only [texts, mem_itemTexts]
  constructor
  · intro h v mem text here
    exact h text ⟨v, mem, here⟩
  · rintro h text ⟨v, mem, here⟩
    exact h v mem text here

theorem silent_pair {a b : Value} : Silent name (.pair a b) ↔ Silent name a ∧ Silent name b := by
  unfold Silent
  simp only [texts, List.mem_append]
  constructor
  · intro h
    exact ⟨fun text here => h text (.inl here), fun text here => h text (.inr here)⟩
  · rintro ⟨first, second⟩ text (here | here)
    · exact first text here
    · exact second text here

theorem silent_entries {v : Value} {entries : Mapping} (h : v.entries? = some entries) :
    Silent name v ↔ ∀ e ∈ entries, Silent name e.2 := by
  have held : v.texts = entryTexts entries := by
    cases v with
    | map others =>
      rw [texts, Option.some.inj h]
    | ordered others =>
      rw [texts, Option.some.inj h]
    | _ => cases h
  unfold Silent
  simp only [held, mem_entryTexts]
  constructor
  · intro h e mem text here
    exact h text ⟨e, mem, here⟩
  · rintro h text ⟨e, mem, here⟩
    exact h e mem text here

theorem Silent.item {v : Value} (h : Silent name v) {items : List Value}
    (listed : v.items? = some items) : ∀ item ∈ items, Silent name item := by
  cases v with
  | list others =>
    rw [← Option.some.inj listed]
    exact silent_list.1 h
  | pair a b =>
    rw [← Option.some.inj listed]
    simpa using silent_pair.1 h
  | _ => cases listed

end Value

namespace Frame

variable {name : String}

theorem silent_parts :
    (∀ (v : Value), v.Silent name → ∀ key, ∀ e ∈ parts key v, e.2.Silent name) ∧
    (∀ (entries : List (Key × Value)), (∀ e ∈ entries, e.2.Silent name) →
      ∀ key, ∀ e ∈ entryParts key entries, e.2.Silent name) ∧
    (∀ (items : List Value), (∀ v ∈ items, v.Silent name) →
      ∀ key index, ∀ e ∈ itemParts key index items, e.2.Silent name) := by
  apply Value.parts_induction
  case atom =>
    intro a _ key e mem
    rw [parts] at mem
    cases mem
  case list =>
    intro items ih silent key
    rw [parts]
    exact ih (Value.silent_list.1 silent) key 0
  case pair =>
    intro a b ihFirst ihSecond silent key
    obtain ⟨first, second⟩ := Value.silent_pair.1 silent
    rw [parts, List.cons_append, List.forall_mem_cons, List.forall_mem_append,
      List.forall_mem_cons]
    exact ⟨first, ihFirst first _, second, ihSecond second _⟩
  case map | ordered =>
    intro entries ih silent key
    rw [parts]
    exact ih ((Value.silent_entries rfl).1 silent) key
  case set =>
    intro members _ key e mem
    rw [parts] at mem
    cases mem
  case noEntries =>
    intro _ key e mem
    rw [entryParts] at mem
    cases mem
  case entry =>
    intro k v rest ihEntry ihEntries silent key
    obtain ⟨first, others⟩ := List.forall_mem_cons.1 silent
    rw [entryParts, List.cons_append, List.forall_mem_cons, List.forall_mem_append]
    exact ⟨first, ihEntry first _, ihEntries others _⟩
  case noItems =>
    intro _ key index e mem
    rw [itemParts] at mem
    cases mem
  case item =>
    intro v vs ihItem ihItems silent key index
    obtain ⟨first, others⟩ := List.forall_mem_cons.1 silent
    rw [itemParts, List.cons_append, List.forall_mem_cons, List.forall_mem_append]
    exact ⟨first, ihItem first _, ihItems others _ _⟩

/-- A frame with no text that interpolates a name, under other names than that one. -/
def Quiet (name : String) (frame : Frame) : Prop :=
  ∀ other v, other ≠ name → Mapping.lookup? other frame = some v → v.Silent name

theorem quiet_nil : Quiet name [] := by
  intro other v _ here
  cases here

theorem Quiet.foldl_bind {frame : Frame} (h : Quiet name frame) {new : Mapping}
    (silent : ∀ e ∈ new, e.2.Silent name) :
    Quiet name (new.foldl (fun frame (k, v) => bind k v frame) frame) := by
  intro other w apart here
  rw [lookup?_foldl_bind] at here
  rcases Option.or_eq_some_iff.1 here with bound | ⟨-, old⟩
  · rcases origin_of_last? bound with mem | ⟨e, mem, part⟩
    · exact silent _ mem
    · exact silent_parts.1 _ (silent e mem) _ _ part
  · exact h other w apart old

theorem quiet_bind (key : Key) {v : Value} (silent : v.Silent name) :
    Quiet name (bind key v []) := by
  refine @Quiet.foldl_bind name [] quiet_nil [(key, v)] ?_
  exact List.forall_mem_singleton.2 silent

def AgreeBut (name : String) (a b : Frame) : Prop :=
  ∀ other, other ≠ name → Mapping.lookup? other b = Mapping.lookup? other a

end Frame

namespace Scope

variable {name : String} {a b : Scope}

def Quiet (name : String) (s : Scope) : Prop :=
  ∀ frame ∈ s.frames, Frame.Quiet name frame

theorem Quiet.silent (h : a.Quiet name) {other : String} (apart : other ≠ name) {v : Value}
    (known : a.lookup? other = some v) : v.Silent name := by
  obtain ⟨frame, mem, here⟩ := List.exists_of_findSome?_eq_some known
  exact h frame mem other v apart here

theorem Quiet.push (h : a.Quiet name) {frame : Frame} (quiet : frame.Quiet name) :
    (a.push frame).Quiet name :=
  List.forall_mem_cons.2 ⟨quiet, h⟩

theorem Quiet.truncate (h : a.Quiet name) (depth : Nat) : (a.truncate depth).Quiet name :=
  fun frame mem => h frame (List.mem_of_mem_drop mem)

/-- Two scopes whose frames agree in all names but one. -/
structure AgreeBut (name : String) (a b : Scope) : Prop where
  basePath : b.basePath = a.basePath
  frames : List.Forall₂ (Frame.AgreeBut name) a.frames b.frames

namespace AgreeBut

theorem depth (h : AgreeBut name a b) : b.depth = a.depth :=
  h.frames.length_eq.symm

theorem isEmpty (h : AgreeBut name a b) : b.frames.isEmpty = a.frames.isEmpty := by
  rw [Bool.eq_iff_iff, List.isEmpty_iff_length_eq_zero, List.isEmpty_iff_length_eq_zero,
    h.frames.length_eq]

theorem push (h : AgreeBut name a b) (frame : Frame) :
    AgreeBut name (a.push frame) (b.push frame) :=
  ⟨h.basePath, .cons (fun _ _ => rfl) h.frames⟩

theorem truncate (h : AgreeBut name a b) (depth : Nat) :
    AgreeBut name (a.truncate depth) (b.truncate depth) := by
  refine ⟨h.basePath, ?_⟩
  unfold Scope.truncate
  rw [← h.frames.length_eq]
  exact List.forall₂_drop _ h.frames

theorem lookup? (h : AgreeBut name a b) {other : String} (apart : other ≠ name) :
    b.lookup? other = a.lookup? other := by
  obtain ⟨frames, path⟩ := a
  obtain ⟨frames', path'⟩ := b
  have agree : List.Forall₂ (Frame.AgreeBut name) frames frames' := h.frames
  clear h
  induction agree with
  | nil => rfl
  | cons first _ ih => rw [lookup?_cons, lookup?_cons, first other apart, ih]

theorem condition? (h : AgreeBut name a b) {other : String} (apart : other ≠ name) :
    b.condition? other = a.condition? other := by
  unfold Scope.condition?
  rw [h.lookup? apart]

theorem currentPath (h : AgreeBut name a b) (noPath : name ≠ pathName) :
    b.currentPath = a.currentPath := by
  have paths : a.paths = b.paths := by
    unfold paths
    rw [← List.forall₂_eq_eq_eq, List.forall₂_map_left_iff, List.forall₂_map_right_iff]
    exact h.frames.imp fun _ _ agree => (agree pathName noPath.symm).symm
  rw [currentPath_eq, currentPath_eq, paths, h.basePath]

theorem atRoot (h : AgreeBut name a b) (noPath : name ≠ pathName) : b.atRoot = a.atRoot := by
  unfold Scope.atRoot
  rw [h.currentPath noPath, h.basePath]

end AgreeBut

end Scope

structure Session.AgreeBut (name : String) (a b : Session) : Prop where
  scope : a.scope.AgreeBut name b.scope
  log : b.log = a.log

namespace Session.AgreeBut

variable {name : String} {a b : Session}

theorem record (h : AgreeBut name a b) (level : Level) (message : String) :
    AgreeBut name (a.record level message) (b.record level message) :=
  ⟨h.scope, congrArg (List.cons _) h.log⟩

theorem push (h : AgreeBut name a b) (frame : Frame) :
    AgreeBut name (a.push frame) (b.push frame) := by
  refine ⟨h.scope.push frame, ?_⟩
  unfold Session.push Session.record
  simp only [h.log, (h.scope.push frame).depth]

end Session.AgreeBut

namespace Eval

variable {name : String} {α β : Type} {s : Session}

/-- A computation that does not see a name: from sessions that agree in all others it ends alike,
and it leaves sessions that agree in all others. The texts that it meets do not name it either. -/
def Blind (name : String) (act : Eval α) (s : Session) : Prop :=
  s.scope.Quiet name →
    (act.outcome s).2.scope.Quiet name ∧
    ∀ s', s.AgreeBut name s' →
      (act.outcome s').1 = (act.outcome s).1 ∧
      (act.outcome s).2.AgreeBut name (act.outcome s').2

namespace Blind

theorem ofExcept (e : Except Failure α) : Blind name (Eval.ofExcept e) s :=
  fun quiet => ⟨quiet, fun _ agree => ⟨rfl, agree⟩⟩

theorem pure (a : α) : Blind name (Pure.pure a : Eval α) s :=
  ofExcept (.ok a)

theorem throw (f : Failure) : Blind name (MonadExcept.throw f : Eval α) s :=
  ofExcept (.error f)

theorem run {act : Eval α} (h : Blind name act s) (quiet : s.scope.Quiet name)
    {result : Except Failure α} {t : Session} (ends : act.outcome s = (result, t)) :
    t.scope.Quiet name ∧ ∀ s', s.AgreeBut name s' →
      ∃ t', act.outcome s' = (result, t') ∧ t.AgreeBut name t' := by
  obtain ⟨still, alike⟩ := h quiet
  rw [ends] at still alike
  refine ⟨still, fun s' agree => ?_⟩
  obtain ⟨same, left⟩ := alike s' agree
  exact ⟨(act.outcome s').2, Prod.ext same rfl, left⟩

theorem bind {x : Eval α} {f : α → Eval β} (hx : Blind name x s)
    (hf : ∀ a t, x.outcome s = (.ok a, t) → Blind name (f a) t) : Blind name (x >>= f) s := by
  intro quiet
  rcases first : x.outcome s with ⟨e | a, t⟩
  · obtain ⟨still, alike⟩ := hx.run quiet first
    rw [outcome_bind_error first]
    refine ⟨still, fun s' agree => ?_⟩
    obtain ⟨t', other, left⟩ := alike s' agree
    rw [outcome_bind_error other]
    exact ⟨rfl, left⟩
  · obtain ⟨still, alike⟩ := hx.run quiet first
    obtain ⟨later, alikeLater⟩ := hf a t first still
    rw [outcome_bind_ok first]
    refine ⟨later, fun s' agree => ?_⟩
    obtain ⟨t', other, left⟩ := alike s' agree
    rw [outcome_bind_ok other]
    exact alikeLater t' left

theorem read {e : Except Failure α} {f : α → Eval β}
    (h : ∀ a, e = .ok a → Blind name (f a) s) : Blind name (Eval.ofExcept e >>= f) s := by
  refine bind (ofExcept e) fun a t ha => ?_
  obtain ⟨he, rfl⟩ := Prod.mk.inj ha
  exact h a he

theorem tryCatch {x : Eval α} {handle : Failure → Eval α} (hx : Blind name x s)
    (hh : ∀ e t, x.outcome s = (.error e, t) → Blind name (handle e) t) :
    Blind name (MonadExcept.tryCatch x handle) s := by
  intro quiet
  rcases first : x.outcome s with ⟨e | a, t⟩
  · obtain ⟨still, alike⟩ := hx.run quiet first
    obtain ⟨later, alikeLater⟩ := hh e t first still
    rw [outcome_tryCatch, first]
    refine ⟨later, fun s' agree => ?_⟩
    obtain ⟨t', other, left⟩ := alike s' agree
    rw [outcome_tryCatch, other]
    exact alikeLater t' left
  · obtain ⟨still, alike⟩ := hx.run quiet first
    rw [outcome_tryCatch, first]
    refine ⟨still, fun s' agree => ?_⟩
    obtain ⟨t', other, left⟩ := alike s' agree
    rw [outcome_tryCatch, other]
    exact ⟨rfl, left⟩

theorem record (level : Level) (message : String) : Blind name (Eval.record level message) s :=
  fun quiet => ⟨quiet, fun _ agree => ⟨rfl, agree.record level message⟩⟩

theorem look {f : Scope → Eval β} (same : ∀ s', s.AgreeBut name s' → f s'.scope = f s.scope)
    (h : Blind name (f s.scope) s) : Blind name (scope >>= f) s := by
  intro quiet
  obtain ⟨still, alike⟩ := h quiet
  refine ⟨still, fun s' agree => ?_⟩
  rw [outcome_scope_bind, outcome_scope_bind, same s' agree]
  exact alike s' agree

theorem withFrame {frame : Frame} {act : Eval α} (quiet : frame.Quiet name)
    (h : Blind name act (s.push frame)) : Blind name (Eval.withFrame frame act) s := by
  intro outside
  obtain ⟨still, alike⟩ := h (outside.push quiet)
  refine ⟨still.truncate _, fun s' agree => ?_⟩
  obtain ⟨result, left⟩ := alike _ (agree.push frame)
  rw [outcome_withFrame, outcome_withFrame, agree.scope.depth]
  exact ⟨result, left.scope.truncate _, left.log⟩

end Blind

theorem sequential_blind (name : String) : Sequential fun act _ s => Blind name act s where
  ofExcept e _ := .ofExcept e
  bind := .bind

end Eval

namespace Compile

open Eval

def usedNames (n : Node) : List String :=
  match n.kind with
  | "variable" => [n.parameters.getD ""]
  | "if" | "elseif" | "unless" =>
    match Condition.ofParameters n.parameters with
    | .ok c => [c.name]
    | .error _ => []
  | "for" =>
    match loopNames? (Text.trim (n.parameters.getD "").toList) with
    | some (_, collection) => [collection]
    | none => []
  | "meta" =>
    match Meta.ofParameters n.parameters with
    | .ok data => data.defaults.map fun e => e.1.text
    | .error _ => []
  | _ => []

def givenValues (n : Node) : List Value :=
  match n.kind with
  | "meta" =>
    match Meta.ofParameters n.parameters with
    | .ok data => data.defaults.map Prod.snd
    | .error _ => []
  | "render" =>
    match RenderCall.ofParameters n.parameters with
    | .ok call => call.arguments.bindings.map Prod.snd
    | .error _ => []
  | _ => []

/-- A node that neither uses a name nor brings a text that interpolates it. -/
structure Ignores (name : String) (n : Node) : Prop where
  unused : name ∉ usedNames n
  silent : ∀ v ∈ givenValues n, v.Silent name

namespace Ignores

variable {name : String} {n : Node} (h : Ignores name n)
include h

theorem variable_ne (directive : Directive.ofKind? n.kind = some .echo) :
    n.parameters.getD "" ≠ name := by
  have unused := h.unused
  unfold usedNames at unused
  rw [Directive.ofKind?_eq_some.1 directive] at unused
  exact fun same => unused (List.mem_singleton.2 same.symm)

theorem condition_ne (kind : n.kind = "if" ∨ n.kind = "elseif" ∨ n.kind = "unless")
    {c : Condition} (hc : Condition.ofParameters n.parameters = .ok c) : c.name ≠ name := by
  have unused := h.unused
  unfold usedNames at unused
  have names : name ∉ [c.name] := by
    rcases kind with kind | kind | kind <;>
    · rw [kind, hc] at unused
      exact unused
  exact fun same => names (List.mem_singleton.2 same.symm)

theorem collection_ne (directive : Directive.ofKind? n.kind = some .loop)
    {item collection : String}
    (hn : loopNames? (Text.trim (n.parameters.getD "").toList) = some (item, collection)) :
    collection ≠ name := by
  have unused := h.unused
  unfold usedNames at unused
  rw [Directive.ofKind?_eq_some.1 directive, hn] at unused
  exact fun same => unused (List.mem_singleton.2 same.symm)

theorem default_ne (directive : Directive.ofKind? n.kind = some .metadata) {data : Meta}
    (hd : Meta.ofParameters n.parameters = .ok data) :
    ∀ e ∈ data.defaults, ∃ key, e.1 = .str key ∧ key ≠ name := by
  intro e mem
  obtain ⟨key, named⟩ := Meta.str_of_mem_defaults hd e mem
  have unused := h.unused
  unfold usedNames at unused
  rw [Directive.ofKind?_eq_some.1 directive, hd] at unused
  refine ⟨key, named, fun same => unused (List.mem_map.2 ⟨e, mem, ?_⟩)⟩
  rw [named, Key.text_str, same]

theorem default_silent (directive : Directive.ofKind? n.kind = some .metadata) {data : Meta}
    (hd : Meta.ofParameters n.parameters = .ok data) : ∀ e ∈ data.defaults, e.2.Silent name := by
  intro e mem
  have silent := h.silent
  unfold givenValues at silent
  rw [Directive.ofKind?_eq_some.1 directive, hd] at silent
  exact silent _ (List.mem_map.2 ⟨e, mem, rfl⟩)

theorem argument_silent (directive : Directive.ofKind? n.kind = some .render) {call : RenderCall}
    (hc : RenderCall.ofParameters n.parameters = .ok call) :
    ∀ e ∈ call.arguments.bindings, e.2.Silent name := by
  intro e mem
  have silent := h.silent
  unfold givenValues at silent
  rw [Directive.ofKind?_eq_some.1 directive, hc] at silent
  exact silent _ (List.mem_map.2 ⟨e, mem, rfl⟩)

end Ignores

section Directives

variable {name : String} {s : Session}

theorem echoText_agree {a b : Scope} (agree : a.AgreeBut name b) {text : String}
    (silent : ¬ Interpolates text name) (owner : String) {l : Lexeme × List Char}
    (mem : l ∈ Lexeme.all [] text.toList) : echoText b owner l.1 = echoText a owner l.1 := by
  cases read : l.1 with
  | text value => rfl
  | tag before after tag parameters => rfl
  | interpolation before after nested =>
    have apart : String.ofList nested ≠ name := by
      rintro rfl
      refine silent ⟨l, mem, before, after, ?_⟩
      rw [read, String.toList_ofList]
    unfold echoText
    simp only [agree.lookup? apart]

theorem mapM_congr {ε α β : Type} {f g : α → Except ε β} {as : List α}
    (h : ∀ a ∈ as, f a = g a) : as.mapM f = as.mapM g := by
  induction as with
  | nil => rfl
  | cons a as ih =>
    obtain ⟨first, others⟩ := List.forall_mem_cons.1 h
    rw [List.mapM_cons, List.mapM_cons, first, ih others]

theorem blind_echo {parameters : Option String} (apart : parameters.getD "" ≠ name) :
    Blind name (echo parameters) s := by
  intro quiet
  refine Blind.look ?_ ?_ quiet
  · intro s' agree
    simp only [agree.scope.lookup? apart]
    split
    · rfl
    · rename_i text known
      have silent := (quiet.silent apart known).str
      rw [mapM_congr fun l mem => echoText_agree agree.scope silent _ mem]
    · rfl
  · split
    · exact .pure _
    · exact .ofExcept _
    · exact .read fun _ _ => .pure _

theorem blind_loopItems {parameters : Option String} (noPath : name ≠ Scope.pathName)
    (apart : ∀ item collection,
      loopNames? (Text.trim (parameters.getD "").toList) = some (item, collection) →
      collection ≠ name) : Blind name (loopItems parameters) s := by
  unfold loopItems
  split
  · exact .throw _
  · rename_i item collection named
    refine .look ?_ ?_
    · intro s' agree
      rw [agree.scope.lookup? (apart _ _ named), agree.scope.currentPath noPath]
    · simp only
      split
      · exact .pure _
      · exact .throw _

theorem bindDefaults_agree {a b : Scope} (agree : a.AgreeBut name b) {defaults : Mapping}
    (keys : ∀ e ∈ defaults, ∃ key, e.1 = .str key ∧ key ≠ name) :
    (bindDefaults defaults a).AgreeBut name (bindDefaults defaults b) := by
  have fresh : (defaults.filter fun e => !b.frames.any (Mapping.contains e.1)) =
      defaults.filter fun e => !a.frames.any (Mapping.contains e.1) := by
    refine List.filter_congr fun e mem => ?_
    obtain ⟨key, named, apart⟩ := keys e mem
    rw [named, Scope.any_contains, Scope.any_contains, agree.lookup? apart]
  obtain ⟨frames, path⟩ := a
  obtain ⟨frames', path'⟩ := b
  obtain ⟨same, below⟩ := agree
  change List.Forall₂ (Frame.AgreeBut name) frames frames' at below
  cases below with
  | nil => exact ⟨same, .nil⟩
  | cons first others =>
    refine ⟨same, .cons (fun other apart => ?_) others⟩
    rw [Frame.lookup?_foldl_bind, Frame.lookup?_foldl_bind, first other apart]
    exact congrArg (fun new => (Frame.last? other new).or _) fresh

theorem quiet_bindDefaults {scope : Scope} (quiet : scope.Quiet name) {defaults : Mapping}
    (silent : ∀ e ∈ defaults, e.2.Silent name) : (bindDefaults defaults scope).Quiet name := by
  obtain ⟨frames, path⟩ := scope
  cases frames with
  | nil => exact quiet
  | cons frame rest =>
    obtain ⟨first, others⟩ := List.forall_mem_cons.1 quiet
    refine List.forall_mem_cons.2 ⟨first.foldl_bind fun e mem => ?_, others⟩
    exact silent e (List.mem_filter.1 mem).1

theorem blind_metadata {parameters : Option String} (noPath : name ≠ Scope.pathName)
    (keys : ∀ data, Meta.ofParameters parameters = .ok data →
      ∀ e ∈ data.defaults, ∃ key, e.1 = .str key ∧ key ≠ name)
    (silent : ∀ data, Meta.ofParameters parameters = .ok data →
      ∀ e ∈ data.defaults, e.2.Silent name) : Blind name (metadata parameters) s := by
  cases hd : Meta.ofParameters parameters with
  | error f =>
    unfold metadata
    rw [hd]
    exact .read fun _ ok => by cases ok
  | ok data =>
    intro quiet
    constructor
    · rw [outcome_metadata hd]
      split
      · exact quiet
      · split
        · exact quiet
        · split
          · exact quiet
          · exact quiet_bindDefaults quiet (silent data hd)
    · intro s' agree
      rw [outcome_metadata hd, outcome_metadata hd, agree.scope.atRoot noPath,
        agree.scope.isEmpty]
      split
      · exact ⟨rfl, agree⟩
      · split
        · exact ⟨rfl, agree⟩
        · split
          · exact ⟨rfl, agree.record _ _⟩
          · exact ⟨rfl, bindDefaults_agree agree.scope (keys data hd), agree.log⟩

theorem loopNames_of_loopItems {parameters : Option String} {t : Session}
    {item collection : String} {items : List Value}
    (read : (loopItems parameters).outcome s = (.ok (item, collection, items), t)) :
    loopNames? (Text.trim (parameters.getD "").toList) = some (item, collection) := by
  unfold loopItems at read
  split at read
  · cases (Prod.mk.inj read).1
  · rename_i named
    rw [outcome_scope_bind] at read
    simp only at read
    split at read
    · obtain ⟨rfl, rest⟩ := Prod.mk.inj (Except.ok.inj (Prod.mk.inj read).1)
      obtain ⟨rfl, -⟩ := Prod.mk.inj rest
      exact named
    · cases (Prod.mk.inj read).1

end Directives

end Compile

end Stencil
