import Stencil.Proofs.CurrentFile
import Stencil.Proofs.MetaDefaults

set_option autoImplicit false

/-!
# Names that defaults add

The names that a scope knows after a `meta` directive are those that it knew before, and those that
are written for a default of a name that it did not know. From then on it knows the name of every
default, so the directive has nothing to add when it is met again.
-/

namespace Stencil

theorem Mapping.contains_iff {name : String} {m : Mapping} :
    contains (.str name) m = true ↔ ∃ v, (.str name, v) ∈ m := by
  constructor
  · intro bound
    obtain ⟨v, here⟩ := Option.isSome_iff_exists.1 bound
    exact ⟨v, mem_of_lookup? here⟩
  · rintro ⟨v, mem⟩
    exact lookup?_isSome_of_mem mem

theorem Mapping.contains_overlay {name : String} (upper lower : Mapping) :
    contains (.str name) (overlay upper lower) = true ↔
      contains (.str name) upper = true ∨ contains (.str name) lower = true := by
  have laid : contains (.str name) (overlay upper lower) =
      (contains (.str name) upper.reverse || contains (.str name) lower) := by
    unfold contains
    rw [← Option.isSome_or]
    exact congrArg Option.isSome (lookup?_overlay name upper lower)
  have turned : contains (.str name) upper.reverse = true ↔ contains (.str name) upper = true := by
    rw [contains_iff, contains_iff]
    simp only [List.mem_reverse]
  rw [laid, Bool.or_eq_true, turned]

namespace Scope

def Knows (s : Scope) (name : String) : Prop :=
  Mapping.contains (.str name) s.flatten = true

theorem knows_iff_any {s : Scope} {name : String} :
    s.Knows name ↔ s.frames.any (Mapping.contains (.str name)) = true := by
  obtain ⟨frames, path⟩ := s
  induction frames with
  | nil => exact Iff.rfl
  | cons frame frames ih =>
    rw [List.any_cons, Bool.or_eq_true, ← ih]
    exact Mapping.contains_overlay frame (flatten ⟨frames, path⟩)

theorem knows_iff_lookup? {s : Scope} {name : String} :
    s.Knows name ↔ (s.lookup? name).isSome = true := by
  rw [knows_iff_any, any_contains]

theorem atRoot_of_not_knows {s : Scope} (h : ¬ s.Knows pathName) : s.atRoot = true := by
  have unnamed : firstFilled s.paths = none := by
    refine Option.eq_none_iff_forall_ne_some.2 fun v here => h ?_
    exact knows_iff_any.2 (bound_iff_paths.2 ⟨v, mem_of_firstFilled here⟩)
  unfold atRoot
  rw [currentPath_eq, unnamed, Option.none_or]
  cases s.basePath with
  | none => rfl
  | some p =>
    change (Value.str p).same (.str p) = true
    rw [Value.str_same_str, beq_self_eq_true]

theorem atRoot_of_kept {changed : String → Prop} {a b : Scope} (h : Kept changed a b)
    (still : ¬ changed pathName) : b.atRoot = a.atRoot := by
  unfold atRoot
  rw [currentPath_eq, currentPath_eq, paths_of_kept h still, h.basePath]

end Scope

/-- The name is written where a default is bound whose own name the scope does not know: it is that
of the default, or of a part of it. -/
def Meta.Brings (data : Meta) (scope : Scope) (name : String) : Prop :=
  ∃ key v, (.str key, v) ∈ data.defaults ∧ ¬ scope.Knows key ∧
    Mapping.contains (.str name) (Frame.bind (.str key) v []) = true

namespace Frame

theorem contains_bind {key name : String} {v : Value} :
    Mapping.contains (.str name) (bind (.str key) v []) = true ↔
      ∃ w, (.str name, w) ∈ (Key.str key, v) :: parts key v := by
  rw [bind_eq_overlay.1, Key.text_str, Mapping.contains_overlay, Mapping.contains_iff]
  simp [Mapping.contains, Mapping.get?]

end Frame

namespace Meta

variable {data : Meta} {scope : Scope}

theorem mem_fresh_iff {key : String} {v : Value} :
    (.str key, v) ∈ data.fresh scope ↔ (.str key, v) ∈ data.defaults ∧ ¬ scope.Knows key := by
  rw [mem_fresh, Scope.knows_iff_lookup?, Option.not_isSome_iff_eq_none]

theorem brings_iff (texts : ∀ e ∈ data.defaults, ∃ name, e.1 = .str name) {name : String} :
    data.Brings scope name ↔ (Frame.last? name (data.fresh scope)).isSome = true := by
  constructor
  · rintro ⟨key, v, default, unknown, written⟩
    obtain ⟨w, part⟩ := Frame.contains_bind.1 written
    have left : (.str name, w) ∈ Frame.spread (data.fresh scope) :=
      List.mem_flatMap.2 ⟨_, mem_fresh_iff.2 ⟨default, unknown⟩, part⟩
    exact Mapping.lookup?_isSome_of_mem (List.mem_reverse.2 left)
  · intro left
    obtain ⟨w, last⟩ := Option.isSome_iff_exists.1 left
    obtain ⟨⟨k, v⟩, new, part⟩ :=
      List.mem_flatMap.1 (List.mem_reverse.1 (Mapping.mem_of_lookup? last))
    obtain ⟨key, rfl⟩ := texts _ (List.mem_filter.1 new).1
    obtain ⟨default, unknown⟩ := mem_fresh_iff.1 new
    exact ⟨key, v, default, unknown, Frame.contains_bind.2 ⟨w, part⟩⟩

theorem Brings.of_default {key : String} {v : Value} (default : (.str key, v) ∈ data.defaults)
    (unknown : ¬ scope.Knows key) : data.Brings scope key :=
  ⟨key, v, default, unknown, Frame.contains_bind.2 ⟨v, List.mem_cons_self⟩⟩

theorem Brings.not_knows_path (h : data.Brings scope Scope.pathName) :
    ¬ scope.Knows Scope.pathName := by
  obtain ⟨key, v, -, unknown, written⟩ := h
  by_cases here : PartName key Scope.pathName
  · rcases here with rfl | part
    · exact unknown
    · exact absurd part (Scope.not_properPart_path key)
  · rw [Mapping.contains, Frame.get?_bind_of_ne here] at written
    exact absurd written Bool.false_ne_true

end Meta

namespace Compile

variable {data : Meta} {scope : Scope}

theorem knows_bindDefaults (texts : ∀ e ∈ data.defaults, ∃ name, e.1 = .str name)
    (filled : scope.frames ≠ []) (name : String) :
    (bindDefaults data.defaults scope).Knows name ↔ scope.Knows name ∨ data.Brings scope name := by
  rw [Scope.knows_iff_lookup?, lookup?_bindDefaults filled, Option.isSome_or, Bool.or_eq_true,
    ← Meta.brings_iff texts, ← Scope.knows_iff_lookup?, or_comm]

theorem kept_brings (texts : ∀ e ∈ data.defaults, ∃ name, e.1 = .str name) :
    Scope.Kept (data.Brings scope) scope (bindDefaults data.defaults scope) := by
  obtain ⟨frames, path⟩ := scope
  cases frames with
  | nil => exact .refl _
  | cons frame rest =>
    have grown := @grown_defaults (fun _ => True) (data.fresh ⟨frame :: rest, path⟩) frame
      fun e mem => by
        obtain ⟨key, same⟩ := texts e (List.mem_filter.1 mem).1
        exact ⟨key, same, fun _ _ => trivial⟩
    refine ⟨rfl, rfl, rfl, grown.keys, fun k other => ?_⟩
    by_cases text : ∃ name, k = .str name
    · obtain ⟨name, rfl⟩ := text
      have unbrought : ¬ data.Brings ⟨frame :: rest, path⟩ name := fun brought =>
        other name brought rfl
      rw [Meta.brings_iff texts, Option.not_isSome_iff_eq_none] at unbrought
      refine (Frame.lookup?_foldl_bind name (data.fresh ⟨frame :: rest, path⟩) frame).trans ?_
      rw [unbrought, Option.none_or]
      rfl
    · exact grown.same k fun name _ same => text ⟨name, same⟩

theorem bindDefaults_of_known (texts : ∀ e ∈ data.defaults, ∃ name, e.1 = .str name)
    (known : ∀ key v, (.str key, v) ∈ data.defaults → scope.Knows key) :
    bindDefaults data.defaults scope = scope := by
  have none : data.fresh scope = [] := by
    refine List.eq_nil_iff_forall_not_mem.2 fun e new => ?_
    obtain ⟨k, v⟩ := e
    obtain ⟨key, rfl⟩ := texts _ (List.mem_filter.1 new).1
    obtain ⟨default, unknown⟩ := Meta.mem_fresh_iff.1 new
    exact unknown (known key v default)
  obtain ⟨frames, path⟩ := scope
  cases frames with
  | nil => rfl
  | cons frame rest =>
    change (⟨List.foldl _ frame (data.fresh ⟨frame :: rest, path⟩) :: rest, path⟩ : Scope) = _
    rw [none, List.foldl_nil]

theorem exists_of_accepted {parameters : Option String} {s t : Session} {rs : List Residual}
    (filled : s.scope.frames ≠ [])
    (accepted : (metadata parameters).outcome s = (.ok rs, t)) :
    ∃ data, Meta.ofParameters parameters = .ok data ∧
      (data.childOnly && s.scope.atRoot) = false ∧
      Arguments.checkReserved data.defaults = .ok () ∧ rs = [] ∧
      t = { s with scope := bindDefaults data.defaults s.scope } := by
  obtain ⟨data, read, -⟩ := exists_of_metadata filled accepted
  rw [outcome_metadata read] at accepted
  split at accepted
  · exact nomatch (Prod.mk.inj accepted).1
  · rename_i stays
    split at accepted
    · exact nomatch (Prod.mk.inj accepted).1
    · rename_i free
      rw [if_neg (by simpa using filled)] at accepted
      obtain ⟨none, session⟩ := Prod.mk.inj accepted
      exact ⟨data, read, Bool.eq_false_iff.2 stays, free, (Except.ok.inj none).symm, session.symm⟩

/-- After a `meta` directive that is accepted, the names that the flattened scope binds are those
that it bound before and those that are written for the defaults of names that it did not bind.
Nothing changes but these names in the innermost frame, and the same directive changes nothing when
it is evaluated again. -/
theorem defaults_add_their_names {parameters : Option String} {s t : Session} {rs : List Residual}
    (filled : s.scope.frames ≠ [])
    (accepted : (metadata parameters).outcome s = (.ok rs, t)) :
    ∃ data, Meta.ofParameters parameters = .ok data ∧
      (∀ name, t.scope.Knows name ↔ s.scope.Knows name ∨ data.Brings s.scope name) ∧
      Scope.Kept (data.Brings s.scope) s.scope t.scope ∧ t.log = s.log ∧
      (metadata parameters).outcome t = (.ok rs, t) := by
  obtain ⟨data, read, stays, free, rfl, rfl⟩ := exists_of_accepted filled accepted
  have texts := Meta.str_of_mem_defaults read
  have knows := knows_bindDefaults texts filled
  have kept : Scope.Kept (data.Brings s.scope) s.scope (bindDefaults data.defaults s.scope) :=
    kept_brings texts
  refine ⟨data, read, knows, kept, rfl, ?_⟩
  have known : ∀ key v, (.str key, v) ∈ data.defaults →
      (bindDefaults data.defaults s.scope).Knows key := by
    intro key v default
    by_cases before : s.scope.Knows key
    · exact (knows key).2 (.inl before)
    · exact (knows key).2 (.inr (.of_default default before))
  have again : (data.childOnly && (bindDefaults data.defaults s.scope).atRoot) = false := by
    by_cases brought : data.Brings s.scope Scope.pathName
    · rw [Scope.atRoot_of_not_knows brought.not_knows_path, Bool.and_true] at stays
      rw [stays, Bool.false_and]
    · rw [Scope.atRoot_of_kept kept brought, stays]
  have nonempty : (bindDefaults data.defaults s.scope).frames.isEmpty = false := by
    have depth : (bindDefaults data.defaults s.scope).frames.length = s.scope.frames.length :=
      kept.depth
    rw [Bool.eq_false_iff, Ne, List.isEmpty_iff_length_eq_zero, depth]
    exact mt List.length_eq_zero_iff.1 filled
  rw [outcome_metadata read]
  simp only [again, free, nonempty, bindDefaults_of_known texts known]
  rfl

section Example

def overlapped : Session :=
  { calledWith "user.name" with
    scope := bindDefaults userData.defaults (calledWith "user.name").scope }

theorem overlapping_names_are_added :
    (calledWith "user.name").scope.frames ≠ [] ∧
      (metadata (some userText)).outcome (calledWith "user.name") = (.ok [], overlapped) ∧
      (∀ name, overlapped.scope.Knows name ↔
        (calledWith "user.name").scope.Knows name ∨
          userData.Brings (calledWith "user.name").scope name) ∧
      userData.Brings (calledWith "user.name").scope "user.name" ∧
      (metadata (some userText)).outcome overlapped = (.ok [], overlapped) := by
  have filled : (calledWith "user.name").scope.frames ≠ [] := List.cons_ne_nil _ _
  have accepted : (metadata (some userText)).outcome (calledWith "user.name") =
      (.ok [], overlapped) := outcome_userText _ filled
  obtain ⟨data, read, knows, -, -, again⟩ := defaults_add_their_names filled accepted
  rw [userText_data] at read
  obtain rfl := Except.ok.inj read
  have part : userData.Brings (calledWith "user.name").scope "user.name" := by
    refine ⟨"user", _, List.mem_cons_self, ?_, rfl⟩
    rw [Scope.knows_iff_any]
    decide
  exact ⟨filled, accepted, knows, part, again⟩

end Example

end Compile

end Stencil
