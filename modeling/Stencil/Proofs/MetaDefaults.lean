import Stencil.Proofs.CompileEquations
import Stencil.Proofs.DistinctKeys

set_option autoImplicit false

/-!
# Defaults of meta data

A `meta` directive binds the defaults of names without a value, and each of them with all of its
parts. A name that the scope knows, or that has a default of its own, may be the name of such a
part: it then gets the part, and not the value that it had or its own default. Where no part of a
default has such a name, defaults never override.
-/

namespace Stencil

theorem TextKeyed.writableKeys {v : Value} (h : TextKeyed v) : v.writableKeys = true := by
  induction h with
  | atom a => rfl
  | list _ ih =>
    rw [Value.writableKeys]
    exact Value.writableKeysAll_of_forall ih
  | map keys _ ih =>
    rw [Value.writableKeys]
    exact Value.writableKeysWithin_of_texts keys ih

namespace Meta

theorem nameable_of_mem_defaults {parameters : Option String} {data : Meta}
    (h : ofParameters parameters = .ok data) :
    ∀ e ∈ data.defaults, Frame.nameable e.1 e.2 = true := by
  cases textKeyed_defaults h with
  | map keys values =>
    intro e he
    obtain ⟨name, text⟩ := keys e he
    unfold Frame.nameable
    rw [text, (values e he).writableKeys]
    rfl

theorem exists_entries {parameters : Option String} {data : Meta}
    (h : ofParameters parameters = .ok data) :
    ∃ entries, Json.Given (.map entries) ∧ defaults? entries = some data.defaults := by
  unfold ofParameters at h
  split at h
  · exact nomatch h
  · split at h
    · exact nomatch h
    · split at h
      · rename_i entries read
        split at h
        · rename_i found
          rw [← Except.ok.inj h]
          exact ⟨entries, Json.given_of_readNested? read, found⟩
        · exact nomatch h
        · exact nomatch h
      · exact nomatch h

theorem distinct_defaults {parameters : Option String} {data : Meta}
    (h : ofParameters parameters = .ok data) : data.defaults.Distinct := by
  obtain ⟨entries, given, found⟩ := exists_entries h
  unfold defaults? at found
  split at found
  · rw [← Option.some.inj found]
    exact .nil
  · rw [← Option.some.inj found]
    exact .nil
  · rename_i m here
    rw [← Option.some.inj found]
    exact (given.members.2 _ (Mapping.mem_of_lookup? here)).members.1
  · exact nomatch found

/-- The defaults of names that have no value. -/
def fresh (data : Meta) (scope : Scope) : Mapping :=
  data.defaults.filter fun e => !scope.frames.any (Mapping.contains e.1)

/-- After the defaults are bound, what had a value has kept it, and what had none has its own
default. -/
structure Yields (data : Meta) (before after : Scope) : Prop where
  kept : ∀ name v, before.lookup? name = some v → after.lookup? name = some v
  given : ∀ name v, (.str name, v) ∈ data.defaults → before.lookup? name = none →
    after.lookup? name = some v

/-- Whatever the new defaults and their parts leave under a name is the value that the name had,
if it had one, and its own default, if it has a new one. -/
def Consistent (data : Meta) (scope : Scope) : Prop :=
  ∀ name w, Frame.last? name (data.fresh scope) = some w →
    (∀ v, scope.lookup? name = some v → v = w) ∧ ∀ v, (.str name, v) ∈ data.fresh scope → v = w

/-- No part of a new default is called like a name that has a value or a default. -/
def Apart (data : Meta) (scope : Scope) : Prop :=
  ∀ key v part w, (.str key, v) ∈ data.fresh scope → (.str part, w) ∈ Frame.parts key v →
    scope.lookup? part = none ∧ ∀ u, (.str part, u) ∉ data.defaults

end Meta

theorem Scope.any_contains (name : String) (s : Scope) :
    s.frames.any (Mapping.contains (.str name)) = (s.lookup? name).isSome := by
  obtain ⟨frames, path⟩ := s
  induction frames with
  | nil => rfl
  | cons frame frames ih =>
    rw [lookup?_cons, Option.isSome_or, ← ih]
    rfl

theorem Meta.mem_fresh {data : Meta} {scope : Scope} {name : String} {v : Value} :
    (.str name, v) ∈ data.fresh scope ↔
      (.str name, v) ∈ data.defaults ∧ scope.lookup? name = none := by
  unfold fresh
  rw [List.mem_filter, Scope.any_contains]
  simp

namespace Compile

theorem lookup?_bindDefaults {data : Meta} {scope : Scope} (filled : scope.frames ≠ [])
    (name : String) :
    (bindDefaults data.defaults scope).lookup? name =
      (Frame.last? name (data.fresh scope)).or (scope.lookup? name) := by
  obtain ⟨frames, path⟩ := scope
  cases frames with
  | nil => exact absurd rfl filled
  | cons frame rest =>
    change Scope.lookup? name
      ⟨List.foldl _ frame (data.fresh ⟨frame :: rest, path⟩) :: rest, path⟩ = _
    rw [Scope.lookup?_cons, Frame.lookup?_foldl_bind, Option.or_assoc, ← Scope.lookup?_cons]

theorem distinct_bindDefaults {scope : Scope} (h : ∀ frame ∈ scope.frames, Mapping.Distinct frame)
    (defaults : Mapping) :
    ∀ frame ∈ (bindDefaults defaults scope).frames, Mapping.Distinct frame := by
  obtain ⟨frames, path⟩ := scope
  cases frames with
  | nil => exact nofun
  | cons frame rest =>
    obtain ⟨first, others⟩ := List.forall_mem_cons.1 h
    refine List.forall_mem_cons.2 ⟨?_, others⟩
    rw [Frame.foldl_bind]
    exact Mapping.distinct_overlay _ first

theorem exists_of_metadata {parameters : Option String} {s t : Session} {rs : List Residual}
    (filled : s.scope.frames ≠ [])
    (h : (metadata parameters).outcome s = (.ok rs, t)) :
    ∃ data, Meta.ofParameters parameters = .ok data ∧
      t.scope = bindDefaults data.defaults s.scope := by
  cases read : Meta.ofParameters parameters with
  | error f =>
    unfold metadata at h
    rw [read] at h
    exact nomatch (Prod.mk.inj h).1
  | ok data =>
    refine ⟨data, rfl, ?_⟩
    rw [outcome_metadata read] at h
    split at h
    · exact nomatch (Prod.mk.inj h).1
    · split at h
      · exact nomatch (Prod.mk.inj h).1
      · rw [if_neg (by simpa using filled)] at h
        rw [← (Prod.mk.inj h).2]

end Compile

namespace Meta

variable {data : Meta} {before after : Scope}

theorem yields_iff_consistent
    (bound : ∀ name, after.lookup? name =
      (Frame.last? name (data.fresh before)).or (before.lookup? name)) :
    data.Yields before after ↔ data.Consistent before := by
  constructor
  · intro yields name w last
    have now : after.lookup? name = some w := by rw [bound, last, Option.some_or]
    constructor
    · intro v had
      have still := yields.kept name v had
      rw [now] at still
      exact (Option.some.inj still).symm
    · intro v new
      obtain ⟨default, unbound⟩ := mem_fresh.1 new
      have own := yields.given name v default unbound
      rw [now] at own
      exact (Option.some.inj own).symm
  · intro consistent
    constructor
    · intro name v had
      rw [bound]
      cases last : Frame.last? name (data.fresh before) with
      | none => exact had
      | some w => rw [(consistent name w last).1 v had, Option.some_or]
    · intro name v default unbound
      have new := mem_fresh.2 ⟨default, unbound⟩
      obtain ⟨w, last⟩ := Option.isSome_iff_exists.1 (Frame.last?_isSome_of_mem new)
      rw [bound, last, (consistent name w last).2 v new, Option.some_or]

theorem Apart.consistent (apart : data.Apart before) (distinct : data.defaults.Distinct)
    (texts : ∀ e ∈ data.defaults, ∃ name, e.1 = .str name) : data.Consistent before := by
  intro name w last
  rcases Frame.origin_of_last? last with own | ⟨e, mem, part⟩
  · obtain ⟨default, unbound⟩ := mem_fresh.1 own
    constructor
    · intro v had
      rw [unbound] at had
      exact nomatch had
    · intro v new
      have value := distinct.lookup?_of_mem (mem_fresh.1 new).1
      rw [distinct.lookup?_of_mem default] at value
      exact (Option.some.inj value).symm
  · obtain ⟨key, named⟩ := texts e ((List.mem_filter.1 mem).1)
    obtain ⟨k, v⟩ := e
    obtain rfl : k = .str key := named
    obtain ⟨unbound, noDefault⟩ := apart key v name w mem part
    constructor
    · intro v had
      rw [unbound] at had
      exact nomatch had
    · intro v new
      exact absurd (mem_fresh.1 new).1 (noDefault v)

end Meta

namespace Compile

/-- After a `meta` directive that is accepted, a name has what the new defaults and their parts
leave under it last, and else the value that it had. So defaults never override if and only if no
part of one is left under a name that had another value or has another default; it is enough that
no part of a new default is called like a name with a value or a default. The values are those of
the flattened scope, as long as no frame binds a name twice. -/
theorem defaults_yield_iff_consistent {parameters : Option String} {s t : Session}
    {rs : List Residual} (filled : s.scope.frames ≠ [])
    (accepted : (metadata parameters).outcome s = (.ok rs, t)) :
    ∃ data, Meta.ofParameters parameters = .ok data ∧
      (∀ name, t.scope.lookup? name =
        (Frame.last? name (data.fresh s.scope)).or (s.scope.lookup? name)) ∧
      (data.Yields s.scope t.scope ↔ data.Consistent s.scope) ∧
      (data.Apart s.scope → data.Yields s.scope t.scope) ∧
      ((∀ frame ∈ s.scope.frames, Mapping.Distinct frame) → ∀ name,
        Mapping.lookup? name s.scope.flatten = s.scope.lookup? name ∧
        Mapping.lookup? name t.scope.flatten = t.scope.lookup? name) := by
  obtain ⟨data, read, scope⟩ := exists_of_metadata filled accepted
  have bound : ∀ name, t.scope.lookup? name =
      (Frame.last? name (data.fresh s.scope)).or (s.scope.lookup? name) := by
    intro name
    rw [scope]
    exact lookup?_bindDefaults filled name
  have yields := Meta.yields_iff_consistent bound
  refine ⟨data, read, bound, yields, ?_, ?_⟩
  · intro apart
    apply yields.2
    exact apart.consistent (Meta.distinct_defaults read) (Meta.str_of_mem_defaults read)
  · intro distinct name
    rw [scope]
    have after := distinct_bindDefaults distinct data.defaults
    exact ⟨Scope.lookup?_flatten distinct name, Scope.lookup?_flatten after name⟩

section Example

def userText : String :=
  "\x7b\"defaults\": \x7b\"user\": \x7b\"name\": \"Bob\"\x7d\x7d\x7d"

def userData : Meta := ⟨false, [(.str "user", .map [(.str "name", .str "Bob")])]⟩

theorem userText_data : Meta.ofParameters (some userText) = .ok userData := by
  have bob (fuel depth : Nat) :
      Json.value? Meta.rules (fuel + 1) depth "\"Bob\"\x7d\x7d\x7d".toList =
        some (.str "Bob", ['\x7d', '\x7d', '\x7d']) := by
    unfold Json.value?
    rfl
  have name (fuel depth : Nat) :
      Json.value? Meta.rules (fuel + 3) (depth + 1)
          ('\x7b' :: "\"name\": \"Bob\"\x7d\x7d\x7d".toList) =
        some (.map [(.str "name", .str "Bob")], ['\x7d', '\x7d']) :=
    Json.value?_object rfl (Json.members?_last rfl (bob _ _) rfl)
  have user (fuel depth : Nat) :
      Json.value? Meta.rules (fuel + 5) (depth + 2)
          ('\x7b' :: "\"user\": \x7b\"name\": \"Bob\"\x7d\x7d\x7d".toList) =
        some (.map userData.defaults, ['\x7d']) :=
    Json.value?_object rfl (Json.members?_last rfl (name _ _) rfl)
  have whole (fuel depth : Nat) : Json.value? Meta.rules (fuel + 7) (depth + 3) userText.toList =
      some (.map [(.str "defaults", .map userData.defaults)], []) := by
    have text : userText.toList = '\x7b' ::
        "\"defaults\": \x7b\"user\": \x7b\"name\": \"Bob\"\x7d\x7d\x7d".toList := rfl
    rw [text]
    exact Json.value?_object rfl (Json.members?_last rfl (user _ _) rfl)
  have read : Json.readNested? Meta.rules Meta.maxDepth userText.toList =
      some (.map [(.str "defaults", .map userData.defaults)]) := by
    have fuel : 2 * userText.toList.length + 2 = 73 + 7 := by decide
    have start : Json.skipSpace userText.toList = userText.toList := by decide
    unfold Json.readNested? Meta.maxDepth
    rw [fuel, start, whole 73 197]
    rfl
  unfold Meta.ofParameters
  simp only
  rw [if_neg (by decide), read]
  rfl

def calledWith (name : String) : Session := ⟨⟨[[(.str name, .str "Ann")]], none⟩, []⟩

theorem outcome_userText (s : Session) (filled : s.scope.frames ≠ []) :
    (metadata (some userText)).outcome s =
      (.ok [], { s with scope := bindDefaults userData.defaults s.scope }) := by
  rw [outcome_metadata userText_data]
  change (if s.scope.frames.isEmpty then _ else _) = _
  rw [if_neg (by simpa using filled)]

theorem apart_author : userData.Apart (calledWith "author").scope := by
  intro key v part w new here
  have default : (Key.str key, v) = (.str "user", .map [(.str "name", .str "Bob")]) :=
    List.mem_singleton.1 (Meta.mem_fresh.1 new).1
  obtain ⟨named, rfl⟩ := Prod.mk.inj default
  obtain rfl := Key.str_inj.1 named
  have only : (Key.str part, w) = (.str "user.name", .str "Bob") := List.mem_singleton.1 here
  obtain rfl := Key.str_inj.1 (Prod.mk.inj only).1
  refine ⟨rfl, fun u default => ?_⟩
  have other := (Prod.mk.inj (List.mem_singleton.1 default)).1
  exact absurd (Key.str_inj.1 other) (by decide)

theorem author_default_yields :
    userData.Apart (calledWith "author").scope ∧
      userData.Yields (calledWith "author").scope
        ((metadata (some userText)).outcome (calledWith "author")).2.scope := by
  refine ⟨apart_author, ?_⟩
  have accepted := outcome_userText (calledWith "author") (by simp [calledWith])
  obtain ⟨data, read, -, -, yields, -⟩ :=
    defaults_yield_iff_consistent (by simp [calledWith]) accepted
  rw [accepted]
  rw [userText_data] at read
  obtain rfl := Except.ok.inj read
  exact yields apart_author

/-- The caller has given a name a value, and a part of a default takes its place. -/
theorem part_of_default_overrides :
    Mapping.lookup? "user.name" (calledWith "user.name").scope.flatten = some (.str "Ann") ∧
      ((metadata (some userText)).outcome (calledWith "user.name")).1 = .ok [] ∧
      Mapping.lookup? "user.name"
        ((metadata (some userText)).outcome (calledWith "user.name")).2.scope.flatten =
          some (.str "Bob") := by
  rw [outcome_userText _ (by simp [calledWith])]
  exact ⟨rfl, rfl, rfl⟩

end Example

end Compile

end Stencil
