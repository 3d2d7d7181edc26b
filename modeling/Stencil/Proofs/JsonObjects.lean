import Stencil.Meta

set_option autoImplicit false

/-!
# Keys of JSON objects

The objects that are read from a JSON text have texts as keys, at every depth; so do the defaults
that meta data gives.
-/

namespace Stencil

/-- A value all of whose mappings have texts as keys. -/
inductive TextKeyed : Value → Prop
  | atom (a : Atom) : TextKeyed (.atom a)
  | list {vs : List Value} (items : ∀ v ∈ vs, TextKeyed v) : TextKeyed (.list vs)
  | map {m : Mapping} (keys : ∀ e ∈ m, ∃ name, e.1 = .str name)
      (values : ∀ e ∈ m, TextKeyed e.2) : TextKeyed (.map m)

namespace Mapping

theorem forall_mem_insert {P : Key → Prop} {Q : Value → Prop} {k : Key} {v : Value} (hk : P k)
    (hv : Q v) {m : Mapping} (hm : ∀ e ∈ m, P e.1 ∧ Q e.2) :
    ∀ e ∈ insert k v m, P e.1 ∧ Q e.2 := by
  induction m with
  | nil => exact List.forall_mem_singleton.2 ⟨hk, hv⟩
  | cons first m ih =>
    obtain ⟨k', v'⟩ := first
    obtain ⟨hfirst, hrest⟩ := List.forall_mem_cons.1 hm
    rw [insert]
    split
    · exact List.forall_mem_cons.2 ⟨⟨hfirst.1, hv⟩, hrest⟩
    · exact List.forall_mem_cons.2 ⟨hfirst, ih hrest⟩

theorem mem_of_get? {k : Key} {v : Value} {m : Mapping} (h : get? k m = some v) :
    ∃ e ∈ m, e.2 = v := by
  induction m with
  | nil => exact nomatch h
  | cons first m ih =>
    obtain ⟨k', v'⟩ := first
    rw [get?] at h
    split at h
    · exact ⟨(k', v'), List.mem_cons_self, Option.some.inj h⟩
    · obtain ⟨e, he, hv⟩ := ih h
      exact ⟨e, List.mem_cons_of_mem _ he, hv⟩

theorem forall_mem_overlay {P : Key → Prop} {Q : Value → Prop} {upper lower : Mapping}
    (hu : ∀ e ∈ upper, P e.1 ∧ Q e.2) (hl : ∀ e ∈ lower, P e.1 ∧ Q e.2) :
    ∀ e ∈ overlay upper lower, P e.1 ∧ Q e.2 := by
  induction upper generalizing lower with
  | nil => exact hl
  | cons first upper ih =>
    obtain ⟨hfirst, hrest⟩ := List.forall_mem_cons.1 hu
    exact ih hrest (forall_mem_insert hfirst.1 hfirst.2 hl)

end Mapping

namespace Json

variable {rules : Rules}

theorem atom_of_unsigned? {negative : Bool} {cs rest : List Char} {v : Value}
    (h : unsigned? rules negative cs = some (v, rest)) : ∃ a, v = .atom a := by
  unfold unsigned? at h
  split at h
  · exact nomatch h
  · simp only at h
    split at h
    · split at h
      · exact nomatch h
      · exact ⟨_, (Prod.mk.inj (Option.some.inj h)).1.symm⟩
    · exact ⟨_, (Prod.mk.inj (Option.some.inj h)).1.symm⟩

theorem atom_of_scalar? {cs rest : List Char} {v : Value} (h : scalar? rules cs = some (v, rest)) :
    ∃ a, v = .atom a := by
  unfold scalar? at h
  split at h
  all_goals first
    | exact atom_of_unsigned? h
    | exact ⟨_, (Prod.mk.inj (Option.some.inj h)).1.symm⟩

theorem str_of_key? {cs rest : List Char} {k : Key} (h : key? rules cs = some (k, rest)) :
    ∃ name, k = .str name := by
  unfold key? at h
  split at h
  · split at h
    · exact nomatch h
    · split at h
      · exact ⟨_, (Prod.mk.inj (Option.some.inj h)).1.symm⟩
      · exact nomatch h
  · exact nomatch h

/-- What the three readers give has texts as keys. -/
structure ReadsTextKeyed (rules : Rules) (fuel : Nat) : Prop where
  value : ∀ depth cs v rest, value? rules fuel depth cs = some (v, rest) → TextKeyed v
  items : ∀ depth cs vs rest, items? rules fuel depth cs = some (vs, rest) → ∀ v ∈ vs, TextKeyed v
  members : ∀ depth cs es rest, members? rules fuel depth cs = some (es, rest) →
    ∀ e ∈ es, (∃ name, e.1 = .str name) ∧ TextKeyed e.2

section Readers

variable {fuel depth : Nat} {cs rest : List Char}

theorem ReadsTextKeyed.value_succ (below : ReadsTextKeyed rules fuel) {v : Value}
    (h : value? rules (fuel + 1) depth cs = some (v, rest)) : TextKeyed v := by
  unfold value? at h
  split at h
  · obtain ⟨r, -, hr⟩ := Option.map_eq_some_iff.1 h
    rw [← (Prod.mk.inj hr).1]
    exact .atom _
  · split at h
    · rw [← (Prod.mk.inj (Option.some.inj h)).1]
      exact .list nofun
    · exact nomatch h
    · obtain ⟨r, hread, hr⟩ := Option.map_eq_some_iff.1 h
      rw [← (Prod.mk.inj hr).1]
      exact .list (below.items _ _ _ _ hread)
  · split at h
    · rw [← (Prod.mk.inj (Option.some.inj h)).1]
      exact .map nofun nofun
    · exact nomatch h
    · obtain ⟨r, hread, hr⟩ := Option.map_eq_some_iff.1 h
      rw [← (Prod.mk.inj hr).1]
      have entries : ∀ e ∈ Mapping.ofList r.1, (∃ name, e.1 = .str name) ∧ TextKeyed e.2 :=
        Mapping.forall_mem_overlay (P := fun k => ∃ name, k = .str name)
          (below.members _ _ _ _ hread) nofun
      exact .map (fun e he => (entries e he).1) fun e he => (entries e he).2
  · obtain ⟨a, rfl⟩ := atom_of_scalar? h
    exact .atom a

theorem ReadsTextKeyed.items_succ (below : ReadsTextKeyed rules fuel) {vs : List Value}
    (h : items? rules (fuel + 1) depth cs = some (vs, rest)) : ∀ v ∈ vs, TextKeyed v := by
  unfold items? at h
  split at h
  · exact nomatch h
  · rename_i v r hv
    have first := below.value _ _ _ _ hv
    split at h
    · rw [← (Prod.mk.inj (Option.some.inj h)).1]
      exact List.forall_mem_singleton.2 first
    · obtain ⟨r, hread, hr⟩ := Option.map_eq_some_iff.1 h
      rw [← (Prod.mk.inj hr).1]
      exact List.forall_mem_cons.2 ⟨first, below.items _ _ _ _ hread⟩
    · exact nomatch h

theorem ReadsTextKeyed.members_succ (below : ReadsTextKeyed rules fuel) {es : List (Key × Value)}
    (h : members? rules (fuel + 1) depth cs = some (es, rest)) :
    ∀ e ∈ es, (∃ name, e.1 = .str name) ∧ TextKeyed e.2 := by
  unfold members? at h
  split at h
  · exact nomatch h
  · rename_i k r hk
    obtain ⟨name, rfl⟩ := str_of_key? hk
    split at h
    · exact nomatch h
    · rename_i v r hv
      have first : (∃ name', Key.str name = .str name') ∧ TextKeyed v :=
        ⟨⟨name, rfl⟩, below.value _ _ _ _ hv⟩
      split at h
      · rw [← (Prod.mk.inj (Option.some.inj h)).1]
        exact List.forall_mem_singleton.2 first
      · obtain ⟨r, hread, hr⟩ := Option.map_eq_some_iff.1 h
        rw [← (Prod.mk.inj hr).1]
        exact List.forall_mem_cons.2 ⟨first, below.members _ _ _ _ hread⟩
      · exact nomatch h

end Readers

theorem readsTextKeyed (rules : Rules) (fuel : Nat) : ReadsTextKeyed rules fuel := by
  induction fuel with
  | zero => exact ⟨nofun, nofun, nofun⟩
  | succ fuel ih =>
    exact ⟨fun _ _ _ _ => ih.value_succ, fun _ _ _ _ => ih.items_succ,
      fun _ _ _ _ => ih.members_succ⟩

theorem textKeyed_of_readNested? {depth : Nat} {cs : List Char} {v : Value}
    (h : readNested? rules depth cs = some v) : TextKeyed v := by
  unfold readNested? at h
  split at h
  · rename_i w rest hw
    split at h
    · rw [← Option.some.inj h]
      exact (readsTextKeyed _ _).value _ _ _ _ hw
    · exact nomatch h
  · exact nomatch h

end Json

namespace Meta

theorem textKeyed_defaults? {entries defaults : Mapping}
    (values : ∀ e ∈ entries, TextKeyed e.2) (h : defaults? entries = some defaults) :
    TextKeyed (.map defaults) := by
  unfold defaults? at h
  split at h
  · rw [← Option.some.inj h]
    exact .map nofun nofun
  · rw [← Option.some.inj h]
    exact .map nofun nofun
  · rename_i m hm
    obtain ⟨e, he, hv⟩ := Mapping.mem_of_get? hm
    have keyed := values e he
    rw [hv] at keyed
    rw [← Option.some.inj h]
    exact keyed
  · exact nomatch h

theorem textKeyed_defaults {parameters : Option String} {data : Meta}
    (h : ofParameters parameters = .ok data) : TextKeyed (.map data.defaults) := by
  unfold ofParameters at h
  split at h
  · exact nomatch h
  · split at h
    · exact nomatch h
    · split at h
      · rename_i entries hread
        cases Json.textKeyed_of_readNested? hread with
        | map _ values =>
          split at h
          · rename_i hdefaults
            rw [← Except.ok.inj h]
            exact textKeyed_defaults? values hdefaults
          · exact nomatch h
          · exact nomatch h
      · exact nomatch h

theorem str_of_mem_defaults {parameters : Option String} {data : Meta}
    (h : ofParameters parameters = .ok data) : ∀ e ∈ data.defaults, ∃ name, e.1 = .str name := by
  cases textKeyed_defaults h with
  | map keys _ => exact keys

end Meta

end Stencil
