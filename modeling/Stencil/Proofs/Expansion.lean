import Stencil.Proofs.Frames
import Stencil.Proofs.JsonObjects

set_option autoImplicit false

/-!
# What binding a mapping leaves

Binding the entries of a mapping one after another, each with all of its parts, is one overlay: the
entries are written out with the parts of each behind it, and for each name the last of what is
written stays.
-/

namespace Stencil

namespace Mapping

theorem overlay_cons (k : Key) (v : Value) (upper lower : Mapping) :
    overlay ((k, v) :: upper) lower = overlay upper (insert k v lower) := rfl

theorem overlay_append (first second lower : Mapping) :
    overlay (first ++ second) lower = overlay second (overlay first lower) :=
  List.foldl_append

theorem lookup?_cons (name : String) (k : Key) (v : Value) (m : Mapping) :
    lookup? name ((k, v) :: m) = if k.same (.str name) then some v else lookup? name m := rfl

theorem lookup?_insert (name : String) (k : Key) (v : Value) (m : Mapping) :
    lookup? name (insert k v m) = if k.same (.str name) then some v else lookup? name m := by
  by_cases here : k = .str name
  · rw [here, if_pos (Key.same_str_iff.2 rfl)]
    exact get?_insert_self name v m
  · have apart := mt Key.same_str_iff.1 here
    rw [if_neg apart]
    induction m with
    | nil => rw [insert, lookup?_cons, if_neg apart]
    | cons e m ih =>
      obtain ⟨k', w⟩ := e
      rw [insert]
      split
      · rename_i same
        have other : ¬ k'.same (.str name) = true := by
          intro named
          rw [Key.same_str_iff.1 named] at same
          exact here (Key.str_same_iff.1 same)
        rw [lookup?_cons, lookup?_cons, if_neg other, if_neg other]
      · rw [lookup?_cons, lookup?_cons, ih]

theorem lookup?_append (name : String) (first second : Mapping) :
    lookup? name (first ++ second) = (lookup? name first).or (lookup? name second) := by
  induction first with
  | nil => rfl
  | cons e first ih =>
    obtain ⟨k, v⟩ := e
    rw [List.cons_append, lookup?_cons, lookup?_cons, ih]
    split <;> rfl

theorem lookup?_overlay (name : String) (upper lower : Mapping) :
    lookup? name (overlay upper lower) =
      (lookup? name upper.reverse).or (lookup? name lower) := by
  induction upper generalizing lower with
  | nil => rfl
  | cons e upper ih =>
    obtain ⟨k, v⟩ := e
    rw [overlay_cons, ih, List.reverse_cons, lookup?_append, Option.or_assoc, lookup?_insert,
      lookup?_cons]
    congr 1
    split <;> rfl

theorem exists_split {name : String} {v : Value} {m : Mapping} (h : lookup? name m = some v) :
    ∃ before after, m = before ++ (.str name, v) :: after ∧ lookup? name before = none := by
  induction m with
  | nil => exact nomatch h
  | cons e m ih =>
    obtain ⟨k, w⟩ := e
    rw [lookup?_cons] at h
    split at h
    · rename_i here
      rw [Key.same_str_iff.1 here, Option.some.inj h]
      exact ⟨[], m, rfl, rfl⟩
    · rename_i apart
      obtain ⟨before, after, rfl, unbound⟩ := ih h
      refine ⟨(k, w) :: before, after, rfl, ?_⟩
      rw [lookup?_cons, if_neg apart, unbound]

theorem mem_of_lookup? {name : String} {v : Value} {m : Mapping} (h : lookup? name m = some v) :
    (.str name, v) ∈ m := by
  obtain ⟨before, after, rfl, -⟩ := exists_split h
  exact List.mem_append_right _ List.mem_cons_self

theorem lookup?_isSome_of_mem {name : String} {v : Value} {m : Mapping} (h : (.str name, v) ∈ m) :
    (lookup? name m).isSome = true := by
  induction m with
  | nil => exact nomatch h
  | cons e m ih =>
    obtain ⟨k, w⟩ := e
    rw [lookup?_cons]
    split
    · rfl
    · rename_i apart
      rcases List.mem_cons.1 h with here | later
      · exact absurd (Key.same_str_iff.2 (Prod.mk.inj here).1.symm) apart
      · exact ih later

theorem lookup?_eq_none_iff {name : String} {m : Mapping} :
    lookup? name m = none ↔ ∀ v, (.str name, v) ∉ m := by
  constructor
  · intro unbound v mem
    have bound := lookup?_isSome_of_mem mem
    rw [unbound] at bound
    exact Bool.false_ne_true bound
  · intro nowhere
    refine Option.eq_none_iff_forall_ne_some.2 fun v here => nowhere v ?_
    exact mem_of_lookup? here

theorem insert_append (k : Key) (v : Value) (first second : Mapping) :
    insert k v (first ++ second) =
      if first.any (fun e => e.1.same k) then insert k v first ++ second
      else first ++ insert k v second := by
  induction first with
  | nil => rfl
  | cons e first ih =>
    obtain ⟨k', w⟩ := e
    rw [List.cons_append, insert, insert, ih, List.any_cons]
    by_cases here : k'.same k = true
    · simp [here]
    · simp only [here, Bool.false_or, Bool.false_eq_true, if_false]
      split <;> rfl

theorem any_same_str (name : String) (m : Mapping) :
    m.any (fun e => e.1.same (.str name)) = (lookup? name m).isSome := by
  induction m with
  | nil => rfl
  | cons e m ih =>
    obtain ⟨k, w⟩ := e
    rw [List.any_cons, lookup?_cons, ih]
    cases k.same (.str name) <;> rfl

theorem insert_of_new {k : Key} {m : Mapping} (h : m.any (fun e => e.1.same k) = false)
    (v : Value) : insert k v m = m ++ [(k, v)] := by
  have appended := insert_append k v m []
  rw [List.append_nil, h] at appended
  exact appended

section Pairwise

variable {R : Key → Key → Prop} (differ : ∀ a b, a.same b = false → R a b)
include differ

theorem pairwise_insert (k : Key) (v : Value) {m : Mapping}
    (h : m.Pairwise fun a b => R a.1 b.1) : (insert k v m).Pairwise fun a b => R a.1 b.1 := by
  induction m with
  | nil => exact List.pairwise_singleton _ _
  | cons e m ih =>
    obtain ⟨k', w⟩ := e
    obtain ⟨first, others⟩ := List.pairwise_cons.1 h
    rw [insert]
    split
    · exact .cons first others
    · rename_i apart
      have new : R k' k := differ k' k (Bool.eq_false_iff.2 apart)
      refine .cons (fun e he => ?_) (ih others)
      exact (forall_mem_insert (P := fun x => R k' x) (Q := fun _ => True) new trivial
        (fun e he => ⟨first e he, trivial⟩) e he).1

theorem pairwise_overlay (upper : Mapping) {lower : Mapping}
    (h : lower.Pairwise fun a b => R a.1 b.1) :
    (overlay upper lower).Pairwise fun a b => R a.1 b.1 := by
  induction upper generalizing lower with
  | nil => exact h
  | cons e upper ih => exact ih (pairwise_insert differ e.1 e.2 h)

end Pairwise

/-- No entry has the key of an earlier one, numbers and truth values compared as numbers. -/
def Unrepeated (m : Mapping) : Prop :=
  m.Pairwise fun a b => a.1.same b.1 = false

theorem unrepeated_overlay (upper : Mapping) {lower : Mapping} (h : Unrepeated lower) :
    Unrepeated (overlay upper lower) :=
  pairwise_overlay (fun _ _ apart => apart) upper h

theorem overlay_of_unrepeated {upper lower : Mapping} (h : Unrepeated (lower ++ upper)) :
    overlay upper lower = lower ++ upper := by
  induction upper generalizing lower with
  | nil => exact (List.append_nil lower).symm
  | cons e upper ih =>
    obtain ⟨k, v⟩ := e
    have new : lower.any (fun e => e.1.same k) = false := by
      refine List.any_eq_false.2 fun e he => Bool.eq_false_iff.1 ?_
      exact (List.pairwise_append.1 h).2.2 e he (k, v) List.mem_cons_self
    have behind : lower ++ (k, v) :: upper = lower ++ [(k, v)] ++ upper := by
      rw [List.append_assoc, List.singleton_append]
    rw [behind] at h ⊢
    rw [overlay_cons, insert_of_new new]
    exact ih h

theorem ofList_of_unrepeated {m : Mapping} (h : Unrepeated m) : ofList m = m :=
  overlay_of_unrepeated h

/-- No name is bound twice. -/
def Distinct (m : Mapping) : Prop :=
  m.Pairwise fun a b => ∀ name, a.1 = .str name → b.1 ≠ .str name

theorem distinct_overlay (upper : Mapping) {lower : Mapping} (h : Distinct lower) :
    Distinct (overlay upper lower) := by
  refine pairwise_overlay (R := fun a b => ∀ name, a = .str name → b ≠ .str name) ?_ upper h
  rintro a b apart name rfl rfl
  exact absurd (Key.same_str_iff.2 rfl) (Bool.eq_false_iff.1 apart)

theorem distinct_ofList (bindings : List (Key × Value)) : Distinct (ofList bindings) :=
  distinct_overlay bindings .nil

theorem Distinct.unrepeated {m : Mapping} (keys : ∀ e ∈ m, ∃ name, e.1 = .str name)
    (h : Distinct m) : Unrepeated m := by
  refine List.Pairwise.imp_of_mem (fun {a b} _ mem apart => ?_) h
  obtain ⟨name, named⟩ := keys b mem
  refine Bool.eq_false_iff.2 fun same => ?_
  rw [named] at same
  exact apart name (Key.same_str_iff.1 same) named

theorem ofList_of_distinct {m : Mapping} (keys : ∀ e ∈ m, ∃ name, e.1 = .str name)
    (h : Distinct m) : ofList m = m :=
  ofList_of_unrepeated (h.unrepeated keys)

theorem Distinct.lookup?_of_mem {m : Mapping} (h : Distinct m) {name : String} {v : Value}
    (mem : (.str name, v) ∈ m) : lookup? name m = some v := by
  induction m with
  | nil => exact nomatch mem
  | cons e m ih =>
    obtain ⟨k, w⟩ := e
    obtain ⟨first, others⟩ := List.pairwise_cons.1 h
    rw [lookup?_cons]
    rcases List.mem_cons.1 mem with here | later
    · obtain ⟨rfl, rfl⟩ := Prod.mk.inj here
      exact if_pos (Key.same_str_iff.2 rfl)
    · rw [if_neg fun here => first _ later name (Key.same_str_iff.1 here) rfl]
      exact ih others later

theorem Distinct.lookup?_reverse {m : Mapping} (h : Distinct m) (name : String) :
    lookup? name m.reverse = lookup? name m := by
  cases last : lookup? name m.reverse with
  | some v => exact (h.lookup?_of_mem (List.mem_reverse.1 (mem_of_lookup? last))).symm
  | none =>
    refine (lookup?_eq_none_iff.2 fun v mem => ?_).symm
    exact lookup?_eq_none_iff.1 last v (List.mem_reverse.2 mem)

end Mapping

namespace Scope

theorem lookup?_cons (name : String) (frame : Frame) (frames : List Frame)
    (path : Option String) :
    lookup? name ⟨frame :: frames, path⟩ =
      (Mapping.lookup? name frame).or (lookup? name ⟨frames, path⟩) := by
  unfold lookup?
  rw [List.findSome?_cons]
  cases Mapping.lookup? name frame <;> rfl

theorem lookup?_flatten {s : Scope} (h : ∀ frame ∈ s.frames, Mapping.Distinct frame)
    (name : String) : Mapping.lookup? name s.flatten = s.lookup? name := by
  obtain ⟨frames, path⟩ := s
  induction frames with
  | nil => rfl
  | cons frame frames ih =>
    obtain ⟨first, others⟩ := List.forall_mem_cons.1 h
    rw [lookup?_cons, ← ih others, ← first.lookup?_reverse]
    exact Mapping.lookup?_overlay name frame (flatten ⟨frames, path⟩)

end Scope

namespace Frame

mutual

/-- The names of the parts of a value, with the parts, in the order in which they are bound. -/
def parts (name : String) : Value → Mapping
  | .atom _ => []
  | .list items => itemParts name 0 items
  | .pair a b =>
    (.str (name ++ "[0]"), a) :: parts (name ++ "[0]") a ++
      (.str (name ++ "[1]"), b) :: parts (name ++ "[1]") b
  | .map entries => entryParts name entries
  | .ordered entries => entryParts name entries
  | .set _ => []

def itemParts (name : String) (index : Nat) : List Value → Mapping
  | [] => []
  | v :: vs =>
    (.str (name ++ "[" ++ toString index ++ "]"), v) ::
      parts (name ++ "[" ++ toString index ++ "]") v ++ itemParts name (index + 1) vs

def entryParts (name : String) : List (Key × Value) → Mapping
  | [] => []
  | (k, v) :: rest =>
    (.str (name ++ "." ++ k.text), v) :: parts (name ++ "." ++ k.text) v ++ entryParts name rest

end

/-- The entries of a mapping, each with its parts behind it. -/
def spread (m : Mapping) : Mapping :=
  m.flatMap fun e => e :: parts e.1.text e.2

/-- What binding the entries of a mapping in their order leaves under a name. -/
def last? (name : String) (m : Mapping) : Option Value :=
  Mapping.lookup? name (spread m).reverse

theorem spread_append (first second : Mapping) :
    spread (first ++ second) = spread first ++ spread second :=
  List.flatMap_append

theorem bind_eq_overlay :
    (∀ (v : Value) (key : Key) (into : Frame),
      bind key v into = Mapping.overlay ((key, v) :: parts key.text v) into) ∧
    (∀ (entries : List (Key × Value)) (name : String) (into : Frame),
      bindEntries name entries into = Mapping.overlay (entryParts name entries) into) ∧
    (∀ (items : List Value) (name : String) (index : Nat) (into : Frame),
      bindItems name index items into = Mapping.overlay (itemParts name index items) into) := by
  apply Value.parts_induction
  case atom =>
    intro a key into
    rw [bind, parts]
    rfl
  case list =>
    intro items ih key into
    rw [bind, parts, ih]
    rfl
  case pair =>
    intro a b ihFirst ihSecond key into
    rw [bind, parts, ihSecond, ihFirst, ← List.cons_append, Mapping.overlay_append]
    rfl
  case map | ordered =>
    intro entries ih key into
    rw [bind, parts, ih]
    rfl
  case set =>
    intro members key into
    rw [bind, parts]
    rfl
  case noEntries =>
    intro name into
    rw [bindEntries, entryParts]
    rfl
  case entry =>
    intro k v rest ihEntry ihEntries name into
    rw [bindEntries, entryParts, ihEntries, ihEntry, Mapping.overlay_append]
    rfl
  case noItems =>
    intro name index into
    rw [bindItems, itemParts]
    rfl
  case item =>
    intro v vs ihItem ihItems name index into
    rw [bindItems, itemParts, ihItems, ihItem, Mapping.overlay_append]
    rfl

theorem foldl_bind (m : Mapping) (into : Frame) :
    m.foldl (fun frame (k, v) => bind k v frame) into = Mapping.overlay (spread m) into := by
  induction m generalizing into with
  | nil => rfl
  | cons e m ih =>
    obtain ⟨k, v⟩ := e
    change m.foldl (fun frame (k, v) => bind k v frame) (bind k v into) = _
    rw [ih, bind_eq_overlay.1, ← Mapping.overlay_append]
    rfl

theorem lookup?_foldl_bind (name : String) (m : Mapping) (into : Frame) :
    Mapping.lookup? name (m.foldl (fun frame (k, v) => bind k v frame) into) =
      (last? name m).or (Mapping.lookup? name into) := by
  rw [foldl_bind, Mapping.lookup?_overlay]
  rfl

theorem lookup?_ofMapping (name : String) (m : Mapping) :
    Mapping.lookup? name (ofMapping m) = last? name m := by
  unfold ofMapping
  rw [lookup?_foldl_bind, Mapping.lookup?_nil, Option.or_none]

/-- What stays under a name is an entry of the mapping, or a part of one. -/
theorem origin_of_last? {name : String} {w : Value} {m : Mapping} (h : last? name m = some w) :
    (.str name, w) ∈ m ∨ ∃ e ∈ m, (.str name, w) ∈ parts e.1.text e.2 := by
  have written : (.str name, w) ∈ spread m := List.mem_reverse.1 (Mapping.mem_of_lookup? h)
  obtain ⟨e, mem, here⟩ := List.mem_flatMap.1 written
  rcases List.mem_cons.1 here with rfl | part
  · exact .inl mem
  · exact .inr ⟨e, mem, part⟩

theorem last?_isSome_of_mem {name : String} {v : Value} {m : Mapping} (h : (.str name, v) ∈ m) :
    (last? name m).isSome = true := by
  apply Mapping.lookup?_isSome_of_mem
  rw [List.mem_reverse]
  exact List.mem_flatMap.2 ⟨_, h, List.mem_cons_self⟩

end Frame

end Stencil
