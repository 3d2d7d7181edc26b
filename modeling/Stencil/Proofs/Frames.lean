import Stencil.Scope

set_option autoImplicit false

/-!
# How frames change

Binding a value to a name changes a frame at that name and at the names of the value's parts, and
nowhere else; no key is lost.
-/

namespace Stencil

namespace Key

theorem same_str_iff {k : Key} {name : String} : k.same (.str name) = true ↔ k = .str name := by
  constructor
  · intro h
    cases k with
    | row items => exact absurd h Bool.false_ne_true
    | atom a =>
      change a.same (.str name) = true at h
      cases a with
      | str other => exact congrArg Key.str (eq_of_beq h)
      | float x =>
        cases hx : x.toInt? <;> simp [Atom.same, Atom.toInt?, hx] at h
      | _ => exact absurd h Bool.false_ne_true
  · rintro rfl
    exact beq_self_eq_true name

theorem str_same_iff {k : Key} {name : String} : (Key.str name).same k = true ↔ k = .str name := by
  constructor
  · intro h
    cases k with
    | row items => exact absurd h Bool.false_ne_true
    | atom a =>
      change (Atom.str name).same a = true at h
      cases a with
      | str other => exact congrArg Key.str (eq_of_beq h).symm
      | _ => exact absurd h Bool.false_ne_true
  · rintro rfl
    exact beq_self_eq_true name

theorem str_inj {a b : String} : Key.str a = Key.str b ↔ a = b :=
  ⟨fun h => Atom.str.inj (Key.atom.inj h), congrArg Key.str⟩

@[simp]
theorem text_str (name : String) : (Key.str name).text = name := rfl

end Key

namespace Value

/-- Induction on the parts of a value: its items, and the values of its entries. -/
theorem parts_induction {OfValue : Value → Prop} {OfEntries : List (Key × Value) → Prop}
    {OfItems : List Value → Prop} (atom : ∀ a, OfValue (.atom a))
    (set : ∀ members, OfValue (.set members))
    (list : ∀ items, OfItems items → OfValue (.list items))
    (pair : ∀ a b, OfValue a → OfValue b → OfValue (.pair a b))
    (map : ∀ entries, OfEntries entries → OfValue (.map entries))
    (ordered : ∀ entries, OfEntries entries → OfValue (.ordered entries))
    (noEntries : OfEntries [])
    (entry : ∀ k v rest, OfValue v → OfEntries rest → OfEntries ((k, v) :: rest))
    (noItems : OfItems []) (item : ∀ v vs, OfValue v → OfItems vs → OfItems (v :: vs)) :
    (∀ v, OfValue v) ∧ (∀ entries, OfEntries entries) ∧ ∀ items, OfItems items :=
  writableKeys.mutual_induct OfValue OfEntries OfItems atom set list pair map ordered noItems item
    noEntries entry

theorem writableKeysAll_of_forall {vs : List Value} (h : ∀ v ∈ vs, v.writableKeys = true) :
    writableKeysAll vs = true := by
  induction vs with
  | nil => rfl
  | cons v vs ih =>
    obtain ⟨first, others⟩ := List.forall_mem_cons.1 h
    rw [writableKeysAll, first, ih others]
    rfl

theorem writableKeysWithin_of_texts {m : Mapping} (keys : ∀ e ∈ m, ∃ name, e.1 = .str name)
    (values : ∀ e ∈ m, e.2.writableKeys = true) : writableKeysWithin m = true := by
  induction m with
  | nil => rfl
  | cons e m ih =>
    obtain ⟨k, v⟩ := e
    obtain ⟨⟨name, text⟩, others⟩ := List.forall_mem_cons.1 keys
    obtain ⟨value, later⟩ := List.forall_mem_cons.1 values
    obtain rfl : k = .str name := text
    rw [writableKeysWithin, value, ih others later]
    rfl

end Value

namespace Mapping

@[simp]
theorem lookup?_nil (name : String) : lookup? name [] = none := rfl

@[simp]
theorem lookup?_str_cons (name key : String) (v : Value) (m : Mapping) :
    lookup? name ((.str key, v) :: m) = if key = name then some v else lookup? name m := by
  rw [lookup?, get?]
  simp only [Key.same_str_iff, Key.str_inj]
  rfl

theorem get?_insert_self (name : String) (v : Value) (m : Mapping) :
    get? (.str name) (insert (.str name) v m) = some v := by
  induction m with
  | nil => rw [insert, get?, if_pos (Key.str_same_iff.2 rfl)]
  | cons e m ih =>
    obtain ⟨k, w⟩ := e
    rw [insert]
    split
    · rename_i hk
      rw [get?, if_pos hk]
    · rename_i hk
      rw [get?, if_neg hk, ih]

theorem get?_insert_of_ne {k : Key} {name : String} (h : k ≠ .str name) (v : Value)
    (m : Mapping) : get? k (insert (.str name) v m) = get? k m := by
  have apart : ¬ (Key.str name).same k = true := fun hs => h (Key.str_same_iff.1 hs)
  induction m with
  | nil => simp only [insert, get?, if_neg apart]
  | cons e m ih =>
    obtain ⟨k', w⟩ := e
    rw [insert]
    split
    · rename_i hk
      rw [Key.same_str_iff.1 hk, get?, get?, if_neg apart, if_neg apart]
    · rw [get?, get?, ih]

end Mapping

@[simp]
theorem Scope.lookup?_single (name : String) (frame : Frame) (path : Option String) :
    lookup? name ⟨[frame], path⟩ = Mapping.lookup? name frame := by
  unfold lookup?
  rw [List.findSome?_cons]
  cases Mapping.lookup? name frame <;> rfl

/-- Whether a name is that of a part of a value bound to `name`. -/
def ProperPart (name part : String) : Prop :=
  (∃ rest, part = name ++ "." ++ rest) ∨ ∃ rest, part = name ++ "[" ++ rest

/-- Whether a name is that of a value bound to `name`, or of one of its parts. -/
def PartName (name part : String) : Prop :=
  part = name ∨ ProperPart name part

theorem ProperPart.append {name part : String} (h : ProperPart name part) (rest : String) :
    ProperPart name (part ++ rest) := by
  rcases h with ⟨r, rfl⟩ | ⟨r, rfl⟩
  · exact .inl ⟨r ++ rest, String.append_assoc⟩
  · exact .inr ⟨r ++ rest, String.append_assoc⟩

theorem ProperPart.trans {a b c : String} (hab : ProperPart a b) (hbc : PartName b c) :
    ProperPart a c := by
  rcases hbc with rfl | ⟨rest, rfl⟩ | ⟨rest, rfl⟩
  · exact hab
  · exact (hab.append ".").append rest
  · exact (hab.append "[").append rest

theorem ProperPart.mark_mem {name part : String} (h : ProperPart name part) :
    '.' ∈ part.toList ∨ '[' ∈ part.toList := by
  rcases h with ⟨rest, rfl⟩ | ⟨rest, rfl⟩
  · exact .inl (by simp [String.toList_append])
  · exact .inr (by simp [String.toList_append])

theorem ProperPart.length_lt {name part : String} (h : ProperPart name part) :
    name.length < part.length := by
  rcases h with ⟨rest, rfl⟩ | ⟨rest, rfl⟩
  · rw [String.length_append, String.length_append]
    exact Nat.lt_of_lt_of_le (Nat.lt_succ_self _) (Nat.le_add_right _ _)
  · rw [String.length_append, String.length_append]
    exact Nat.lt_of_lt_of_le (Nat.lt_succ_self _) (Nat.le_add_right _ _)

namespace Frame

/-- One frame has all keys of another and differs from it at certain names alone. -/
structure Grown (changed : String → Prop) (before after : Frame) : Prop where
  keys : ∀ k, Mapping.contains k before = true → Mapping.contains k after = true
  same : ∀ k, (∀ name, changed name → k ≠ .str name) →
    Mapping.get? k after = Mapping.get? k before

namespace Grown

variable {changed other : String → Prop} {a b c : Frame}

theorem refl (a : Frame) : Grown changed a a := ⟨fun _ h => h, fun _ _ => rfl⟩

theorem trans (hab : Grown changed a b) (hbc : Grown changed b c) : Grown changed a c :=
  ⟨fun k h => hbc.keys k (hab.keys k h), fun k h => (hbc.same k h).trans (hab.same k h)⟩

theorem mono (h : Grown changed a b) (hc : ∀ name, changed name → other name) :
    Grown other a b :=
  ⟨h.keys, fun k hk => h.same k fun name hn => hk name (hc name hn)⟩

end Grown

theorem grown_insert (name : String) (v : Value) (into : Frame) :
    Grown (PartName name) into (Mapping.insert (.str name) v into) := by
  constructor
  · intro k hk
    unfold Mapping.contains at hk ⊢
    by_cases h : k = .str name
    · rw [h, Mapping.get?_insert_self]
      rfl
    · rw [Mapping.get?_insert_of_ne h]
      exact hk
  · intro k hk
    exact Mapping.get?_insert_of_ne (hk name (.inl rfl)) v into

theorem properPart_dot (name key : String) : ProperPart name (name ++ "." ++ key) :=
  .inl ⟨key, rfl⟩

theorem properPart_index (name : String) (index : Nat) :
    ProperPart name (name ++ "[" ++ toString index ++ "]") :=
  .inr ⟨toString index ++ "]", String.append_assoc⟩

theorem properPart_bracket (name rest : String) : ProperPart name (name ++ ("[" ++ rest)) :=
  .inr ⟨rest, String.append_assoc.symm⟩

/-- Binding a value binds its name first and then the names of its parts. -/
theorem grown_bind :
    (∀ (v : Value) (name : String) (into : Frame),
      Grown (ProperPart name) (Mapping.insert (.str name) v into) (bind (.str name) v into)) ∧
    (∀ (entries : List (Key × Value)) (name : String) (into : Frame),
      Grown (ProperPart name) into (bindEntries name entries into)) ∧
    (∀ (items : List Value) (name : String) (index : Nat) (into : Frame),
      Grown (ProperPart name) into (bindItems name index items into)) := by
  have whole {name : String} {v : Value} {into after : Frame}
      (h : Grown (ProperPart name) (Mapping.insert (.str name) v into) after) :
      Grown (PartName name) into after :=
    (grown_insert name v into).trans (h.mono fun _ => .inr)
  apply Value.parts_induction
  case atom =>
    intro a name into
    rw [bind]
    exact .refl _
  case list =>
    intro items ih name into
    rw [bind]
    exact ih _ _ _
  case pair =>
    intro a b ihFirst ihSecond name into
    rw [bind]
    have first (into : Frame) :=
      (whole (ihFirst _ into)).mono fun _ => (properPart_bracket name "0]").trans
    have second (into : Frame) :=
      (whole (ihSecond _ into)).mono fun _ => (properPart_bracket name "1]").trans
    exact (first _).trans (second _)
  case map | ordered =>
    intro entries ih name into
    rw [bind]
    exact ih _ _
  case set =>
    intro members name into
    rw [bind]
    exact .refl _
  case noEntries =>
    intro name into
    rw [bindEntries]
    exact .refl into
  case entry =>
    intro k v rest ihEntry ihEntries name into
    rw [bindEntries]
    have entry := (whole (ihEntry _ into)).mono fun _ => (properPart_dot name k.text).trans
    exact entry.trans (ihEntries _ _)
  case noItems =>
    intro name index into
    rw [bindItems]
    exact .refl into
  case item =>
    intro v vs ihItem ihItems name index into
    rw [bindItems]
    have item := (whole (ihItem _ into)).mono fun _ => (properPart_index name index).trans
    exact item.trans (ihItems _ _ _)

theorem grown_bind_str (name : String) (v : Value) (into : Frame) :
    Grown (PartName name) into (bind (.str name) v into) :=
  (grown_insert name v into).trans ((grown_bind.1 v name into).mono fun _ => .inr)

theorem get?_bind_self (name : String) (v : Value) (into : Frame) :
    Mapping.get? (.str name) (bind (.str name) v into) = some v := by
  rw [(grown_bind.1 v name into).same, Mapping.get?_insert_self]
  intro part hpart same
  have longer := hpart.length_lt
  rw [Key.str_inj.1 same] at longer
  exact Nat.lt_irrefl _ longer

theorem get?_bind_of_ne {name other : String} (h : ¬ PartName name other) (v : Value)
    (into : Frame) :
    Mapping.get? (.str other) (bind (.str name) v into) = Mapping.get? (.str other) into := by
  refine (grown_bind_str name v into).same _ fun part hpart same => h ?_
  rw [Key.str_inj.1 same]
  exact hpart

theorem expand_eq_ok_iff {key : Key} {v : Value} {into frame : Frame} :
    expand key v into = .ok frame ↔ nameable key v = true ∧ frame = bind key v into := by
  unfold expand
  split
  · rename_i named
    exact ⟨fun h => ⟨named, (Except.ok.inj h).symm⟩, fun h => congrArg Except.ok h.2.symm⟩
  · rename_i unnamed
    exact ⟨nofun, fun h => absurd h.1 unnamed⟩

theorem expand_eq_error {key : Key} {v : Value} {into : Frame} {f : Failure}
    (h : expand key v into = .error f) : f = .tooManyDigits none := by
  unfold expand at h
  split at h
  · exact nomatch h
  · exact (Except.error.inj h).symm

theorem expandAll_eq_ok_iff {m : Mapping} {frame : Frame} :
    expandAll m = .ok frame ↔ (∀ e ∈ m, nameable e.1 e.2 = true) ∧ frame = ofMapping m := by
  unfold expandAll
  rw [← List.all_eq_true]
  split
  · rename_i named
    exact ⟨fun h => ⟨named, (Except.ok.inj h).symm⟩, fun h => congrArg Except.ok h.2.symm⟩
  · rename_i unnamed
    exact ⟨nofun, fun h => absurd h.1 unnamed⟩

theorem expandAll_eq_error {m : Mapping} {f : Failure} (h : expandAll m = .error f) :
    f = .tooManyDigits none := by
  unfold expandAll at h
  split at h
  · exact nomatch h
  · exact (Except.error.inj h).symm

theorem expand_atom (key : Key) (a : Atom) (into : Frame) :
    expand key (.atom a) into = .ok (Mapping.insert key (.atom a) into) := by
  refine expand_eq_ok_iff.2 ⟨?_, ?_⟩
  · simp [nameable, Value.writableKeys, Value.hasParts]
  · rw [bind]

end Frame

end Stencil
