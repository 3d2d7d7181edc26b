import Stencil.Proofs.Expansion

set_option autoImplicit false

/-!
# The names of the places in a value

Binding a value makes a name known for each place in it: for the items of its lists and for what
its mappings bind, at any depth. A step to an item or to a key begins with a mark. Where no key
holds a mark, the names tell the places apart, so that one entry is written for each place.
-/

namespace Stencil

/-- A step from a value to one of its items, or to what it binds to a key. -/
inductive Step
  | item (index : Nat)
  | key (name : String)
  deriving Repr, DecidableEq

/-- What a step adds to the name of a value. -/
def Step.text : Step → String
  | item index => "[" ++ toString index ++ "]"
  | key name => "." ++ name

/-- The name of the place that a path leads to. -/
def placeName (name : String) : List Step → String
  | [] => name
  | step :: path => placeName (name ++ step.text) path

/-- What stands at a place of a value, if the value has the place. -/
def Value.at? (v : Value) : List Step → Option Value
  | [] => some v
  | .item index :: path =>
    v.items?.bind fun items => items[index]?.bind fun w => w.at? path
  | .key name :: path =>
    v.entries?.bind fun entries => (Mapping.lookup? name entries).bind fun w => w.at? path

def Unmarked (text : String) : Prop := ∀ c ∈ text.toList, c ≠ '.' ∧ c ≠ '['

/-- A value whose mappings have texts without marks as keys, each of them once. -/
inductive Value.Unambiguous : Value → Prop
  | leaf {v : Value} (noItems : v.items? = none) (noEntries : v.entries? = none) : Unambiguous v
  | items {v : Value} {ws : List Value} (listed : v.items? = some ws)
      (all : ∀ w ∈ ws, Unambiguous w) : Unambiguous v
  | entries {v : Value} {m : Mapping} (held : v.entries? = some m) (distinct : m.Distinct)
      (keys : ∀ e ∈ m, ∃ key, e.1 = .str key ∧ Unmarked key)
      (all : ∀ e ∈ m, Unambiguous e.2) : Unambiguous v

namespace Step

def Unmarked : Step → Prop
  | item _ => True
  | key name => Stencil.Unmarked name

theorem text_injective : Function.Injective text := by
  have apart (index : Nat) (name : String) : (item index).text ≠ (key name).text := by
    intro h
    simpa [text] using congrArg (fun t => t.toList.head?) h
  intro a b h
  cases a with
  | item i =>
    cases b with
    | item j =>
      have digits : Nat.toDigits 10 i = Nat.toDigits 10 j := by
        simpa [text, Nat.toString_eq_repr, ← String.toList_inj] using h
      have read := congrArg (fun cs => Nat.ofDigitChars 10 cs 0) digits
      rw [show i = j by simpa using read]
    | key name => exact absurd h (apart i name)
  | key name =>
    cases b with
    | item i => exact absurd h.symm (apart i name)
    | key other =>
      have same : name = other := by simpa [text] using h
      rw [same]

def isMark (c : Char) : Bool := c == '.' || c == '['

theorem isMark_digit {index : Nat} {c : Char} (h : c ∈ (toString index).toList) :
    isMark c = false := by
  rw [Nat.toString_eq_repr, Nat.toList_repr] at h
  have digit := Nat.isDigit_of_mem_toDigits (by omega) (by omega) h
  refine Bool.eq_false_iff.2 fun marked => ?_
  simp only [isMark, Bool.or_eq_true, beq_iff_eq] at marked
  rcases marked with rfl | rfl <;> exact absurd digit (by decide)

theorem exists_mark {s : Step} (h : s.Unmarked) :
    ∃ mark body, s.text.toList = mark :: body ∧ isMark mark = true ∧
      ∀ c ∈ body, isMark c = false := by
  cases s with
  | item index =>
    refine ⟨'[', (toString index).toList ++ [']'], by simp [text], by decide, ?_⟩
    intro c hc
    rcases List.mem_append.1 hc with digit | close
    · exact isMark_digit digit
    · rw [List.mem_singleton.1 close]
      decide
  | key name =>
    refine ⟨'.', name.toList, by simp [text], by decide, ?_⟩
    intro c hc
    simp [isMark, h c hc]

end Step

section Names

def pathChars (path : List Step) : List Char := path.flatMap fun s => s.text.toList

theorem toList_placeName (name : String) (path : List Step) :
    (placeName name path).toList = name.toList ++ pathChars path := by
  induction path generalizing name with
  | nil => simp [placeName, pathChars]
  | cons s path ih => simp [placeName, pathChars, ih]

theorem takeWhile_pathChars {body : List Char} (h : ∀ c ∈ body, Step.isMark c = false)
    {path : List Step} (unmarked : ∀ s ∈ path, s.Unmarked) :
    (body ++ pathChars path).takeWhile (fun c => !Step.isMark c) = body := by
  rw [List.takeWhile_append_of_pos (by simpa using h)]
  cases path with
  | nil => simp [pathChars]
  | cons s path =>
    obtain ⟨mark, rest, text, marked, -⟩ := Step.exists_mark (unmarked s List.mem_cons_self)
    simp [pathChars, text, marked]

/-- Each mark begins a step, so the steps can be read off their characters. -/
theorem pathChars_inj {p q : List Step} (hp : ∀ s ∈ p, s.Unmarked) (hq : ∀ s ∈ q, s.Unmarked)
    (h : pathChars p = pathChars q) : p = q := by
  induction p generalizing q with
  | nil =>
    cases q with
    | nil => rfl
    | cons t q =>
      obtain ⟨mark, body, text, -⟩ := Step.exists_mark (hq t List.mem_cons_self)
      simp [pathChars, text] at h
  | cons s p ih =>
    obtain ⟨first, others⟩ := List.forall_mem_cons.1 hp
    obtain ⟨mark, body, text, -, plain⟩ := Step.exists_mark first
    cases q with
    | nil => simp [pathChars, text] at h
    | cons t q =>
      obtain ⟨first', others'⟩ := List.forall_mem_cons.1 hq
      obtain ⟨mark', body', text', -, plain'⟩ := Step.exists_mark first'
      have split : mark = mark' ∧ body ++ pathChars p = body' ++ pathChars q := by
        simpa [pathChars, text, text'] using h
      obtain ⟨rfl, rest⟩ := split
      have bodies : body = body' := by
        rw [← takeWhile_pathChars plain others, rest, takeWhile_pathChars plain' others']
      subst bodies
      have steps : s = t := Step.text_injective (String.toList_inj.1 (text.trans text'.symm))
      rw [steps, ih others others' (List.append_cancel_left rest)]

theorem placeName_inj {name : String} {p q : List Step} (hp : ∀ s ∈ p, s.Unmarked)
    (hq : ∀ s ∈ q, s.Unmarked) (h : placeName name p = placeName name q) : p = q := by
  have chars := congrArg String.toList h
  rw [toList_placeName, toList_placeName] at chars
  exact pathChars_inj hp hq (List.append_cancel_left chars)

end Names

namespace Mapping

variable {others : Key → Bool}

theorem filter_insert {name : String} (h : others (.str name) = false) (w : Value) (m : Mapping) :
    (insert (.str name) w m).filter (fun e => others e.1) = m.filter fun e => others e.1 := by
  induction m with
  | nil => simp [insert, h]
  | cons e m ih =>
    obtain ⟨k, u⟩ := e
    by_cases here : k = .str name
    · subst here
      simp [insert, Key.same_str_iff, h]
    · simp [insert, Key.same_str_iff, here, List.filter_cons, ih]

theorem filter_overlay {upper : Mapping}
    (h : ∀ e ∈ upper, ∃ name, e.1 = .str name ∧ others (.str name) = false) (lower : Mapping) :
    (overlay upper lower).filter (fun e => others e.1) = lower.filter fun e => others e.1 := by
  induction upper generalizing lower with
  | nil => rfl
  | cons e upper ih =>
    obtain ⟨⟨name, key, apart⟩, later⟩ := List.forall_mem_cons.1 h
    obtain ⟨k, w⟩ := e
    subst key
    rw [overlay_cons, ih later, filter_insert apart]

end Mapping

namespace Value

variable {v w : Value} {ws : List Value} {m : Mapping}

theorem not_items_of_entries (held : v.entries? = some m) : v.items? = none := by
  cases v <;> simp_all [entries?, items?]

theorem Unambiguous.item (h : v.Unambiguous) (listed : v.items? = some ws) :
    ∀ w ∈ ws, w.Unambiguous := by
  cases h with
  | leaf noItems noEntries => simp [noItems] at listed
  | items listed' all =>
    obtain rfl := Option.some.inj (listed'.symm.trans listed)
    exact all
  | entries held => simp [not_items_of_entries held] at listed

theorem Unambiguous.entry (h : v.Unambiguous) (held : v.entries? = some m) :
    m.Distinct ∧ ∀ e ∈ m, (∃ key, e.1 = .str key ∧ Unmarked key) ∧ e.2.Unambiguous := by
  cases h with
  | leaf noItems noEntries => simp [noEntries] at held
  | items listed => simp [not_items_of_entries held] at listed
  | entries held' distinct keys all =>
    obtain rfl := Option.some.inj (held'.symm.trans held)
    exact ⟨distinct, fun e he => ⟨keys e he, all e he⟩⟩

theorem Unambiguous.writableKeys (h : v.Unambiguous) : v.writableKeys = true := by
  induction h with
  | @leaf v noItems noEntries =>
    cases v with
    | atom | set => rfl
    | list | pair => cases noItems
    | map | ordered => cases noEntries
  | @items v ws listed all ih =>
    cases v with
    | list items =>
      obtain rfl := Option.some.inj listed
      rw [Value.writableKeys]
      exact writableKeysAll_of_forall ih
    | pair a b =>
      obtain rfl := Option.some.inj listed
      rw [Value.writableKeys, ih a (by simp), ih b (by simp)]
      rfl
    | atom | map | ordered | set => cases listed
  | @entries v m held distinct keys all ih =>
    have texts : ∀ e ∈ m, ∃ name, e.1 = .str name :=
      fun e he => (keys e he).imp fun _ => And.left
    cases v with
    | map | ordered =>
      obtain rfl := Option.some.inj held
      rw [Value.writableKeys]
      exact writableKeysWithin_of_texts texts ih
    | atom | list | pair | set => cases held

theorem Unambiguous.unmarked (h : v.Unambiguous) {path : List Step} (there : v.at? path = some w) :
    ∀ s ∈ path, s.Unmarked := by
  induction path generalizing v with
  | nil => simp
  | cons s path ih =>
    cases s with
    | item index =>
      obtain ⟨ws, listed, later⟩ := Option.bind_eq_some_iff.1 there
      obtain ⟨u, found, later⟩ := Option.bind_eq_some_iff.1 later
      exact List.forall_mem_cons.2
        ⟨trivial, ih (h.item listed u (List.mem_of_getElem? found)) later⟩
    | key name =>
      obtain ⟨m, held, later⟩ := Option.bind_eq_some_iff.1 there
      obtain ⟨u, found, later⟩ := Option.bind_eq_some_iff.1 later
      obtain ⟨⟨key, same, plain⟩, inner⟩ := (h.entry held).2 _ (Mapping.mem_of_lookup? found)
      rw [Key.str_inj.1 same]
      exact List.forall_mem_cons.2 ⟨plain, ih inner later⟩

def AtPlace (name : String) (v : Value) (e : Key × Value) : Prop :=
  ∃ path, v.at? path = some e.2 ∧ e.1 = .str (placeName name path)

variable {name : String} {e : Key × Value}

theorem atPlace_leaf (noItems : v.items? = none) (noEntries : v.entries? = none) :
    AtPlace name v e ↔ e = (.str name, v) := by
  constructor
  · rintro ⟨_ | ⟨s, path⟩, there, key⟩
    · exact Prod.ext key (Option.some.inj there).symm
    · cases s <;> simp [at?, noItems, noEntries] at there
  · rintro rfl
    exact ⟨[], rfl, rfl⟩

theorem atPlace_items (listed : v.items? = some ws) (noEntries : v.entries? = none) :
    AtPlace name v e ↔ e = (.str name, v) ∨
      ∃ index w, ws[index]? = some w ∧ AtPlace (name ++ (Step.item index).text) w e := by
  constructor
  · rintro ⟨_ | ⟨s, path⟩, there, key⟩
    · exact .inl (Prod.ext key (Option.some.inj there).symm)
    · cases s with
      | key other => simp [at?, noEntries] at there
      | item index =>
        rw [at?, listed, Option.bind_some] at there
        obtain ⟨w, found, later⟩ := Option.bind_eq_some_iff.1 there
        exact .inr ⟨index, w, found, path, later, key⟩
  · rintro (rfl | ⟨index, w, found, path, there, key⟩)
    · exact ⟨[], rfl, rfl⟩
    · exact ⟨.item index :: path, by simp [at?, listed, found, there], key⟩

theorem atPlace_entries (held : v.entries? = some m) (h : v.Unambiguous) :
    AtPlace name v e ↔ e = (.str name, v) ∨
      ∃ b ∈ m, AtPlace (name ++ "." ++ b.1.text) b.2 e := by
  obtain ⟨distinct, inside⟩ := h.entry held
  constructor
  · rintro ⟨_ | ⟨s, path⟩, there, key⟩
    · exact .inl (Prod.ext key (Option.some.inj there).symm)
    · cases s with
      | item index => simp [at?, not_items_of_entries held] at there
      | key other =>
        rw [at?, held, Option.bind_some] at there
        obtain ⟨w, found, later⟩ := Option.bind_eq_some_iff.1 there
        refine .inr ⟨_, Mapping.mem_of_lookup? found, path, later, ?_⟩
        rw [key, placeName, Step.text, Key.text_str, String.append_assoc]
  · rintro (rfl | ⟨⟨k, w⟩, mem, path, there, key⟩)
    · exact ⟨[], rfl, rfl⟩
    · obtain ⟨⟨other, rfl, -⟩, -⟩ := inside _ mem
      refine ⟨.key other :: path, ?_, ?_⟩
      · simpa [at?, held, distinct.lookup?_of_mem mem] using there
      · rw [key, placeName, Step.text, Key.text_str, String.append_assoc]

end Value

namespace Frame

open Value

/-- What is written for a value are the entries of its places; the induction follows the parts. -/
theorem mem_parts :
    (∀ (v : Value), v.Unambiguous →
      ∀ name e, e ∈ (.str name, v) :: parts name v ↔ AtPlace name v e) ∧
    (∀ (entries : List (Key × Value)), (∀ b ∈ entries, b.2.Unambiguous) →
      ∀ name e, e ∈ entryParts name entries ↔
        ∃ b ∈ entries, AtPlace (name ++ "." ++ b.1.text) b.2 e) ∧
    (∀ (items : List Value), (∀ w ∈ items, w.Unambiguous) →
      ∀ name index e, e ∈ itemParts name index items ↔
        ∃ i w, items[i]? = some w ∧ AtPlace (name ++ (Step.item (index + i)).text) w e) := by
  have place (name : String) (index : Nat) :
      name ++ "[" ++ toString index ++ "]" = name ++ (Step.item index).text := by
    rw [Step.text, String.append_assoc, String.append_assoc, String.append_assoc]
  apply Value.parts_induction
  case atom =>
    intro a _ name e
    rw [parts, List.mem_singleton, atPlace_leaf rfl rfl]
  case list =>
    intro items ih h name e
    rw [parts, List.mem_cons, ih (h.item rfl), atPlace_items rfl rfl]
    simp
  case pair =>
    intro a b ihFirst ihSecond h name e
    obtain ⟨first, second⟩ : a.Unambiguous ∧ b.Unambiguous := by simpa using h.item rfl
    rw [parts, atPlace_items rfl rfl, List.mem_cons, List.mem_append, ihFirst first,
      ihSecond second]
    refine or_congr_right ⟨?_, ?_⟩
    · rintro (here | here)
      · exact ⟨0, a, rfl, here⟩
      · exact ⟨1, b, rfl, here⟩
    · rintro ⟨_ | _ | index, w, found, here⟩
      · obtain rfl := Option.some.inj found
        exact .inl here
      · obtain rfl := Option.some.inj found
        exact .inr here
      · simp at found
  case map | ordered =>
    intro entries ih h name e
    rw [parts, List.mem_cons, ih fun b hb => ((h.entry rfl).2 b hb).2, atPlace_entries rfl h]
  case set =>
    intro members _ name e
    rw [parts, List.mem_singleton, atPlace_leaf rfl rfl]
  case noEntries =>
    intro _ name e
    simp [entryParts]
  case entry =>
    intro k v rest ihEntry ihEntries h name e
    obtain ⟨first, others⟩ := List.forall_mem_cons.1 h
    rw [entryParts, List.mem_append, ihEntry first, ihEntries others]
    simp
  case noItems =>
    intro _ name index e
    simp [itemParts]
  case item =>
    intro v vs ihItem ihItems h name index e
    obtain ⟨first, others⟩ := List.forall_mem_cons.1 h
    rw [itemParts, List.mem_append, ihItem first, ihItems others, place]
    constructor
    · rintro (here | ⟨i, w, found, here⟩)
      · exact ⟨0, v, rfl, here⟩
      · refine ⟨i + 1, w, found, ?_⟩
        rwa [Nat.add_comm i 1, ← Nat.add_assoc]
    · rintro ⟨_ | i, w, found, here⟩
      · obtain rfl := Option.some.inj found
        exact .inl here
      · refine .inr ⟨i, w, found, ?_⟩
        rwa [Nat.add_comm i 1, ← Nat.add_assoc] at here

section Bind

variable {name : String} {v : Value} (h : v.Unambiguous)
include h

theorem lookup?_place (into : Frame) {path : List Step} {w : Value}
    (there : v.at? path = some w) :
    Mapping.lookup? (placeName name path) (bind (.str name) v into) = some w := by
  have written : (.str (placeName name path), w) ∈ ((.str name, v) :: parts name v).reverse :=
    List.mem_reverse.2 ((mem_parts.1 v h name _).2 ⟨path, there, rfl⟩)
  obtain ⟨u, last⟩ := Option.isSome_iff_exists.1 (Mapping.lookup?_isSome_of_mem written)
  obtain ⟨other, here, same⟩ :=
    (mem_parts.1 v h name _).1 (List.mem_reverse.1 (Mapping.mem_of_lookup? last))
  have paths : path = other :=
    placeName_inj (h.unmarked there) (h.unmarked here) (Key.str_inj.1 same)
  rw [bind_eq_overlay.1, Key.text_str, Mapping.lookup?_overlay, last, Option.some_or, ← here,
    ← paths, there]

end Bind

/-- Such a value can be bound to any name. Binding it writes an entry for each of its places, to the
name of the place, and no other; no two places have one name. In a mapping that is given the other
entries stay as they are. -/
theorem one_entry_for_each_place (name : String) (v : Value) (h : v.Unambiguous) :
    (∀ into, expand (.str name) v into = .ok (bind (.str name) v into)) ∧
    (∀ key w, (key, w) ∈ bind (.str name) v [] ↔
      ∃ path, v.at? path = some w ∧ key = .str (placeName name path)) ∧
    (bind (.str name) v []).Distinct ∧
    (∀ p q, (v.at? p).isSome → (v.at? q).isSome → placeName name p = placeName name q → p = q) ∧
    ∀ into : Frame,
      (∀ path w, v.at? path = some w →
        Mapping.lookup? (placeName name path) (bind (.str name) v into) = some w) ∧
      ∀ others : Key → Bool,
        (∀ path, (v.at? path).isSome → others (.str (placeName name path)) = false) →
        (bind (.str name) v into).filter (fun e => others e.1) =
          into.filter fun e => others e.1 := by
  have written := mem_parts.1 v h name
  have overlaid := bind_eq_overlay.1 v (.str name)
  have distinct : (bind (.str name) v []).Distinct := by
    rw [overlaid]
    exact Mapping.distinct_ofList _
  have named : ∀ e ∈ bind (.str name) v [], (∃ key, e.1 = .str key) ∧ True := by
    rw [overlaid]
    refine @Mapping.forall_mem_overlay (fun k => ∃ key, k = .str key) (fun _ => True) _ []
      (fun e he => ⟨?_, trivial⟩) (List.forall_mem_nil _)
    obtain ⟨path, -, key⟩ := (written e).1 he
    exact ⟨_, key⟩
  refine ⟨fun into => expand_eq_ok_iff.2 ⟨?_, rfl⟩, fun key w => ⟨fun mem => ?_, ?_⟩, distinct,
    fun p q hp hq same => ?_, fun into => ⟨?_, ?_⟩⟩
  · unfold nameable
    rw [h.writableKeys]
    rfl
  · obtain ⟨⟨n, rfl⟩, -⟩ := named _ mem
    have bound := distinct.lookup?_of_mem mem
    rw [overlaid, Mapping.lookup?_overlay, Mapping.lookup?_nil, Option.or_none] at bound
    exact (written _).1 (List.mem_reverse.1 (Mapping.mem_of_lookup? bound))
  · rintro ⟨path, there, rfl⟩
    exact Mapping.mem_of_lookup? (lookup?_place h [] there)
  · obtain ⟨w, hw⟩ := Option.isSome_iff_exists.1 hp
    obtain ⟨u, hu⟩ := Option.isSome_iff_exists.1 hq
    exact placeName_inj (h.unmarked hw) (h.unmarked hu) same
  · exact fun path w there => lookup?_place h into there
  · intro others apart
    rw [overlaid]
    refine Mapping.filter_overlay (fun e he => ?_) into
    obtain ⟨path, there, key⟩ := (written e).1 he
    exact ⟨_, key, apart path (Option.isSome_of_eq_some there)⟩

def user : Value :=
  .map [(.str "tags", .list [.str "a", .map [(.str "", .int 1)]]), (.str "0]", .null)]

theorem unambiguous_user : user.Unambiguous := by
  have tag : Unambiguous (.map [(.str "", .int 1)]) := by
    refine .entries rfl ?_ ?_ (by simpa using .leaf rfl rfl)
    · simp [Mapping.Distinct]
    · simp [Key.str_inj, Unmarked]
  have tags : Unambiguous (.list [.str "a", .map [(.str "", .int 1)]]) :=
    .items rfl (by simpa using ⟨.leaf rfl rfl, tag⟩)
  refine .entries rfl ?_ ?_ (by simpa using ⟨tags, .leaf rfl rfl⟩)
  · simp [Mapping.Distinct, Key.str_inj]
  · simp [Key.str_inj, Unmarked]

theorem user_has_one_entry_for_each_place :
    user.Unambiguous ∧
    (.str "user.tags[1].", .int 1) ∈ bind (.str "user") user [] ∧
    Mapping.lookup? "user.0]" (bind (.str "user") user [(.str "path", .str "a.html")]) =
      some .null :=
  ⟨unambiguous_user,
    ((one_entry_for_each_place "user" user unambiguous_user).2.1 _ _).2
      ⟨[.key "tags", .item 1, .key ""], rfl, rfl⟩,
    ((one_entry_for_each_place "user" user unambiguous_user).2.2.2.2 _).1 [.key "0]"] .null rfl⟩

end Frame

end Stencil
