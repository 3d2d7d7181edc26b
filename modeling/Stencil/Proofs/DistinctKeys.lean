import Stencil.Proofs.Expansion
import Stencil.Proofs.Outcome
import Stencil.Variables

set_option autoImplicit false

/-!
# Keys of data files

A mapping that is read from a JSON or YAML text binds no name twice. An object is a list of members
laid into a mapping. The collections of a YAML document are filled one by one; each is filled with
entries whose keys differ, and that is kept until all are filled.
-/

namespace Stencil

namespace Json

/-- A value that the reader can give. -/
def Given (v : Value) : Prop :=
  ∃ rules fuel depth cs rest, value? rules fuel depth cs = some (v, rest)

variable {rules : Rules}

theorem given_of_members? {fuel depth : Nat} {cs rest : List Char} {es : List (Key × Value)}
    (h : members? rules fuel depth cs = some (es, rest)) : ∀ e ∈ es, Given e.2 := by
  induction fuel generalizing cs es rest with
  | zero => exact nomatch h
  | succ fuel ih =>
    unfold members? at h
    split at h
    · exact nomatch h
    · split at h
      · exact nomatch h
      · rename_i k _ _ v _ read
        have first : Given v := ⟨_, _, _, _, _, read⟩
        split at h
        · rw [← (Prod.mk.inj (Option.some.inj h)).1]
          simpa using first
        · obtain ⟨r, later, same⟩ := Option.map_eq_some_iff.1 h
          rw [← (Prod.mk.inj same).1]
          exact List.forall_mem_cons.2 ⟨first, ih later⟩
        · exact nomatch h

theorem Given.members {m : Mapping} (h : Given (.map m)) : m.Distinct ∧ ∀ e ∈ m, Given e.2 := by
  obtain ⟨rules, fuel, depth, cs, rest, read⟩ := h
  have written {es : List (Key × Value)} (given : ∀ e ∈ es, Given e.2) :
      (Mapping.ofList es).Distinct ∧ ∀ e ∈ Mapping.ofList es, Given e.2 := by
    have entries := @Mapping.forall_mem_overlay (fun _ => True) Given es []
      (fun e he => ⟨trivial, given e he⟩) (List.forall_mem_nil _)
    exact ⟨Mapping.distinct_ofList es, fun e he => (entries e he).2⟩
  cases fuel with
  | zero => cases read
  | succ fuel =>
    unfold value? at read
    split at read
    · obtain ⟨r, -, same⟩ := Option.map_eq_some_iff.1 read
      cases (Prod.mk.inj same).1
    · split at read
      · cases (Prod.mk.inj (Option.some.inj read)).1
      · cases read
      · obtain ⟨r, -, same⟩ := Option.map_eq_some_iff.1 read
        cases (Prod.mk.inj same).1
    · split at read
      · rw [← Value.map.inj (Prod.mk.inj (Option.some.inj read)).1]
        exact @written [] (List.forall_mem_nil _)
      · cases read
      · obtain ⟨r, later, same⟩ := Option.map_eq_some_iff.1 read
        rw [← Value.map.inj (Prod.mk.inj same).1]
        exact written (given_of_members? later)
    · obtain ⟨a, same⟩ := atom_of_scalar? read
      cases same

theorem given_of_readNested? {depth : Nat} {cs : List Char} {v : Value}
    (h : readNested? rules depth cs = some v) : Given v := by
  unfold readNested? at h
  split at h
  · rename_i w rest read
    split at h
    · rw [← Option.some.inj h]
      exact ⟨_, _, _, _, _, read⟩
    · exact nomatch h
  · exact nomatch h

section Steps

variable {fuel depth : Nat} {cs inner later more rest : List Char} {k : Key} {v : Value}
  {es : List (Key × Value)}

theorem value?_object (opens : skipSpace cs = '"' :: inner)
    (members : members? rules fuel depth ('"' :: inner) = some (es, rest)) :
    value? rules (fuel + 1) (depth + 1) ('\x7b' :: cs) = some (.map (Mapping.ofList es), rest) := by
  unfold value?
  simp only [opens]
  change (members? rules fuel depth ('"' :: inner)).map _ = _
  rw [members]
  rfl

theorem members?_cons (key : key? rules cs = some (k, inner))
    (value : value? rules fuel depth inner = some (v, later))
    (comma : skipSpace later = ',' :: more)
    (others : members? rules fuel depth (skipSpace more) = some (es, rest)) :
    members? rules (fuel + 1) depth cs = some ((k, v) :: es, rest) := by
  unfold members?
  simp only [key, value, comma, others]
  rfl

theorem members?_last (key : key? rules cs = some (k, inner))
    (value : value? rules fuel depth inner = some (v, later))
    (closes : skipSpace later = '\x7d' :: rest) :
    members? rules (fuel + 1) depth cs = some ([(k, v)], rest) := by
  unfold members?
  simp only [key, value, closes]

end Steps

end Json

namespace Yaml

def Unrepeated (entries : List (Label × Datum)) : Prop :=
  entries.Pairwise fun a b => a.1.same b.1 = false

def Holding.Unrepeated : Holding → Prop
  | .map entries | .ordered entries => Yaml.Unrepeated entries
  | .list _ | .set _ => True

theorem Label.key_mem_insert {k : Label} {d : Datum} {entries : List (Label × Datum)}
    {e : Label × Datum} (h : e ∈ k.insert d entries) :
    e.1 = k ∨ ∃ old ∈ entries, e.1 = old.1 := by
  induction entries with
  | nil =>
    rw [List.mem_singleton.1 h]
    exact .inl rfl
  | cons first entries ih =>
    obtain ⟨k', d'⟩ := first
    rw [insert] at h
    split at h
    · rcases List.mem_cons.1 h with rfl | later
      · exact .inr ⟨_, List.mem_cons_self, rfl⟩
      · exact .inr ⟨e, List.mem_cons_of_mem _ later, rfl⟩
    · rcases List.mem_cons.1 h with rfl | later
      · exact .inr ⟨_, List.mem_cons_self, rfl⟩
      · refine (ih later).imp_right ?_
        rintro ⟨old, mem, same⟩
        exact ⟨old, List.mem_cons_of_mem _ mem, same⟩

namespace Unrepeated

variable {entries : List (Label × Datum)} {k : Label}

theorem insert (h : Unrepeated entries) (d : Datum) : Unrepeated (k.insert d entries) := by
  induction entries with
  | nil => exact List.pairwise_singleton _ _
  | cons e entries ih =>
    obtain ⟨k', d'⟩ := e
    obtain ⟨first, others⟩ := List.pairwise_cons.1 h
    rw [Label.insert]
    split
    · exact .cons first others
    · rename_i apart
      refine .cons (fun e he => ?_) (ih others)
      rcases Label.key_mem_insert he with same | ⟨old, mem, same⟩
      · rw [same]
        exact Bool.eq_false_iff.2 apart
      · rw [same]
        exact first old mem

theorem concat (h : Unrepeated entries) (new : ¬ k.isBound entries = true) (d : Datum) :
    Unrepeated (entries ++ [(k, d)]) := by
  refine List.pairwise_append.2 ⟨h, List.pairwise_singleton _ _, fun e he e' he' => ?_⟩
  rw [List.mem_singleton.1 he']
  refine Bool.eq_false_iff.2 fun same => new ?_
  exact List.any_eq_true.2 ⟨e, he, same⟩

end Unrepeated

/-- All that the collections hold so far binds each key once. -/
def Making.Sound (s : Making) : Prop :=
  ∀ h ∈ s.holdings, h.Unrepeated

theorem Making.Sound.hold {s : Making} (sound : s.Sound) {h : Holding} (unrepeated : h.Unrepeated)
    {i : Nat} : Making.Sound { s with holdings := s.holdings.setIfInBounds i h } := by
  intro other mem
  rcases Array.mem_or_eq_of_mem_setIfInBounds mem with old | rfl
  · exact sound other old
  · exact unrepeated

namespace Make

variable {α β : Type}

def Keeps (good : α → Prop) (act : Make α) : Prop :=
  ∀ s a t, s.Sound → act.run s = .ok (a, t) → t.Sound ∧ good a

namespace Keeps

variable {good : α → Prop} {fine : β → Prop}

theorem pure {a : α} (h : good a) : Keeps good (Pure.pure a : Make α) := by
  intro s b t sound run
  obtain ⟨rfl, rfl⟩ := Prod.mk.inj (Except.ok.inj run)
  exact ⟨sound, h⟩

theorem throw (f : Fault) : Keeps good (MonadExcept.throw f : Make α) :=
  fun _ _ _ _ run => nomatch run

theorem refuse : Keeps good (Make.refuse : Make α) := throw _

theorem fail (f : Failure) : Keeps good (Make.fail f : Make α) := throw _

theorem bind {x : Make α} {f : α → Make β} (hx : Keeps good x)
    (hf : ∀ a, good a → Keeps fine (f a)) : Keeps fine (x >>= f) := by
  intro s b u sound run
  rw [StateT.run_bind] at run
  obtain ⟨⟨a, t⟩, first, second⟩ := exists_of_bind_eq_ok run
  obtain ⟨kept, ok⟩ := hx s a t sound first
  exact hf a ok t b u kept second

theorem after {x : Make α} {f : α → Make β} (hx : Keeps (fun _ => True) x)
    (hf : ∀ a, Keeps fine (f a)) : Keeps fine (x >>= f) :=
  bind hx fun a _ => hf a

theorem throw_bind (e : Fault) {f : α → Make β} :
    Keeps fine ((MonadExcept.throw e : Make α) >>= f) :=
  bind (@throw _ (fun _ => False) e) fun _ never => never.elim

theorem get : Keeps Making.Sound (MonadState.get : Make Making) := by
  intro s a t sound run
  obtain ⟨rfl, rfl⟩ := Prod.mk.inj (Except.ok.inj run)
  exact ⟨sound, sound⟩

theorem set {s : Making} (h : s.Sound) :
    Keeps (fun _ => True) (MonadStateOf.set s : Make PUnit) := by
  intro _ a t _ run
  obtain ⟨rfl, rfl⟩ := Prod.mk.inj (Except.ok.inj run)
  exact ⟨h, trivial⟩

theorem modify {f : Making → Making} (h : ∀ s, s.Sound → (f s).Sound) :
    Keeps (fun _ => True) (modify f : Make PUnit) := by
  intro s a t sound run
  obtain ⟨rfl, rfl⟩ := Prod.mk.inj (Except.ok.inj run)
  exact ⟨h s sound, trivial⟩

theorem mapM {f : α → Make β} (h : ∀ a, Keeps (fun _ => True) (f a)) (as : List α) :
    Keeps (fun _ => True) (as.mapM f) := by
  induction as with
  | nil =>
    rw [List.mapM_nil]
    exact pure trivial
  | cons a as ih =>
    rw [List.mapM_cons]
    exact bind (h a) fun _ _ => bind ih fun _ _ => pure trivial

theorem foldlM {f : β → α → Make β} (h : ∀ b a, fine b → Keeps fine (f b a)) {b : β}
    (start : fine b) (as : List α) : Keeps fine (as.foldlM f b) := by
  induction as generalizing b with
  | nil => exact pure start
  | cons a as ih =>
    rw [List.foldlM_cons]
    exact bind (h b a start) fun c hc => ih hc

theorem forM {f : α → Make PUnit} (h : ∀ a, Keeps (fun _ => True) (f a)) (as : List α) :
    Keeps (fun _ => True) (as.forM f) := by
  induction as with
  | nil => exact pure trivial
  | cons a as ih => exact after (h a) fun _ => ih

theorem lift (e : Except Fault α) : Keeps (fun _ => True) (liftM e : Make α) := by
  intro s a t sound run
  cases e with
  | error f => exact nomatch run
  | ok b =>
    obtain ⟨rfl, rfl⟩ := Prod.mk.inj (Except.ok.inj run)
    exact ⟨sound, trivial⟩

theorem findM? {f : α → Make Bool} (h : ∀ a, Keeps (fun _ => True) (f a)) (as : List α) :
    Keeps (fun _ => True) (as.findM? f) := by
  induction as with
  | nil => exact pure trivial
  | cons a as ih =>
    unfold List.findM?
    refine after (h a) fun found => ?_
    split
    · exact pure trivial
    · exact ih

end Keeps

theorem keeps_node (i : Nat) : Keeps (fun _ => True) (node i) := by
  unfold node
  refine .bind .get fun s _ => ?_
  split
  · exact .pure trivial
  · exact .refuse

theorem keeps_setNode (i : Nat) (n : Node) : Keeps (fun _ => True) (setNode i n) :=
  .modify fun _ sound => sound

section Merging

variable {flat : Nat → Make Unit} (hflat : ∀ i, Keeps (fun _ => True) (flat i))
include hflat

theorem keeps_entriesOf (i : Nat) : Keeps (fun _ => True) (sources.entriesOf flat i) := by
  unfold sources.entriesOf
  refine .after (keeps_node i) fun n => ?_
  split
  · refine .after (hflat i) fun _ => .after (keeps_node i) fun n => ?_
    split
    · exact .pure trivial
    · exact .refuse
  · exact .refuse

theorem keeps_sources (i : Nat) : Keeps (fun _ => True) (sources flat i) := by
  unfold sources
  refine .after (keeps_node i) fun n => ?_
  split
  · exact keeps_entriesOf hflat i
  · exact .after (.mapM (keeps_entriesOf hflat) _) fun _ => .pure trivial
  · exact .refuse

theorem keeps_takeMerges (i steps place : Nat) (added : List (Nat × Nat)) :
    Keeps (fun _ => True) (takeMerges flat i steps place added) := by
  induction steps generalizing place added with
  | zero => exact .pure trivial
  | succ steps ih =>
    unfold takeMerges
    refine .after (keeps_node i) fun n => ?_
    split
    · split
      · exact .pure trivial
      · rename_i k v _
        refine .after (keeps_node k) fun keyNode => ?_
        split
        · split
          · exact .after (keeps_setNode _ _) fun _ =>
              .after (keeps_sources hflat v) fun _ => ih _ _
          · exact .throw_bind _
        · exact .after (keeps_setNode _ _) fun _ => ih _ _
        · exact ih _ _
    · exact .pure trivial

end Merging

theorem keeps_flatten (fuel i : Nat) : Keeps (fun _ => True) (flatten fuel i) := by
  induction fuel generalizing i with
  | zero => exact .fail _
  | succ fuel ih =>
    unfold flatten
    refine .after (keeps_node i) fun n => ?_
    split
    · refine .after (keeps_takeMerges ih i _ _ _) fun added => ?_
      split
      · exact .pure trivial
      · refine .after (keeps_node i) fun n => ?_
        split
        · exact keeps_setNode _ _
        · exact .pure trivial
    · exact .pure trivial

theorem keeps_textOf (fuel i : Nat) : Keeps (fun _ => True) (textOf fuel i) := by
  induction fuel generalizing i with
  | zero => exact .fail _
  | succ fuel ih =>
    unfold textOf
    refine .after (keeps_node i) fun n => ?_
    split
    · exact .pure trivial
    · refine .after (.findM? (fun e => ?_) _) fun found => ?_
      · exact .after (keeps_node _) fun _ => .pure trivial
      · split
        · exact ih _
        · exact .refuse
    · exact .refuse

theorem keeps_atom (n : Node) (i : Nat) : Keeps (fun _ => True) (atom n i) := by
  have text : Keeps (fun _ => True) (atomText n i) := by
    unfold atomText
    split
    · exact .pure trivial
    · exact .refuse
    · exact .refuse
    · exact .refuse
    · exact .refuse
    · exact .bind .get fun s _ => keeps_textOf _ i
  unfold atom
  exact .after text fun text => .bind .get fun s _ => .after (.lift _) fun a => .pure trivial

theorem keeps_keyItems (d : Datum) : Keeps (fun _ => True) (keyItems d) := by
  unfold keyItems
  split
  · exact .pure trivial
  · exact .pure trivial
  · refine .bind .get fun s _ => ?_
    split
    · exact .pure trivial
    · exact .refuse

theorem keeps_label (items : List Datum ⊕ Label) : Keeps (fun _ => True) (label items) := by
  unfold label
  split
  · exact .pure trivial
  · split
    · exact .pure trivial
    · exact .fail _

theorem keeps_entryOf (i : Nat) : Keeps (fun _ => True) (entryOf i) := by
  unfold entryOf
  refine .after (keeps_node i) fun n => ?_
  split
  · exact .pure trivial
  · exact .refuse

theorem keeps_itemsOf (n : Node) : Keeps (fun _ => True) (itemsOf n) := by
  unfold itemsOf
  split
  · exact .pure trivial
  · exact .refuse

section Filling

variable {make : Bool → Nat → Make Datum} (hmake : ∀ full i, Keeps (fun _ => True) (make full i))
include hmake

theorem keeps_bindEntries (full distinct : Bool) (entries : List (Nat × Nat)) :
    Keeps Unrepeated (bindEntries make full distinct entries) := by
  refine .foldlM (fun bound e unrepeated => ?_) .nil entries
  refine .after (hmake true e.1) fun k => .after (keeps_keyItems k) fun items =>
    .after (hmake full e.2) fun d => .after (keeps_label items) fun k => ?_
  split
  · exact .throw_bind _
  · exact .pure (unrepeated.insert d)

theorem keeps_mappingEntries (full : Bool) (i : Nat) :
    Keeps Unrepeated (mappingEntries make full i) := by
  unfold mappingEntries
  have fuel : Keeps (fun _ => True) mergeFuel := .bind .get fun s _ => .pure trivial
  refine .after fuel fun fuel => .after (keeps_flatten fuel i) fun _ =>
    .after (keeps_node i) fun n => ?_
  split
  · exact keeps_bindEntries hmake _ _ _
  · exact .refuse

theorem keeps_holding (full : Bool) (i : Nat) :
    Keeps Holding.Unrepeated (holding make full i) := by
  unfold holding
  refine .after (keeps_node i) fun n => ?_
  split
  · exact .after (keeps_itemsOf n) fun items => .after (.mapM (hmake full) items) fun _ =>
      .pure trivial
  · refine .after (keeps_itemsOf n) fun items => .after (.mapM (fun item => ?_) items) fun _ =>
      .pure trivial
    exact .after (keeps_entryOf item) fun e => .after (hmake full e.1) fun k =>
      .after (hmake full e.2) fun v => .pure trivial
  · refine .after (keeps_itemsOf n) fun items =>
      .bind (.foldlM (fun bound item unrepeated => ?_) .nil items) fun entries unrepeated =>
        .pure unrepeated
    refine .after (keeps_entryOf item) fun e => .after (hmake full e.1) fun k => ?_
    split
    · exact .fail _
    · split
      · exact .throw_bind _
      · rename_i new
        exact .after (hmake full e.2) fun v => .pure (unrepeated.concat new v)
  · exact .bind (keeps_mappingEntries hmake full i) fun _ unrepeated => .pure unrepeated
  · exact .bind (keeps_mappingEntries hmake full i) fun _ _ => .pure trivial
  · exact .refuse

theorem keeps_fill (full : Bool) (i : Nat) : Keeps (fun _ => True) (fill make full i) :=
  .bind (keeps_holding hmake full i) fun _ unrepeated =>
    .modify fun _ sound => sound.hold unrepeated

end Filling

theorem unrepeated_of_emptyHolding? {tag : Tag} {h : Holding} (empty : emptyHolding? tag = some h) :
    h.Unrepeated := by
  unfold emptyHolding? at empty
  split at empty <;> cases empty
  all_goals first
    | exact trivial
    | exact List.Pairwise.nil

theorem keeps_datum (fuel : Nat) (full : Bool) (i : Nat) :
    Keeps (fun _ => True) (datum fuel full i) := by
  induction fuel generalizing full i with
  | zero => exact .fail _
  | succ fuel ih =>
    unfold datum
    refine .bind .get fun s sound => ?_
    split
    · exact .pure trivial
    · split
      · exact .pure trivial
      · have done (d : Datum) : Make.Keeps (fun _ => True) (do
            modify fun s =>
              { s with made := s.made.setIfInBounds i (some d), busy := s.busy.erase i }
            return d) :=
          .after (.modify fun _ sound => sound) fun _ => .pure trivial
        refine .after (.set sound) fun _ => .after (keeps_node i) fun n => ?_
        split
        · exact .after (keeps_atom n i) done
        · rename_i h empty
          have unrepeated := unrepeated_of_emptyHolding? empty
          refine .after (.modify fun _ sound => sound.hold unrepeated) fun _ => ?_
          split
          · exact .after (keeps_fill ih true i) fun _ => .after (.pure trivial) done
          · exact .after (.modify fun _ sound => sound) fun _ => .after (.pure trivial) done

theorem keeps_rounds (depth fuel : Nat) : Keeps (fun _ => True) (rounds depth fuel) := by
  induction fuel with
  | zero => exact .pure trivial
  | succ fuel ih =>
    unfold rounds
    refine .bind .get fun s sound => ?_
    split
    · exact .pure trivial
    · exact .after (.set sound) fun _ =>
        .after (.forM (keeps_fill (keeps_datum depth) false) _) fun _ => ih

end Make

namespace Document

theorem unrepeated_of_ofGraph {g : Graph} {d : Document} (h : ofGraph g = .ok d) :
    ∀ held ∈ d.holdings, held.Unrepeated := by
  obtain ⟨⟨root, s⟩, run, same⟩ := exists_of_bind_eq_ok h
  have keeps : Make.Keeps (fun _ => True) (do
      let d ← Make.datum (g.nodes.size + 1) false g.root
      Make.rounds (g.nodes.size + 1) (g.nodes.size + 1)
      return d) :=
    .after (Make.keeps_datum _ _ _) fun d => .after (Make.keeps_rounds _ _) fun _ => .pure trivial
  have empty : Making.Sound ⟨g.nodes, g.modern, Array.replicate g.nodes.size none, [],
      Array.replicate g.nodes.size (.list []), []⟩ := by
    intro held mem
    rw [Array.eq_of_mem_replicate mem]
    trivial
  rw [← Except.ok.inj same]
  exact (keeps _ root s empty run).1

end Document

namespace Label

theorem eq_of_key_eq_str {k : Label} {name : String} (h : k.key = .str name) :
    ∃ origin, k = .atom (.str name) origin := by
  cases k with
  | atom a origin =>
    obtain rfl := Key.atom.inj h
    exact ⟨origin, rfl⟩
  | row items => exact nomatch h

end Label

theorem Unrepeated.distinct {entries : List (Label × Datum)} (h : Unrepeated entries)
    {f : Label × Datum → Except Fault (Key × Value)} {m : Mapping}
    (keyed : ∀ e b, f e = .ok b → b.1 = e.1.key) (read : entries.mapM f = .ok m) : m.Distinct := by
  induction entries generalizing m with
  | nil =>
    rw [← Except.ok.inj read]
    exact .nil
  | cons e entries ih =>
    obtain ⟨first, others⟩ := List.pairwise_cons.1 h
    rw [List.mapM_cons] at read
    obtain ⟨b, here, read⟩ := exists_of_bind_eq_ok read
    obtain ⟨bs, later, read⟩ := exists_of_bind_eq_ok read
    rw [← Except.ok.inj read]
    refine .cons (fun b' mem name named again => ?_) (ih others later)
    obtain ⟨e', mem', here'⟩ := exists_of_mem_mapM later b' mem
    rw [keyed e b here] at named
    rw [keyed e' b' here'] at again
    obtain ⟨origin, own⟩ := Label.eq_of_key_eq_str named
    obtain ⟨origin', other⟩ := Label.eq_of_key_eq_str again
    have apart := first e' mem'
    rw [own, other] at apart
    exact absurd (beq_self_eq_true name) (Bool.eq_false_iff.1 apart)

/-- A value that has entries is that of a collection, and the keys of the entries are the keys that
the collection holds. -/
theorem Datum.distinct_of_value {holdings : Array Holding} (sound : ∀ h ∈ holdings, h.Unrepeated)
    {fuel : Nat} {d : Datum} {v : Value} {m : Mapping} (read : d.value holdings fuel = .ok v)
    (entries : v.entries? = some m) : m.Distinct := by
  cases d with
  | atom a origin =>
    rw [value] at read
    rw [← Except.ok.inj read] at entries
    cases entries
  | pair a b =>
    rw [value] at read
    obtain ⟨_, -, read⟩ := exists_of_bind_eq_ok read
    obtain ⟨_, -, read⟩ := exists_of_bind_eq_ok read
    rw [← Except.ok.inj read] at entries
    cases entries
  | collection i =>
    cases fuel with
    | zero =>
      rw [value] at read
      cases read
    | succ fuel =>
      have distinct {es : List (Label × Datum)} {m : Mapping} (unrepeated : Unrepeated es)
          (h : es.mapM (fun e => (e.2.value holdings fuel).map fun v => (e.1.key, v)) = .ok m) :
          m.Distinct := by
        refine unrepeated.distinct (fun e b here => ?_) h
        obtain ⟨w, -, rfl⟩ := map_eq_ok_iff.1 here
        rfl
      rw [value] at read
      simp only at read
      split at read
      · obtain ⟨_, -, rfl⟩ := map_eq_ok_iff.1 read
        cases entries
      · rename_i es held
        obtain ⟨_, bound, rfl⟩ := map_eq_ok_iff.1 read
        rw [← Option.some.inj entries]
        exact distinct (sound _ (Array.mem_of_getElem? held)) bound
      · rename_i es held
        obtain ⟨_, bound, rfl⟩ := map_eq_ok_iff.1 read
        rw [← Option.some.inj entries]
        exact distinct (sound _ (Array.mem_of_getElem? held)) bound
      · rw [← Except.ok.inj read] at entries
        cases entries
      · cases read

theorem distinct_of_readMapping? {text : String} {m : Mapping}
    (h : readMapping? text = .ok (some m)) : m.Distinct := by
  obtain ⟨graph, -, h⟩ := exists_of_bind_eq_ok h
  cases graph with
  | none =>
    rw [← Option.some.inj (Except.ok.inj h)]
    exact .nil
  | some g =>
    obtain ⟨d, made, h⟩ := exists_of_bind_eq_ok h
    have sound := Document.unrepeated_of_ofGraph made
    unfold Document.mapping? at h
    split at h
    · split at h
      · rw [← Option.some.inj (Except.ok.inj h)]
        exact .nil
      · exact nomatch h
    · split at h
      · rw [← Option.some.inj (Except.ok.inj h)]
        exact .nil
      · exact nomatch h
    · obtain ⟨v, read, h⟩ := map_eq_ok_iff.1 h
      split at h
      · rename_i entries found
        rw [← Option.some.inj h]
        exact Datum.distinct_of_value sound read found
      · split at h
        · exact nomatch h
        · rw [← Option.some.inj h]
          exact .nil

end Yaml

theorem DataFile.distinct_of_readJson {t : FileTree} {p : Path} {m : Mapping}
    (h : readJson t p = .ok m) : m.Distinct := by
  unfold readJson at h
  split at h
  · exact nomatch h
  · exact nomatch h
  · split at h
    · exact nomatch h
    · rename_i entries read
      rw [← Except.ok.inj h]
      exact (Json.given_of_readNested? read).members.1
    · exact nomatch h

theorem DataFile.distinct_of_readYaml {t : FileTree} {p : Path} {m : Mapping}
    (h : readYaml t p = .ok m) : m.Distinct := by
  obtain ⟨text, -, h⟩ := exists_of_bind_eq_ok h
  split at h
  · exact nomatch h
  · exact nomatch h
  · rename_i entries read
    rw [← Except.ok.inj h]
    exact Yaml.distinct_of_readMapping? read
  · exact nomatch h

theorem Variables.distinct_of_load {t : FileTree} {p : Path} {m : Mapping}
    (h : load t p = .ok m) : m.Distinct := by
  unfold load at h
  split at h
  · exact nomatch h
  · split at h
    · exact DataFile.distinct_of_readJson h
    · exact DataFile.distinct_of_readYaml h

end Stencil
