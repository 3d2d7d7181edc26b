import Stencil.Proofs.Expansion
import Stencil.Proofs.Outcome
import Stencil.Schema

set_option autoImplicit false

/-!
# Values that fit

A shape makes of a value one that fits it, or refuses it. What fits is defined here without a path
and without failures, and it is what a shape leaves as it is; so nothing changes when a value is
taken by the same shape again, wherever it stands.
-/

namespace Stencil

namespace Shape

variable {path : List String}

section Fitting

def fitEntry (keys values : Shape) (path : List String) (entry : Key × Value) :
    Except Failure (Key × Value) := do
  let k ← fitKey (path ++ ["<key>"]) keys entry.1
  let v ← fit values (path ++ [k.text]) entry.2
  return (k, v)

theorem foldlM_insert (f : Key × Value → Except Failure (Key × Value)) (entries lower : Mapping) :
    (entries.foldlM (fun done entry => f entry >>= fun e => pure (Mapping.insert e.1 e.2 done))
      lower : Except Failure Mapping) =
      (entries.mapM f).map fun fitted => Mapping.overlay fitted lower := by
  induction entries generalizing lower with
  | nil => rfl
  | cons entry entries ih =>
    rw [List.foldlM_cons, List.mapM_cons]
    cases f entry with
    | error e => rfl
    | ok e =>
      change List.foldlM _ (Mapping.insert e.1 e.2 lower) entries = _
      rw [ih]
      change _ = (entries.mapM f >>= fun es => pure (e :: es)).map _
      cases entries.mapM f with
      | error e => rfl
      | ok es => rfl

theorem fit_mapping (keys values : Shape) {v : Value} {entries : Mapping}
    (h : v.entries? = some entries) :
    (mapping keys values).fit path v =
      (entries.mapM (fitEntry keys values path)).map
        fun fitted => .map (Mapping.ofList fitted) := by
  have read : (mapping keys values).fit path (.map entries) =
      (entries.mapM (fitEntry keys values path)).map
        fun fitted => .map (Mapping.ofList fitted) := by
    have each := foldlM_insert (fitEntry keys values path) entries []
    have step : (fun (done : Mapping) entry => fitEntry keys values path entry >>= fun e =>
          (pure (Mapping.insert e.1 e.2 done) : Except Failure Mapping)) =
        fun done entry => do
          let k ← fitKey (path ++ ["<key>"]) keys entry.1
          let v ← fit values (path ++ [k.text]) entry.2
          return Mapping.insert k v done := by
      funext done entry
      unfold fitEntry
      simp only [bind_assoc, pure_bind]
    rw [step] at each
    rw [fit, each]
    cases entries.mapM (fitEntry keys values path) with
    | error e => rfl
    | ok es => rfl
  cases v with
  | map m =>
    obtain rfl := Option.some.inj h
    exact read
  | ordered m =>
    obtain rfl := Option.some.inj h
    exact read
  | atom a => exact nomatch h
  | list items => exact nomatch h
  | pair a b => exact nomatch h
  | set members => exact nomatch h

end Fitting

def FitsAtom : Shape → Atom → Prop
  | any, _ => True
  | bool, a => ∃ b, a = .bool b
  | text, a => ∃ s, a = .str s
  | oneOf choices, a => ∃ choice ∈ choices, a.same choice = true
  | mapping .., _ => False

/-- What a key has to be. Rows fit where nothing is asked. -/
def FitsKey : Shape → Key → Prop
  | any, _ => True
  | s, .atom a => s.FitsAtom a
  | _, .row _ => False

def Fits : Shape → Value → Prop
  | any, _ => True
  | mapping keys values, .map m =>
    Mapping.Unrepeated m ∧ ∀ e ∈ m, keys.FitsKey e.1 ∧ values.Fits e.2
  | s, .atom a => s.FitsAtom a
  | _, _ => False

section Atoms

variable {s : Shape} {a b : Atom}

theorem fitsAtom_of_fitAtom (h : fitAtom path s a = .ok b) : s.FitsAtom b := by
  cases s with
  | any => trivial
  | bool =>
    cases a with
    | bool given => exact ⟨given, (Except.ok.inj h).symm⟩
    | _ => exact nomatch h
  | text =>
    cases a with
    | str given => exact ⟨given, (Except.ok.inj h).symm⟩
    | int n =>
      obtain ⟨cs, -, rfl⟩ := map_eq_ok_iff.1 h
      exact ⟨_, rfl⟩
    | float x => exact ⟨_, (Except.ok.inj h).symm⟩
    | _ => exact nomatch h
  | oneOf choices =>
    rw [fitAtom] at h
    split at h
    · rename_i chosen
      rw [← Except.ok.inj h]
      exact List.any_eq_true.1 chosen
    · exact nomatch h
  | mapping keys values => exact nomatch h

theorem fitAtom_of_fits (h : s.FitsAtom a) : fitAtom path s a = .ok a := by
  cases s with
  | any => rfl
  | bool =>
    obtain ⟨given, rfl⟩ := h
    rfl
  | text =>
    obtain ⟨given, rfl⟩ := h
    rfl
  | oneOf choices => rw [fitAtom, if_pos (List.any_eq_true.2 h)]
  | mapping keys values => exact h.elim

end Atoms

section Keys

variable {s : Shape} {k k' : Key}

theorem fitKey_atom (a : Atom) : fitKey path s (.atom a) = (fitAtom path s a).map .atom := by
  cases s <;> rfl

theorem fitsKey_atom (a : Atom) : s.FitsKey (.atom a) ↔ s.FitsAtom a := by
  cases s <;> rfl

theorem fitsKey_of_fitKey (h : fitKey path s k = .ok k') : s.FitsKey k' := by
  cases k with
  | atom a =>
    rw [fitKey_atom] at h
    obtain ⟨b, fitted, rfl⟩ := map_eq_ok_iff.1 h
    exact (fitsKey_atom b).2 (fitsAtom_of_fitAtom fitted)
  | row items =>
    cases s with
    | any => trivial
    | _ => exact nomatch h

theorem fitKey_of_fits (h : s.FitsKey k) : fitKey path s k = .ok k := by
  cases k with
  | atom a =>
    rw [fitKey_atom, fitAtom_of_fits ((fitsKey_atom a).1 h)]
    rfl
  | row items =>
    cases s with
    | any => rfl
    | _ => exact h.elim

end Keys

section Values

variable {s : Shape} {v w : Value}

theorem fit_atom (s : Shape) (a : Atom) :
    s.fit path (.atom a) = (fitAtom path s a).map .atom := by
  cases s <;> rfl

theorem fits_atom (s : Shape) (a : Atom) : s.Fits (.atom a) ↔ s.FitsAtom a := by
  cases s <;> rfl

theorem exists_of_fit_mapping {keys values : Shape} (h : (mapping keys values).fit path v = .ok w) :
    ∃ entries fitted, v.entries? = some entries ∧
      entries.mapM (fitEntry keys values path) = .ok fitted ∧ w = .map (Mapping.ofList fitted) := by
  cases given : v.entries? with
  | some entries =>
    rw [fit_mapping keys values given] at h
    obtain ⟨fitted, read, rfl⟩ := map_eq_ok_iff.1 h
    exact ⟨entries, fitted, rfl, read, rfl⟩
  | none =>
    cases v with
    | map m => exact nomatch given
    | ordered m => exact nomatch given
    | _ => exact nomatch h

theorem exists_of_fitEntry {keys values : Shape} {entry e : Key × Value}
    (h : fitEntry keys values path entry = .ok e) :
    fitKey (path ++ ["<key>"]) keys entry.1 = .ok e.1 ∧
      values.fit (path ++ [e.1.text]) entry.2 = .ok e.2 := by
  obtain ⟨k, key, h⟩ := exists_of_bind_eq_ok h
  obtain ⟨v, value, h⟩ := exists_of_bind_eq_ok h
  rw [← Except.ok.inj h]
  exact ⟨key, value⟩

theorem fits_of_fit (h : s.fit path v = .ok w) : s.Fits w := by
  induction s generalizing path v w with
  | any => trivial
  | mapping keys values _ ih =>
    obtain ⟨entries, fitted, -, read, rfl⟩ := exists_of_fit_mapping h
    have each : ∀ e ∈ fitted, keys.FitsKey e.1 ∧ values.Fits e.2 := by
      intro e mem
      obtain ⟨entry, -, made⟩ := exists_of_mem_mapM read e mem
      obtain ⟨key, value⟩ := exists_of_fitEntry made
      exact ⟨fitsKey_of_fitKey key, ih value⟩
    exact ⟨Mapping.unrepeated_overlay fitted .nil,
      Mapping.forall_mem_overlay each (List.forall_mem_nil _)⟩
  | bool | text | oneOf =>
    cases v with
    | atom a =>
      rw [fit_atom] at h
      obtain ⟨b, fitted, rfl⟩ := map_eq_ok_iff.1 h
      exact (fits_atom _ b).2 (fitsAtom_of_fitAtom fitted)
    | _ => exact nomatch h

theorem mapM_of_forall {α : Type} {f : α → Except Failure α} {as : List α}
    (h : ∀ a ∈ as, f a = .ok a) : as.mapM f = .ok as := by
  induction as with
  | nil => rfl
  | cons a as ih =>
    obtain ⟨first, others⟩ := List.forall_mem_cons.1 h
    rw [List.mapM_cons, first, ih others]
    rfl

theorem fit_of_fits (h : s.Fits w) (path : List String) : s.fit path w = .ok w := by
  induction s generalizing path w with
  | any => rfl
  | mapping keys values _ ih =>
    cases w with
    | map m =>
      obtain ⟨unrepeated, each⟩ := h
      have kept : ∀ e ∈ m, fitEntry keys values path e = .ok e := by
        intro e mem
        obtain ⟨key, value⟩ := each e mem
        rw [fitEntry, fitKey_of_fits key]
        change fit values (path ++ [e.1.text]) e.2 >>= _ = _
        rw [ih value]
        rfl
      rw [fit_mapping keys values (show (Value.map m).entries? = some m from rfl),
        mapM_of_forall kept]
      exact congrArg (fun m => Except.ok (Value.map m)) (Mapping.ofList_of_unrepeated unrepeated)
    | _ => exact h.elim
  | bool | text | oneOf =>
    cases w with
    | atom a =>
      rw [fit_atom, fitAtom_of_fits ((fits_atom _ a).1 h)]
      rfl
    | _ => exact h.elim

end Values

/-- What a shape makes of a value fits the shape, and the shape takes it as it is from then on,
wherever it stands. -/
theorem fitting_again_changes_nothing {s : Shape} {v w : Value} (h : s.fit path v = .ok w)
    (path' : List String) : s.Fits w ∧ s.fit path' w = .ok w :=
  ⟨fits_of_fit h, fit_of_fits (fits_of_fit h) path'⟩

section Example

def flags : Shape := .mapping .text (.mapping (.oneOf [.int 1, .str "on"]) .bool)

def givenFlags : Value :=
  .ordered [(.atom (.int 7), .map []),
    (.atom (.float (.finite false 1 (-1))), .map [(.atom (.bool true), .bool false)]),
    (.str "7", .map [(.str "on", .bool true)])]

def takenFlags : Value :=
  .map [(.str "7", .map [(.str "on", .bool true)]),
    (.str "0.5", .map [(.atom (.bool true), .bool false)])]

theorem flags_are_taken_again :
    flags.fit ["a"] givenFlags = .ok takenFlags ∧ flags.Fits takenFlags ∧
      flags.fit [] takenFlags = .ok takenFlags := by
  have taken : flags.fit ["a"] givenFlags = .ok takenFlags := by rfl
  exact ⟨taken, fitting_again_changes_nothing taken []⟩

end Example

end Shape

end Stencil
