import Stencil.Compile
import Stencil.Proofs.Outcome

set_option autoImplicit false

/-!
# What is reported

Almost all that fails when parameters, texts and files are read is reported to the user. What is
not comes from values that cannot be worked with: those that no text stands for, and whole numbers
beyond all floating-point numbers.
-/

namespace Stencil

/-- A reading fails, if at all, for one of the given causes. -/
def FailsOnly {α : Type} (P : Failure → Prop) (e : Except Failure α) : Prop :=
  ∀ f, e = .error f → P f

abbrev Reports {α : Type} (e : Except Failure α) : Prop :=
  FailsOnly (fun f => f.reported = true) e

namespace FailsOnly

variable {α β : Type} {P : Failure → Prop}

theorem ok (a : α) : FailsOnly P (.ok a : Except Failure α) := nofun

theorem error {f : Failure} (h : P f) : FailsOnly P (.error f : Except Failure α) := by
  intro g same
  rw [← Except.error.inj same]
  exact h

theorem imp {Q : Failure → Prop} {x : Except Failure α} (h : FailsOnly P x)
    (weaker : ∀ f, P f → Q f) : FailsOnly Q x :=
  fun f failed => weaker f (h f failed)

theorem bind {x : Except Failure α} {g : α → Except Failure β} (hx : FailsOnly P x)
    (hg : ∀ a, x = .ok a → FailsOnly P (g a)) : FailsOnly P (x >>= g) := by
  cases x with
  | error f => exact error (hx f rfl)
  | ok a => exact hg a rfl

theorem map {x : Except Failure α} (hx : FailsOnly P x) (g : α → β) : FailsOnly P (x.map g) := by
  cases x with
  | error f => exact error (hx f rfl)
  | ok a => exact ok (g a)

theorem mapM {g : α → Except Failure β} {as : List α} (h : ∀ a ∈ as, FailsOnly P (g a)) :
    FailsOnly P (as.mapM g) := by
  induction as with
  | nil => exact ok []
  | cons a as ih =>
    obtain ⟨first, others⟩ := List.forall_mem_cons.1 h
    rw [List.mapM_cons]
    exact bind first fun b _ => bind (ih others) fun bs _ => ok (b :: bs)

end FailsOnly

theorem Reports.elim {α : Type} {e : Except Failure α} {f : Failure} (h : Reports e)
    (failed : e = .error f) (unreported : f.reported = false) : False := by
  have reported : f.reported = true := h f failed
  exact nomatch unreported.symm.trans reported

/-- What reading fails for: a directive with a fault, a number with too many digits, a component
that is not there, or a path or a file that is not text. -/
inductive Failure.OfReading : Failure → Prop
  | directive (fault : DirectiveFault) : OfReading (.directive fault)
  | digits (n : Option Nat) : OfReading (.tooManyDigits n)
  | component (component : String) (path : Option String) :
    OfReading (.componentNotFound component path)
  | fileName (name : String) : OfReading (.invalidFileName name)
  | path : OfReading .nullInPath
  | file (fault : Text.Utf8Fault) : OfReading (.undecodable fault)

theorem Failure.OfReading.reported {f : Failure} (h : f.OfReading) : f.reported = true := by
  cases h <;> rfl

abbrev FailsReading {α : Type} (e : Except Failure α) : Prop :=
  FailsOnly Failure.OfReading e

theorem FailsOnly.reports {α : Type} {e : Except Failure α} (h : FailsReading e) : Reports e :=
  h.imp fun _ => Failure.OfReading.reported

theorem Condition.failsReading_ofParameters (parameters : Option String) :
    FailsReading (ofParameters parameters) := by
  unfold ofParameters
  split
  · exact .error (.directive _)
  · split
    · exact .error (.directive _)
    · split
      · exact .ok _
      · exact .error (.directive _)

namespace Compile

theorem failsReading_argument (e : Extension) (parameters : Option String) :
    FailsReading (argument e parameters) := by
  unfold argument
  simp only
  split
  · split
    · exact .error (.directive _)
    · exact .ok _
  · exact .ok _

theorem failsReading_unlessName (parameters : Option String) :
    FailsReading (unlessName parameters) := by
  refine .bind (Condition.failsReading_ofParameters parameters) fun c _ => ?_
  cases c.comparison.isSome with
  | true => exact .error (.directive _)
  | false => exact .ok _

end Compile

theorem Arguments.failsReading_checkReserved (bindings : Mapping) :
    FailsReading (checkReserved bindings) := by
  unfold checkReserved
  split
  · exact .error (.directive _)
  · exact .ok _

theorem Meta.failsReading_ofParameters (parameters : Option String) :
    FailsReading (ofParameters parameters) := by
  unfold ofParameters
  split
  · exact .error (.directive _)
  · split
    · exact .error (.directive _)
    · split
      · split
        · exact .ok _
        · exact .error (.directive _)
        · exact .error (.directive _)
      · exact .error (.directive _)

namespace Arguments

theorem failsReading_number? {cs : List Char} {r : Except Failure Value × List Char}
    (h : number? cs = some r) : FailsReading r.1 := by
  have integer (digits : List Char) (v : Value) :
      FailsReading (if Text.maxDigits < digits.length then
          .error (.tooManyDigits (some digits.length))
        else .ok v : Except Failure Value) := by
    split
    · exact .error (.digits _)
    · exact .ok _
  unfold number? at h
  simp only at h
  split at h
  all_goals
    split at h
    · exact nomatch h
    · split at h
      · split at h
        · rw [← Option.some.inj h]
          exact integer _ _
        · rw [← Option.some.inj h]
          exact .ok _
      · rw [← Option.some.inj h]
        exact integer _ _

theorem failsReading_value? {cs : List Char} {r : Except Failure Value × List Char}
    (h : value? cs = some r) : FailsReading r.1 := by
  unfold value? at h
  split at h
  · rw [← Option.some.inj h]
    exact .ok _
  · rw [← Option.some.inj h]
    exact .ok _
  · rw [← Option.some.inj h]
    exact .ok _
  · split at h
    · rw [← Option.some.inj h]
      exact .ok _
    · exact failsReading_number? h

theorem failsReading_pairs (skip : Nat) (cs : List Char) :
    ∀ p ∈ pairs skip cs, FailsReading p.2 := by
  induction cs generalizing skip with
  | nil => exact nofun
  | cons c cs ih =>
    cases skip with
    | succ skip => exact ih skip
    | zero =>
      rw [pairs]
      cases read : pair? (c :: cs) with
      | none => exact ih 0
      | some p =>
        refine List.forall_mem_cons.2 ⟨?_, ih _⟩
        unfold pair? at read
        split at read
        · exact nomatch read
        · obtain ⟨q, value, rfl⟩ := Option.map_eq_some_iff.1 read
          exact failsReading_value? value
        · exact nomatch read

theorem failsReading_bindPairs (into : Mapping) (ps : List (String × Except Failure Value))
    (h : ∀ p ∈ ps, FailsReading p.2) : FailsReading (bindPairs into ps) := by
  induction ps generalizing into with
  | nil => exact .ok _
  | cons p ps ih =>
    obtain ⟨first, others⟩ := List.forall_mem_cons.1 h
    exact .bind first fun v _ => ih _ others

theorem failsOnly_ofText (text : String) :
    FailsOnly (fun f => f.OfReading ∨ f = .loneSurrogate) (ofText text) := by
  unfold ofText
  split
  · exact .ok _
  · exact .ok _
  · split
    · exact .error (.inr rfl)
    · have pairs := failsReading_bindPairs [] _ (failsReading_pairs 0 text.toList)
      exact .map (pairs.imp fun _ => .inl) _

end Arguments

theorem RenderCall.failsOnly_ofParameters (parameters : Option String) :
    FailsOnly (fun f => f.OfReading ∨ f = .loneSurrogate) (ofParameters parameters) := by
  unfold ofParameters
  simp only
  split
  · exact .error (.inl (.directive _))
  · split
    · exact .ok _
    · split
      · exact .ok _
      · exact .map (Arguments.failsOnly_ofText _) _
    · exact .error (.inl (.directive _))

theorem FileTree.failsReading_resolve (t : FileTree) (p : Path) : FailsReading (t.resolve p) := by
  unfold resolve
  split
  · exact .error .path
  · exact .ok _

theorem FileTree.failsReading_readText {t : FileTree} {p : Path} (h : t.isFile p = true) :
    FailsReading (t.readText p) := by
  unfold isFile at h
  unfold readText textOf
  split at h
  · rename_i found
    rw [found]
    simp only
    split
    · exact .ok _
    · exact .error (.file _)
  · exact nomatch h

theorem Component.failsReading_load (t : FileTree) (current : Option String) (component : String)
    (indentation : Nat) (extension : String) :
    FailsReading (load t current component indentation extension) := by
  have find (p : Path) : FailsReading (Component.find t p extension) := by
    unfold Component.find
    simp only
    split
    · exact .ok _
    · split
      · exact .error (.fileName _)
      · exact .ok _
  refine .bind (t.failsReading_resolve _) fun resolved _ => .bind (find resolved) fun path _ => ?_
  cases isFile : t.isFile path with
  | true => exact .bind (FileTree.failsReading_readText isFile) fun contents _ => .ok _
  | false => exact .error (.component _ _)

/-- The atoms that JSON has no form for. -/
def Atom.Foreign : Atom → Prop
  | .bytes _ | .date _ | .moment _ => True
  | _ => False

def Key.Foreign : Key → Prop
  | .atom a => a.Foreign
  | .row _ => True

namespace Value

mutual

/-- The value holds a day, a moment, bytes, a set or a row that is a key. -/
def Foreign : Value → Prop
  | .atom a => a.Foreign
  | .list items => ForeignItem items
  | .pair a b => Foreign a ∨ Foreign b
  | .map entries | .ordered entries => ForeignEntry entries
  | .set _ => True

def ForeignItem : List Value → Prop
  | [] => False
  | v :: vs => Foreign v ∨ ForeignItem vs

def ForeignEntry : List (Key × Value) → Prop
  | [] => False
  | (k, v) :: rest => k.Foreign ∨ Foreign v ∨ ForeignEntry rest

end

end Value

namespace Json

variable {P : Failure → Prop}

theorem failsOnly_ofInt (digits : P (.tooManyDigits none)) (n : Int) : FailsOnly P (ofInt n) := by
  unfold ofInt
  split
  · exact .ok _
  · exact .error digits

theorem reports_ofInt (n : Int) : Reports (ofInt n) :=
  failsOnly_ofInt (P := fun f => f.reported = true) rfl n

theorem failsOnly_ofAtom (digits : P (.tooManyDigits none)) (a : Atom)
    (foreign : a.Foreign → P .unprintable) : FailsOnly P (ofAtom a) := by
  cases a with
  | int n => exact failsOnly_ofInt digits n
  | null | bool | float | str => exact .ok _
  | bytes | date | moment => exact .error (foreign trivial)

theorem failsOnly_ofKey (digits : P (.tooManyDigits none)) (k : Key)
    (foreign : k.Foreign → P .unprintable) : FailsOnly P (ofKey k) := by
  unfold ofKey
  split
  · exact .ok _
  · exact .map (failsOnly_ofAtom digits _ foreign) _
  · exact .error (foreign trivial)

mutual

theorem failsOnly_ofValue (digits : P (.tooManyDigits none)) (v : Value)
    (foreign : v.Foreign → P .unprintable) : FailsOnly P (ofValue v) := by
  cases v with
  | atom a =>
    rw [Value.Foreign] at foreign
    rw [ofValue]
    exact failsOnly_ofAtom digits a foreign
  | list items =>
    rw [Value.Foreign] at foreign
    rw [ofValue]
    exact .map (failsOnly_ofItems digits items foreign) _
  | pair a b =>
    rw [Value.Foreign] at foreign
    rw [ofValue]
    refine .bind (failsOnly_ofValue digits a fun h => foreign (.inl h)) fun s _ => ?_
    exact .bind (failsOnly_ofValue digits b fun h => foreign (.inr h)) fun t _ => .ok _
  | map entries | ordered entries =>
    rw [Value.Foreign] at foreign
    rw [ofValue]
    exact .map (failsOnly_ofEntries digits entries foreign) _
  | set members =>
    rw [Value.Foreign] at foreign
    rw [ofValue]
    exact .error (foreign trivial)

theorem failsOnly_ofItems (digits : P (.tooManyDigits none)) (items : List Value)
    (foreign : Value.ForeignItem items → P .unprintable) : FailsOnly P (ofItems items) := by
  cases items with
  | nil =>
    rw [ofItems]
    exact .ok _
  | cons v vs =>
    rw [Value.ForeignItem] at foreign
    rw [ofItems]
    refine .bind (failsOnly_ofValue digits v fun h => foreign (.inl h)) fun t _ => ?_
    exact .bind (failsOnly_ofItems digits vs fun h => foreign (.inr h)) fun ts _ => .ok _

theorem failsOnly_ofEntries (digits : P (.tooManyDigits none)) (entries : List (Key × Value))
    (foreign : Value.ForeignEntry entries → P .unprintable) :
    FailsOnly P (ofEntries entries) := by
  match entries with
  | [] =>
    rw [ofEntries]
    exact .ok _
  | (k, v) :: rest =>
    rw [Value.ForeignEntry] at foreign
    rw [ofEntries]
    refine .bind (failsOnly_ofKey digits k fun h => foreign (.inl h)) fun key _ => ?_
    refine .bind (failsOnly_ofValue digits v fun h => foreign (.inr (.inl h))) fun t _ => ?_
    exact .bind (failsOnly_ofEntries digits rest fun h => foreign (.inr (.inr h))) fun ts _ => .ok _

end

theorem not_foreign_of_ofAtom {a : Atom} {t : List Char} (h : ofAtom a = .ok t) : ¬ a.Foreign := by
  cases a with
  | null | bool | int | float | str => exact not_false
  | bytes | date | moment => cases h

theorem not_foreign_of_ofKey {k : Key} {t : List Char} (h : ofKey k = .ok t) : ¬ k.Foreign := by
  unfold ofKey at h
  split at h
  · exact not_false
  · obtain ⟨u, written, -⟩ := map_eq_ok_iff.1 h
    exact not_foreign_of_ofAtom written
  · cases h

mutual

theorem not_foreign_of_ofValue {v : Value} {t : List Char} (h : ofValue v = .ok t) :
    ¬ v.Foreign := by
  cases v with
  | atom a =>
    rw [ofValue] at h
    rw [Value.Foreign]
    exact not_foreign_of_ofAtom h
  | list items =>
    rw [ofValue] at h
    obtain ⟨ts, written, -⟩ := map_eq_ok_iff.1 h
    rw [Value.Foreign]
    exact not_foreign_of_ofItems written
  | pair a b =>
    rw [ofValue] at h
    obtain ⟨s, first, h⟩ := exists_of_bind_eq_ok h
    obtain ⟨u, second, -⟩ := exists_of_bind_eq_ok h
    rw [Value.Foreign, not_or]
    exact ⟨not_foreign_of_ofValue first, not_foreign_of_ofValue second⟩
  | map entries =>
    rw [ofValue] at h
    obtain ⟨ts, written, -⟩ := map_eq_ok_iff.1 h
    rw [Value.Foreign]
    exact not_foreign_of_ofEntries written
  | ordered entries =>
    rw [ofValue] at h
    obtain ⟨ts, written, -⟩ := map_eq_ok_iff.1 h
    rw [Value.Foreign]
    exact not_foreign_of_ofEntries written
  | set members => simp [ofValue] at h

theorem not_foreign_of_ofItems {items : List Value} {ts : List (List Char)}
    (h : ofItems items = .ok ts) : ¬ Value.ForeignItem items := by
  cases items with
  | nil => simp [Value.ForeignItem]
  | cons v vs =>
    rw [ofItems] at h
    obtain ⟨t, first, h⟩ := exists_of_bind_eq_ok h
    obtain ⟨us, others, -⟩ := exists_of_bind_eq_ok h
    rw [Value.ForeignItem, not_or]
    exact ⟨not_foreign_of_ofValue first, not_foreign_of_ofItems others⟩

theorem not_foreign_of_ofEntries {entries : List (Key × Value)} {ts : List (List Char)}
    (h : ofEntries entries = .ok ts) : ¬ Value.ForeignEntry entries := by
  match entries with
  | [] => simp [Value.ForeignEntry]
  | (k, v) :: rest =>
    rw [ofEntries] at h
    obtain ⟨key, named, h⟩ := exists_of_bind_eq_ok h
    obtain ⟨t, first, h⟩ := exists_of_bind_eq_ok h
    obtain ⟨us, others, -⟩ := exists_of_bind_eq_ok h
    rw [Value.ForeignEntry, not_or, not_or]
    exact ⟨not_foreign_of_ofKey named, not_foreign_of_ofValue first,
      not_foreign_of_ofEntries others⟩

end

end Json

namespace Value

/-- No text stands for the value: it holds something foreign, and no number before that is already
too long for a text. -/
structure Textless (v : Value) : Prop where
  foreign : v.Foreign
  short : v.stringify ≠ .error (.tooManyDigits none)

theorem failsOnly_stringify {P : Failure → Prop} (digits : P (.tooManyDigits none)) (v : Value)
    (foreign : v.Foreign → P .unprintable) : FailsOnly P v.stringify := by
  unfold stringify
  split
  · exact .ok _
  · exact .ok _
  · exact .map (Json.failsOnly_ofInt digits _) _
  · split
    · exact .map (Json.failsOnly_ofInt digits _) _
    · exact .ok _
  · exact .map (Json.failsOnly_ofValue digits _ foreign) _

theorem not_foreign_of_stringify {v : Value} {text : String} (h : v.stringify = .ok text) :
    ¬ v.Foreign := by
  unfold stringify at h
  split at h
  · simp [Foreign, Atom.Foreign]
  · simp [Foreign, Atom.Foreign]
  · simp [Foreign, Atom.Foreign]
  · simp [Foreign, Atom.Foreign]
  · obtain ⟨t, written, -⟩ := map_eq_ok_iff.1 h
    exact Json.not_foreign_of_ofValue written

theorem stringify_cases (v : Value) :
    FailsOnly (fun f => f = .tooManyDigits none ∨ f = .unprintable ∧ v.Foreign) v.stringify :=
  failsOnly_stringify (.inl rfl) v fun foreign => .inr ⟨rfl, foreign⟩

theorem Textless.stringify {v : Value} (h : v.Textless) : v.stringify = .error .unprintable := by
  cases written : v.stringify with
  | ok text => exact absurd h.foreign (not_foreign_of_stringify written)
  | error f =>
    rcases v.stringify_cases f written with rfl | ⟨rfl, -⟩
    · exact absurd written h.short
    · rfl

theorem textless_iff {v : Value} {f : Failure} :
    v.stringify = .error f ∧ f.reported = false ↔ v.Textless ∧ f = .unprintable := by
  constructor
  · rintro ⟨failed, unreported⟩
    rcases v.stringify_cases f failed with rfl | ⟨rfl, foreign⟩
    · exact nomatch unreported
    · refine ⟨⟨foreign, ?_⟩, rfl⟩
      rw [failed]
      exact nofun
  · rintro ⟨textless, rfl⟩
    exact ⟨textless.stringify, rfl⟩

theorem reports_stringify_of_numeric {v : Value} (h : v.numeric = true) : Reports v.stringify := by
  unfold stringify
  cases v with
  | atom a =>
    cases a with
    | int n => exact .map (Json.reports_ofInt n) _
    | str s => exact .ok _
    | float x =>
      simp only
      split
      · exact .map (Json.reports_ofInt _) _
      · exact .ok _
    | null | bool | bytes | date | moment => exact nomatch h
  | list | pair | map | ordered | set => exact nomatch h

/-- A value that a comparison cannot be made with: a whole number beyond all floating-point numbers
is compared with a number, or what no text stands for is put in order. -/
inductive Incomparable (v : Value) (c : Comparison) : Failure → Prop
  | tooLarge {op : Operator} {n : Int} (known : Operator.ofText? c.operator = some op)
      (whole : v = .int n) (far : Double.ofInt? n = none)
      (number : (Text.decimal? c.value.toList).isSome = true) : Incomparable v c .tooLarge
  | textless {op : Operator} (known : Operator.ofText? c.operator = some op) (order : op ≠ .eq)
      (order' : op ≠ .ne) (textless : v.Textless) : Incomparable v c .unprintable

theorem Incomparable.unreported {v : Value} {c : Comparison} {f : Failure}
    (h : v.Incomparable c f) : f.reported = false := by
  cases h with
  | tooLarge => rfl
  | textless => rfl

theorem reports_toNumber_str (s : String) : Reports (toNumber (.str s)) := by
  simp only [toNumber]
  split
  · exact .ok _
  · split
    · exact .error rfl
    · exact .ok _

theorem toNumber_unreported {v : Value} {f : Failure} (h : v.toNumber = .error f)
    (unreported : f.reported = false) :
    ∃ n, v = .int n ∧ Double.ofInt? n = none ∧ f = .tooLarge := by
  cases v with
  | atom a =>
    cases a with
    | int n =>
      simp only [toNumber] at h
      split at h
      · exact nomatch h
      · rename_i far
        exact ⟨n, rfl, far, (Except.error.inj h).symm⟩
    | str s =>
      exact ((reports_toNumber_str s).elim h unreported).elim
    | null | bool | float | bytes | date | moment => exact nomatch h
  | list | pair | map | ordered | set => exact nomatch h

theorem byText_str (v : Value) (w : String) (op : Operator) :
    satisfies.byText v (.str w) op =
      v.stringify.map fun a => op.holds (some (compare a w)) := by
  unfold satisfies.byText
  cases v.stringify with
  | error g => rfl
  | ok a => rfl

theorem byText_str_eq_error {v : Value} {w : String} {op : Operator} {f : Failure} :
    satisfies.byText v (.str w) op = .error f ↔ v.stringify = .error f := by
  rw [byText_str, map_eq_error_iff]

theorem satisfies_of_numeric {v : Value} {c : Comparison} {op : Operator}
    (known : Operator.ofText? c.operator = some op)
    (numeric : (v.numeric && (Value.str c.value).numeric) = true) :
    v.satisfies c.operator (.str c.value) = v.toNumber >>= fun a =>
      (Value.str c.value).toNumber >>= fun b =>
        pure (op.holds (a.bind fun x => b.bind x.compare?)) := by
  simp only [satisfies, known, numeric, if_true]

theorem satisfies_cases {v : Value} {c : Comparison} {op : Operator}
    (known : Operator.ofText? c.operator = some op)
    (texts : ¬ (v.numeric && (Value.str c.value).numeric) = true) :
    v.satisfies c.operator (.str c.value) = satisfies.byText v (.str c.value) op ∧
        ((∃ s, v = .str s) ∨ op ≠ .eq ∧ op ≠ .ne) ∨
      (∃ holds, v.satisfies c.operator (.str c.value) = .ok holds) ∧ (op = .eq ∨ op = .ne) := by
  simp only [satisfies, known, if_neg texts]
  split
  · exact .inl ⟨rfl, .inl ⟨_, rfl⟩⟩
  · exact .inr ⟨⟨_, rfl⟩, .inl rfl⟩
  · exact .inr ⟨⟨_, rfl⟩, .inr rfl⟩
  · rename_i notEq notNe _
    exact .inl ⟨rfl, .inr ⟨notEq, notNe⟩⟩

theorem incomparable_of_satisfies {v : Value} {c : Comparison} {f : Failure}
    (h : v.satisfies c.operator (.str c.value) = .error f) (unreported : f.reported = false) :
    v.Incomparable c f := by
  cases known : Operator.ofText? c.operator with
  | none =>
    simp only [satisfies, known] at h
    rw [← Except.error.inj h] at unreported
    exact nomatch unreported
  | some op =>
    by_cases numeric : (v.numeric && (Value.str c.value).numeric) = true
    · rw [satisfies_of_numeric known numeric] at h
      cases own : v.toNumber with
      | error g =>
        rw [own] at h
        obtain rfl := Except.error.inj h
        obtain ⟨n, whole, far, rfl⟩ := toNumber_unreported own unreported
        exact .tooLarge known whole far (Bool.and_eq_true_iff.1 numeric).2
      | ok a =>
        rw [own] at h
        exact (Reports.elim (.bind (reports_toNumber_str c.value) fun b _ => .ok _) h
          unreported).elim
    · rcases satisfies_cases known numeric with ⟨byText, ordered⟩ | ⟨⟨holds, decided⟩, -⟩
      · rw [byText, byText_str_eq_error] at h
        obtain ⟨textless, rfl⟩ := textless_iff.1 ⟨h, unreported⟩
        rcases ordered with ⟨s, rfl⟩ | ⟨notEq, notNe⟩
        · exact nomatch h
        · exact .textless known notEq notNe textless
      · exact nomatch decided.symm.trans h

theorem Incomparable.satisfies {v : Value} {c : Comparison} {f : Failure}
    (h : v.Incomparable c f) : v.satisfies c.operator (.str c.value) = .error f := by
  cases h with
  | tooLarge known whole far number =>
    subst whole
    rw [satisfies_of_numeric known (Bool.and_eq_true_iff.2 ⟨rfl, number⟩), toNumber, far]
    rfl
  | textless known notEq notNe textless =>
    have texts : ¬ (v.numeric && (Value.str c.value).numeric) = true := by
      intro numeric
      have reported := reports_stringify_of_numeric (Bool.and_eq_true_iff.1 numeric).1
      exact reported.elim textless.stringify rfl
    rcases satisfies_cases known texts with ⟨byText, -⟩ | ⟨-, equality⟩
    · rw [byText, byText_str_eq_error]
      exact textless.stringify
    · rcases equality with eq | ne
      · exact absurd eq notEq
      · exact absurd ne notNe

theorem fulfils_unreported_iff {v : Value} {comparison : Option Comparison} {f : Failure} :
    v.fulfils comparison = .error f ∧ f.reported = false ↔
      ∃ c, comparison = some c ∧ v.Incomparable c f := by
  cases comparison with
  | none =>
    constructor
    · rintro ⟨failed, -⟩
      exact nomatch failed
    · rintro ⟨c, none, -⟩
      exact nomatch none
  | some c =>
    constructor
    · rintro ⟨failed, unreported⟩
      exact ⟨c, rfl, incomparable_of_satisfies failed unreported⟩
    · rintro ⟨_, ⟨⟩, incomparable⟩
      exact ⟨incomparable.satisfies, incomparable.unreported⟩

end Value

end Stencil
