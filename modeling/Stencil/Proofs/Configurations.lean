import Stencil.Proofs.Decimals
import Stencil.Proofs.RenderCommand
import Stencil.Proofs.Shapes

set_option autoImplicit false

/-!
# Which data is a configuration

A configuration is read from a mapping that has settings as its keys and nothing else. Each setting
is checked by itself; one that is not given has a default, which would pass the check. All other
data is refused, always as data that does not fit.
-/

namespace Stencil

theorem mapM_eq_ok_iff {ε α β : Type} {f : α → Except ε β} {as : List α} {bs : List β} :
    as.mapM f = .ok bs ↔ List.Forall₂ (fun a b => f a = .ok b) as bs := by
  constructor
  · intro h
    induction as generalizing bs with
    | nil =>
      rw [← Except.ok.inj h]
      exact .nil
    | cons a as ih =>
      rw [List.mapM_cons] at h
      obtain ⟨b, first, h⟩ := exists_of_bind_eq_ok h
      obtain ⟨others, later, h⟩ := exists_of_bind_eq_ok h
      rw [← Except.ok.inj h]
      exact .cons first (ih later)
  · intro h
    induction h with
    | nil => rfl
    | cons first _ ih =>
      rw [List.mapM_cons, first, ih]
      rfl

theorem mapError_eq_ok_iff {ε ε' α : Type} {f : ε → ε'} {x : Except ε α} {a : α} :
    x.mapError f = .ok a ↔ x = .ok a := by
  cases x with
  | error e => exact ⟨nofun, nofun⟩
  | ok b =>
    constructor
    · exact fun h => congrArg Except.ok (Except.ok.inj h)
    · exact fun h => congrArg Except.ok (Except.ok.inj h)

theorem forall_eq_some_iff_getD {α : Type} {P : α → Prop} {d : α} (default : P d)
    (given : Option α) :
    (∀ v, given = some v → P v) ↔ P (given.getD d) := by
  cases given with
  | none => exact iff_of_true nofun default
  | some v => exact ⟨fun h => h v rfl, fun h _ same => Option.some.inj same ▸ h⟩

namespace Text

theorem toString_eq_decimal (n : Int) : toString n = String.ofList (decimal n) := by
  unfold decimal
  cases n with
  | ofNat m =>
    have natural : ¬ Int.ofNat m < 0 := Int.not_lt.2 (Int.natCast_nonneg m)
    rw [if_neg natural]
    rfl
  | negSucc m =>
    rw [if_pos (Int.negSucc_lt_zero m)]
    exact (@String.ofList_append ['-'] _).symm

theorem converted_iff {n : Int} : Converted n ↔ n.natAbs < 10 ^ maxDigits :=
  Nat.length_toDigits_le_iff (by decide) (by decide)

end Text

namespace Atom

/-- Whether the atom is a text or a number. An integer has to be short enough to be written. -/
def Textual : Atom → Prop
  | str _ | float _ => True
  | int n => n.natAbs < 10 ^ Text.maxDigits
  | _ => False

end Atom

namespace Shape

variable {path : List String} {v w : Value}

theorem asText_eq_ok_iff {a b : Atom} :
    asText path a = .ok b ↔ a.Textual ∧ b = .str a.text := by
  cases a with
  | str s => simp [asText, Atom.Textual, Atom.text, eq_comm]
  | float x => simp [asText, Atom.Textual, Atom.text, Atom.display, eq_comm]
  | int n =>
    have shown : (Atom.int n).text = String.ofList (Text.decimal n) := Text.toString_eq_decimal n
    rw [asText, Json.ofInt, shown]
    by_cases short : Text.Converted n
    · rw [Text.intText?_eq short]
      simp [Atom.Textual, Text.converted_iff.1 short, Except.map, eq_comm]
    · have long : Text.intText? n = none := if_pos (Nat.not_le.1 short)
      rw [long]
      simp [Atom.Textual, mt Text.converted_iff.2 short, Except.map]
  | _ => simp [asText, refuseAtom, Atom.Textual]

theorem fit_bool_iff : bool.fit path v = .ok w ↔ ∃ b, v = .bool b ∧ w = .bool b := by
  constructor
  · intro h
    cases v with
    | atom a =>
      cases a with
      | bool b => exact ⟨b, rfl, (Except.ok.inj h).symm⟩
      | _ => exact nomatch h
    | _ => exact nomatch h
  · rintro ⟨b, rfl, rfl⟩
    rfl

theorem fit_text_iff :
    text.fit path v = .ok w ↔ ∃ a : Atom, v = .atom a ∧ a.Textual ∧ w = .str a.text := by
  cases v with
  | atom a =>
    rw [fit_atom, map_eq_ok_iff]
    change (∃ b, asText path a = .ok b ∧ _) ↔ _
    simp only [asText_eq_ok_iff]
    constructor
    · rintro ⟨_, ⟨textual, rfl⟩, rfl⟩
      exact ⟨a, rfl, textual, rfl⟩
    · rintro ⟨_, ⟨⟩, textual, rfl⟩
      exact ⟨_, ⟨textual, rfl⟩, rfl⟩
  | _ => exact ⟨nofun, fun ⟨_, same, _⟩ => nomatch same⟩

theorem fit_oneOf_iff {words : List String} :
    (oneOf (words.map .str)).fit path v = .ok w ↔ ∃ word ∈ words, v = .str word ∧ w = v := by
  constructor
  · intro h
    cases v with
    | atom a =>
      rw [fit_atom] at h
      obtain ⟨b, fitted, rfl⟩ := map_eq_ok_iff.1 h
      rw [fitAtom] at fitted
      split at fitted
      · rename_i chosen
        obtain ⟨choice, mem, same⟩ := List.any_eq_true.1 chosen
        obtain ⟨word, known, rfl⟩ := List.mem_map.1 mem
        obtain rfl := Except.ok.inj fitted
        exact ⟨word, known, congrArg Value.atom (Key.atom.inj (Key.same_str_iff.1 same)), rfl⟩
      · cases fitted
    | _ => cases h
  · rintro ⟨word, known, rfl, rfl⟩
    refine fit_of_fits ?_ path
    exact ⟨.str word, List.mem_map_of_mem known, beq_self_eq_true word⟩

theorem fitEntry_texts_iff {entry e : Key × Value} :
    fitEntry text any path entry = .ok e ↔
      (∃ a, entry.1 = .atom a ∧ a.Textual) ∧ e = (.str entry.1.text, entry.2) := by
  obtain ⟨k, u⟩ := entry
  constructor
  · intro h
    obtain ⟨key, value⟩ := exists_of_fitEntry h
    cases k with
    | row items => exact nomatch key
    | atom a =>
      rw [fitKey_atom] at key
      obtain ⟨b, fitted, named⟩ := map_eq_ok_iff.1 key
      obtain ⟨textual, rfl⟩ := asText_eq_ok_iff.1 fitted
      exact ⟨⟨a, rfl, textual⟩, Prod.ext named.symm (Except.ok.inj value).symm⟩
  · rintro ⟨⟨a, rfl, textual⟩, rfl⟩
    have key : fitKey (path ++ ["<key>"]) text (.atom a) = .ok (.str a.text) := by
      rw [fitKey_atom, fitAtom, asText_eq_ok_iff.2 ⟨textual, rfl⟩]
      rfl
    rw [fitEntry, key]
    rfl

theorem fit_texts_iff :
    (mapping text any).fit path v = .ok w ↔
      ∃ entries, v.entries? = some entries ∧ (∀ e ∈ entries, ∃ a, e.1 = .atom a ∧ a.Textual) ∧
        w = .map (Mapping.ofList (entries.map fun e => (.str e.1.text, e.2))) := by
  have read (entries fitted : Mapping) :
      entries.mapM (fitEntry text any path) = .ok fitted ↔
        (∀ e ∈ entries, ∃ a, e.1 = .atom a ∧ a.Textual) ∧
          fitted = entries.map fun e => (.str e.1.text, e.2) := by
    rw [mapM_eq_ok_iff]
    simp only [fitEntry_texts_iff]
    rw [List.forall₂_and_left, eq_comm, ← List.forall₂_eq_eq_eq, List.forall₂_map_left_iff]
    simp only [eq_comm]
  constructor
  · intro h
    obtain ⟨entries, fitted, given, made, rfl⟩ := exists_of_fit_mapping h
    obtain ⟨keys, rfl⟩ := (read entries fitted).1 made
    exact ⟨entries, given, keys, rfl⟩
  · rintro ⟨entries, given, keys, rfl⟩
    rw [fit_mapping text any given, (read entries _).2 ⟨keys, rfl⟩]
    rfl

end Shape

namespace Schema

variable {s : Schema} {v : Value}

theorem unexpected_eq_nil_iff {entries : Mapping} :
    s.unexpected entries = [] ↔ ∀ e ∈ entries, ∃ f ∈ s.fields, e.1 = .str f.name := by
  simp [unexpected, List.filter_eq_nil_iff, Key.same_str_iff]

theorem read_of_entries {entries : Mapping} (h : v.entries? = some entries) :
    s.read v = s.read (.map entries) := by
  cases v with
  | map m =>
    obtain rfl := Option.some.inj h
    rfl
  | ordered m =>
    obtain rfl := Option.some.inj h
    rfl
  | _ => exact nomatch h

theorem read_of_no_entries (h : v.entries? = none) :
    s.read v = .error (.coercion [] (.notMappingFor s.name v.typeName)) := by
  cases v with
  | map m => exact nomatch h
  | ordered m => exact nomatch h
  | _ => rfl

theorem read_eq_ok_iff {fields : Mapping} :
    s.read v = .ok fields ↔
      ∃ entries, v.entries? = some entries ∧
        (∀ e ∈ entries, ∃ f ∈ s.fields, e.1 = .str f.name) ∧
        s.fields.mapM (readField entries) = .ok fields := by
  cases given : v.entries? with
  | none =>
    rw [read_of_no_entries given]
    simp
  | some entries =>
    rw [read_of_entries given, read]
    simp only [Option.some.injEq, exists_eq_left', ← unexpected_eq_nil_iff]
    split
    · rename_i expected
      rw [mapError_eq_ok_iff, expected]
      exact (and_iff_right rfl).symm
    · rename_i extras
      refine iff_of_false ?_ fun both => extras both.1
      split
      · exact nofun
      · exact nofun

theorem coercion_of_read {f : Failure} (h : s.read v = .error f) :
    ∃ path fault, f = .coercion path fault := by
  cases given : v.entries? with
  | none =>
    rw [read_of_no_entries given] at h
    exact ⟨_, _, (Except.error.inj h).symm⟩
  | some entries =>
    rw [read_of_entries given, read] at h
    split at h
    · cases made : s.fields.mapM (readField entries) with
      | ok read =>
        rw [made] at h
        exact nomatch h
      | error g =>
        rw [made] at h
        obtain rfl := Except.error.inj h
        cases g with
        | coercion path fault => exact ⟨path, fault, rfl⟩
        | _ => exact ⟨_, _, rfl⟩
    · split at h
      · exact ⟨_, _, (Except.error.inj h).symm⟩
      · exact ⟨_, _, (Except.error.inj h).symm⟩

theorem readField_eq_ok_iff {entries : Mapping} {f : Field} {e : Key × Value} {d : Value}
    (default : f.default? = some d) (fits : f.shape.Fits d) :
    readField entries f = .ok e ↔
      ∃ w, f.shape.fit [f.name] ((Mapping.lookup? f.name entries).getD d) = .ok w ∧
        e = (.str f.name, w) := by
  unfold readField
  cases Mapping.lookup? f.name entries with
  | some v =>
    simp only [map_eq_ok_iff, Option.getD_some]
    exact exists_congr fun w => and_congr_right fun _ => eq_comm
  | none =>
    simp only [default, Option.getD_none, Shape.fit_of_fits fits]
    simp [eq_comm]

end Schema

namespace Config

def settings : List String :=
  ["strategy", "show_comments", "component_extension", "variables"]

def dialectNames : List String := ["ispconfig", "php", "vue"]

/-- Which mappings are configurations: those of settings, of which each is what it has to be. -/
structure Acceptable (entries : Mapping) : Prop where
  keys : ∀ e ∈ entries, ∃ name ∈ settings, e.1 = .str name
  dialect : ∀ v, Mapping.lookup? "strategy" entries = some v →
    ∃ name ∈ dialectNames, v = .str name
  showComments : ∀ v, Mapping.lookup? "show_comments" entries = some v → ∃ b, v = .bool b
  extension : ∀ v, Mapping.lookup? "component_extension" entries = some v →
    ∃ a : Atom, v = .atom a ∧ a.Textual
  bindings : ∀ v, Mapping.lookup? "variables" entries = some v →
    ∃ m, v.entries? = some m ∧ ∀ e ∈ m, ∃ a, e.1 = .atom a ∧ a.Textual

/-- The configuration that a mapping describes. What is not given is as it is by default. -/
structure Follows (c : Config) (entries : Mapping) : Prop where
  dialect : (Mapping.lookup? "strategy" entries).getD (.str "ispconfig") = .str c.dialect
  showComments : (Mapping.lookup? "show_comments" entries).getD (.bool false) =
    .bool c.showComments
  extension : ∃ a : Atom, (Mapping.lookup? "component_extension" entries).getD (.str ".liquid") =
    .atom a ∧ c.extension = a.text
  bindings : ∃ m, ((Mapping.lookup? "variables" entries).getD (.map [])).entries? = some m ∧
    c.bindings = Mapping.ofList (m.map fun e => (.str e.1.text, e.2))

def toFields (c : Config) : Mapping :=
  [(.str "strategy", .str c.dialect), (.str "show_comments", .bool c.showComments),
    (.str "component_extension", .str c.extension), (.str "variables", .map c.bindings)]

theorem ofFields_toFields (c : Config) : ofFields c.toFields = c := by
  rfl

theorem default_fits : ∀ f ∈ schema.fields, ∃ d, f.default? = some d ∧ f.shape.Fits d := by
  simp only [schema, List.forall_mem_cons]
  refine ⟨⟨_, rfl, ?_⟩, ⟨_, rfl, ?_⟩, ⟨_, rfl, ?_⟩, ⟨_, rfl, ?_⟩, List.forall_mem_nil _⟩
  · exact ⟨.str "ispconfig", List.mem_cons_self, rfl⟩
  · exact ⟨false, rfl⟩
  · exact ⟨_, rfl⟩
  · exact ⟨.nil, List.forall_mem_nil _⟩

theorem acceptable_iff {entries : Mapping} :
    Acceptable entries ↔
      (∀ e ∈ entries, ∃ name ∈ settings, e.1 = .str name) ∧
      (∃ name ∈ dialectNames,
        (Mapping.lookup? "strategy" entries).getD (.str "ispconfig") = .str name) ∧
      (∃ b, (Mapping.lookup? "show_comments" entries).getD (.bool false) = .bool b) ∧
      (∃ a : Atom, (Mapping.lookup? "component_extension" entries).getD (.str ".liquid") =
        .atom a ∧ a.Textual) ∧
      ∃ m, ((Mapping.lookup? "variables" entries).getD (.map [])).entries? = some m ∧
        ∀ e ∈ m, ∃ a, e.1 = .atom a ∧ a.Textual := by
  have dialect := @forall_eq_some_iff_getD Value
    (fun v => ∃ name ∈ dialectNames, v = .str name) (.str "ispconfig")
    ⟨"ispconfig", List.mem_cons_self, rfl⟩ (Mapping.lookup? "strategy" entries)
  have showComments := @forall_eq_some_iff_getD Value (fun v => ∃ b, v = .bool b) (.bool false)
    ⟨false, rfl⟩ (Mapping.lookup? "show_comments" entries)
  have extension := @forall_eq_some_iff_getD Value
    (fun v => ∃ a : Atom, v = .atom a ∧ a.Textual) (.str ".liquid")
    ⟨.str ".liquid", rfl, trivial⟩ (Mapping.lookup? "component_extension" entries)
  have bindings := @forall_eq_some_iff_getD Value
    (fun v => ∃ m, v.entries? = some m ∧ ∀ e ∈ m, ∃ a, e.1 = .atom a ∧ a.Textual) (.map [])
    ⟨[], rfl, List.forall_mem_nil _⟩ (Mapping.lookup? "variables" entries)
  rw [← dialect, ← showComments, ← extension, ← bindings]
  exact ⟨fun h => ⟨h.keys, h.dialect, h.showComments, h.extension, h.bindings⟩,
    fun ⟨keys, a, b, c, d⟩ => ⟨keys, a, b, c, d⟩⟩

theorem known_iff {k : Key} :
    (∃ f ∈ schema.fields, k = .str f.name) ↔ ∃ name ∈ settings, k = .str name := by
  simp [schema, settings]

theorem read_eq_ok_iff {v : Value} {fields : Mapping} :
    schema.read v = .ok fields ↔
      ∃ entries c, v.entries? = some entries ∧ Acceptable entries ∧ Follows c entries ∧
        fields = c.toFields := by
  have defaults := default_fits
  simp only [schema, List.forall_mem_cons] at defaults
  obtain ⟨⟨_, ⟨⟩, dialectFits⟩, ⟨_, ⟨⟩, commentsFit⟩, ⟨_, ⟨⟩, extensionFits⟩,
    ⟨_, ⟨⟩, bindingsFit⟩, -⟩ := defaults
  rw [Schema.read_eq_ok_iff]
  simp only [known_iff, mapM_eq_ok_iff, acceptable_iff]
  simp only [schema]
  constructor
  · rintro ⟨entries, given, keys, made⟩
    obtain _ | ⟨first, _ | ⟨second, _ | ⟨third, _ | ⟨fourth, _ | _⟩⟩⟩⟩ := made
    obtain ⟨_, fitted, rfl⟩ := (Schema.readField_eq_ok_iff rfl dialectFits).1 first
    obtain ⟨name, known, dialect, rfl⟩ := @Shape.fit_oneOf_iff _ _ _ dialectNames |>.1 fitted
    obtain ⟨_, fitted, rfl⟩ := (Schema.readField_eq_ok_iff rfl commentsFit).1 second
    obtain ⟨shown, comments, rfl⟩ := Shape.fit_bool_iff.1 fitted
    obtain ⟨_, fitted, rfl⟩ := (Schema.readField_eq_ok_iff rfl extensionFits).1 third
    obtain ⟨a, extension, textual, rfl⟩ := Shape.fit_text_iff.1 fitted
    obtain ⟨_, fitted, rfl⟩ := (Schema.readField_eq_ok_iff rfl bindingsFit).1 fourth
    obtain ⟨m, bindings, texts, rfl⟩ := Shape.fit_texts_iff.1 fitted
    refine ⟨entries, ⟨name, shown, a.text, _⟩, given,
      ⟨keys, ⟨name, known, dialect⟩, ⟨shown, comments⟩, ⟨a, extension, textual⟩,
        ⟨m, bindings, texts⟩⟩,
      ⟨dialect, comments, ⟨a, extension, rfl⟩, ⟨m, bindings, rfl⟩⟩, ?_⟩
    rw [dialect]
    rfl
  · rintro ⟨entries, c, given, ⟨keys, ⟨name, known, dialect⟩, -, ⟨a, extension, textual⟩,
      ⟨m, bindings, texts⟩⟩, follows, rfl⟩
    obtain ⟨own, comments, ⟨a', extension', written⟩, ⟨m', bindings', bound⟩⟩ := follows
    obtain rfl := Value.atom.inj (extension.symm.trans extension')
    obtain rfl := Option.some.inj (bindings.symm.trans bindings')
    refine ⟨entries, given, keys, .cons ?_ (.cons ?_ (.cons ?_ (.cons ?_ .nil)))⟩
    · refine (Schema.readField_eq_ok_iff rfl dialectFits).2 ⟨_, ?_, rfl⟩
      exact (@Shape.fit_oneOf_iff _ _ _ dialectNames).2 ⟨name, known, dialect, own.symm⟩
    · refine (Schema.readField_eq_ok_iff rfl commentsFit).2 ⟨_, ?_, rfl⟩
      exact Shape.fit_bool_iff.2 ⟨_, comments, rfl⟩
    · refine (Schema.readField_eq_ok_iff rfl extensionFits).2 ⟨_, ?_, rfl⟩
      exact Shape.fit_text_iff.2 ⟨a, extension, textual, congrArg Value.str written⟩
    · refine (Schema.readField_eq_ok_iff rfl bindingsFit).2 ⟨_, ?_, rfl⟩
      exact Shape.fit_texts_iff.2 ⟨m, bindings, texts, congrArg Value.map bound⟩

theorem exists_follows {entries : Mapping} (h : Acceptable entries) : ∃ c, Follows c entries := by
  obtain ⟨-, ⟨name, -, dialect⟩, ⟨shown, comments⟩, ⟨a, extension, -⟩, ⟨m, bindings, -⟩⟩ :=
    acceptable_iff.1 h
  exact ⟨⟨name, shown, a.text, _⟩, dialect, comments, ⟨a, extension, rfl⟩, ⟨m, bindings, rfl⟩⟩

theorem Follows.str_of_mem {c : Config} {entries : Mapping} (h : Follows c entries) :
    ∀ e ∈ c.bindings, ∃ name, e.1 = .str name := by
  obtain ⟨m, -, bound⟩ := h.bindings
  rw [bound]
  have texts : ∀ e ∈ m.map fun e => (Key.str e.1.text, e.2),
      (∃ name, e.1 = .str name) ∧ True := by
    intro e mem
    obtain ⟨e', -, rfl⟩ := List.mem_map.1 mem
    exact ⟨⟨_, rfl⟩, trivial⟩
  exact fun e mem => (@Mapping.forall_mem_overlay (fun k => ∃ name, k = .str name) (fun _ => True)
    _ [] texts (List.forall_mem_nil _) e mem).1

/-- A configuration is read from a mapping of settings of which each is what it has to be, and from
nothing else; all else is refused as data that does not fit. The fields that are read make up one
configuration, which is the one that the mapping describes: its dialect is one that the registry
has, and its variables are known by texts. -/
theorem configuration_is_exact (v : Value) :
    ((∃ fields, schema.read v = .ok fields) ↔
        ∃ entries, v.entries? = some entries ∧ Acceptable entries) ∧
      (∀ f, schema.read v = .error f → ∃ path fault, f = .coercion path fault) ∧
      ∀ fields, schema.read v = .ok fields →
        ∃ entries c, v.entries? = some entries ∧ Follows c entries ∧ fields = c.toFields ∧
          ofValue v = .ok c ∧ (∃ d, Registry.builtin.get c.dialect = .ok d) ∧
          ∀ e ∈ c.bindings, ∃ name, e.1 = .str name := by
  refine ⟨⟨?_, ?_⟩, fun f => Schema.coercion_of_read, fun fields read => ?_⟩
  · rintro ⟨fields, read⟩
    obtain ⟨entries, c, given, acceptable, -, -⟩ := read_eq_ok_iff.1 read
    exact ⟨entries, given, acceptable⟩
  · rintro ⟨entries, given, acceptable⟩
    obtain ⟨c, follows⟩ := exists_follows acceptable
    exact ⟨_, read_eq_ok_iff.2 ⟨entries, c, given, acceptable, follows, rfl⟩⟩
  · obtain ⟨entries, c, given, -, follows, rfl⟩ := read_eq_ok_iff.1 read
    have made : ofValue v = .ok c := by
      rw [ofValue, read]
      exact congrArg Except.ok (ofFields_toFields c)
    exact ⟨entries, c, given, follows, rfl, made, Registry.exists_get (contains_ofValue made),
      follows.str_of_mem⟩

section Example

def someSettings : Mapping :=
  [(.str "variables", .ordered [(.atom (.int 1), .null), (.str "1", .list [])]),
    (.str "component_extension", .int (-5)), (.str "strategy", .str "vue")]

theorem acceptable_someSettings : Acceptable someSettings where
  keys := by simp [someSettings, settings, Key.str_inj]
  dialect := by simp [someSettings, dialectNames]
  showComments := by simp [someSettings]
  extension v given := by
    simp only [someSettings, Mapping.lookup?_str_cons] at given
    obtain rfl := Option.some.inj given
    have short : (-5 : Int).natAbs < 10 ^ Text.maxDigits := by decide +kernel
    exact ⟨_, rfl, short⟩
  bindings v given := by
    simp only [someSettings, Mapping.lookup?_str_cons] at given
    obtain rfl := Option.some.inj given
    have short : (1 : Int).natAbs < 10 ^ Text.maxDigits := by decide +kernel
    refine ⟨_, rfl, ?_⟩
    simp only [List.forall_mem_cons]
    exact ⟨⟨_, rfl, short⟩, ⟨_, rfl, trivial⟩, List.forall_mem_nil _⟩

theorem some_settings_are_read :
    ∃ c, ofValue (.map someSettings) = .ok c ∧ c.dialect = "vue" ∧ c.showComments = false ∧
      c.extension = "-5" ∧ c.bindings = [(.str "1", .list [])] := by
  obtain ⟨taken, -, described⟩ := configuration_is_exact (.map someSettings)
  obtain ⟨fields, read⟩ := taken.2 ⟨_, rfl, acceptable_someSettings⟩
  obtain ⟨_, c, ⟨⟩, follows, -, made, -⟩ := described fields read
  obtain ⟨dialect, comments, ⟨a, extension, written⟩, ⟨m, bindings, bound⟩⟩ := follows
  simp only [someSettings, Mapping.lookup?_str_cons] at dialect comments extension bindings
  refine ⟨c, made, ?_, ?_, ?_, ?_⟩
  · exact (Atom.str.inj (Value.atom.inj dialect)).symm
  · exact (Atom.bool.inj (Value.atom.inj comments)).symm
  · rw [written, ← Value.atom.inj extension]
    rfl
  · rw [bound, ← Option.some.inj bindings]
    rfl

end Example

end Config

end Stencil
