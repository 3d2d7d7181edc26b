import Stencil.Proofs.Decimals
import Stencil.Proofs.DistinctKeys
import Stencil.RenderCall

set_option autoImplicit false

/-!
# Printed mappings

A mapping that is printed as JSON can be given to a render call, which reads the same mapping. What
is written for a value is read up to its end, behind which a comma or a closing bracket stands; the
length of the text is enough of fuel and of depth.
-/

namespace Stencil.Json

/-- The ways in which a character is written in a string. -/
inductive Escape (c : Char) : List Char → Prop
  | plain (high : 0x20 ≤ c.toNat) (quote : c ≠ '"') (slash : c ≠ '\\') : Escape c [c]
  | letter {l : Char} (named : escaped? l = some c) : Escape c ['\\', l]
  | unit {h i j k : Char} (low : c.toNat < 0x20) (digits : unit? h i j k = some c.toNat) :
      Escape c ['\\', 'u', h, i, j, k]

theorem unit?_hex : ∀ n < 0x20, unit? (Text.hexDigit (n / 16 / 16 / 16))
    (Text.hexDigit (n / 16 / 16)) (Text.hexDigit (n / 16)) (Text.hexDigit n) = some n := by
  decide

theorem escape_escape (c : Char) : Escape c (escape c) := by
  unfold escape
  -- One split for each character that a letter stands for.
  repeat
    split
    · rename_i same
      obtain rfl := eq_of_beq same
      exact .letter rfl
  split
  · rename_i low
    exact .unit low (unit?_hex _ low)
  · rename_i quote slash _ _ _ _ _ high
    exact .plain (Nat.not_lt.1 high) (fun same => quote (beq_iff_eq.2 same))
      fun same => slash (beq_iff_eq.2 same)

/-- Where the text goes on with a unit, the digits of that unit are behind it. -/
def UnitsWhole (cs : List Char) : Prop :=
  ∀ p q r s rest, cs = '\\' :: 'u' :: p :: q :: r :: s :: rest → ∃ n, unit? p q r s = some n

section Escape

variable {c : Char} {cs : List Char} (written : Escape c cs) (rest : List Char)
include written

theorem Escape.unitsWhole : UnitsWhole (cs ++ rest) := by
  intro p q r s more same
  cases written with
  | plain _ _ slash => exact absurd (List.cons.inj same).1 slash
  | letter named =>
    obtain rfl := (List.cons.inj (List.cons.inj same).2).1
    exact nomatch named
  | unit _ digits =>
    simp only [List.cons_append, List.nil_append, List.cons.injEq, true_and] at same
    obtain ⟨rfl, rfl, rfl, rfl, -⟩ := same
    exact ⟨_, digits⟩

theorem string?_of_escape (whole : UnitsWhole rest) :
    string? .strict (cs ++ rest) = (string? .strict rest).map fun (s, r) => (c :: s, r) := by
  cases written with
  | plain high quote slash =>
    rw [List.singleton_append, string?, if_neg]
    · simpa using ⟨high, slash⟩
    · exact quote
    all_goals
      intros
      contradiction
  | @letter l named =>
    have other : l ≠ 'u' := by
      rintro rfl
      exact nomatch named
    rw [List.cons_append, List.singleton_append, string?, named]
    all_goals
      intros
      contradiction
  | @unit p q r s low digits =>
    have lone : Rules.strict.char? c.toNat = some c := by
      rw [Rules.char?, loneChar?, if_neg (by omega), Char.ofNat_toNat]
      rfl
    simp only [List.cons_append, List.nil_append]
    by_cases more : ∃ p' q' r' s' behind, rest = '\\' :: 'u' :: p' :: q' :: r' :: s' :: behind
    · obtain ⟨p', q', r', s', behind, rfl⟩ := more
      obtain ⟨n, next⟩ := whole _ _ _ _ _ rfl
      have single : pairChar? c.toNat n = none := if_neg (by omega)
      rw [string?, digits, next]
      simp only [single, lone]
    · rw [string?, digits]
      · simp only [Option.bind_some, lone]
      · intro p' q' r' s' behind same
        exact more ⟨p', q', r', s', behind, same⟩

end Escape

theorem unitsWhole_written (cs rest : List Char) :
    UnitsWhole (cs.flatMap escape ++ '"' :: rest) := by
  cases cs with
  | nil =>
    intro p q r s more same
    exact absurd (List.cons.inj same).1 (by decide)
  | cons c cs =>
    rw [List.flatMap_cons, List.append_assoc]
    exact (escape_escape c).unitsWhole _

theorem string?_written (cs rest : List Char) :
    string? .strict (cs.flatMap escape ++ '"' :: rest) = some (cs, rest) := by
  induction cs with
  | nil => rw [List.flatMap_nil, List.nil_append, string?]
  | cons c cs ih =>
    rw [List.flatMap_cons, List.append_assoc,
      string?_of_escape (escape_escape c) _ (unitsWhole_written cs rest), ih]
    rfl

def Closes (rest : List Char) : Prop :=
  ∀ c ∈ rest.head?, c = ',' ∨ c = ']' ∨ c = '\x7d'

section Number

variable {rest : List Char} (closes : Closes rest)
include closes

theorem whole?_toDigits (n : Nat) :
    whole? (Nat.toDigits 10 n ++ rest) = some (Nat.toDigits 10 n, rest) := by
  by_cases zero : n = 0
  · rw [zero]
    rfl
  · have first := Text.head?_toDigits zero
    have digits := Text.digits_ascii n
    obtain ⟨d, ds, written⟩ :=
      List.exists_cons_of_ne_nil (Nat.toDigits_ne_nil : Nat.toDigits 10 n ≠ [])
    rw [written] at first digits ⊢
    obtain ⟨digit, others⟩ := List.forall_mem_cons.1 digits
    have behind : ∀ c ∈ rest.head?, c.isDigit = false := by
      intro c hc
      rcases closes c hc with rfl | rfl | rfl <;> rfl
    rw [List.cons_append, whole?, if_pos digit, Text.takeWhile_stretch others behind,
      Text.dropWhile_stretch others behind]
    rintro rfl
    exact first rfl

theorem fraction_of_closes : fraction rest = ([], rest) := by
  cases rest with
  | nil => rfl
  | cons c cs => rcases closes c rfl with rfl | rfl | rfl <;> rfl

theorem exponentPart_of_closes : exponentPart rest = (none, rest) := by
  cases rest with
  | nil => rfl
  | cons c cs => rcases closes c rfl with rfl | rfl | rfl <;> rfl

theorem unsigned?_toDigits {n : Nat} (short : (Nat.toDigits 10 n).length ≤ Text.maxDigits)
    (negative : Bool) :
    unsigned? .strict negative (Nat.toDigits 10 n ++ rest) =
      some (.int (if negative then -n else n), rest) := by
  have short : ¬ Text.maxDigits <
      (Nat.toDigits 10 n).length + (negative && Rules.strict.signCounts).toNat := by
    rw [Rules.strict, Bool.and_false]
    exact Nat.not_lt.2 short
  unfold unsigned?
  simp only [whole?_toDigits closes, fraction_of_closes closes, exponentPart_of_closes closes,
    if_neg short, Text.natOfDigits_toDigits]
  rfl

theorem scalar?_decimal {n : Int} (short : Text.Converted n) :
    scalar? .strict (Text.decimal n ++ rest) = some (.int n, rest) := by
  have digits := Text.digits_ascii n.natAbs
  have read := unsigned?_toDigits closes short
  unfold Text.decimal
  obtain ⟨d, ds, written⟩ :=
    List.exists_cons_of_ne_nil (Nat.toDigits_ne_nil : Nat.toDigits 10 n.natAbs ≠ [])
  rw [written] at read digits ⊢
  have digit := digits d List.mem_cons_self
  have other {c : Char} (h : c.isDigit = false) : d ≠ c := by
    rintro rfl
    exact Bool.false_ne_true (h.symm.trans digit)
  by_cases negative : n < 0
  · have size : -(n.natAbs : Int) = n := by omega
    rw [if_pos negative, List.cons_append, List.cons_append, scalar?, ← List.cons_append, read,
      if_pos rfl, size]
    intro cs same
    exact other (by decide) (List.cons.inj same).1
  · have size : (n.natAbs : Int) = n := by omega
    rw [if_neg negative, List.cons_append, scalar?, ← List.cons_append, read, if_neg nofun, size]
    all_goals
      intro cs same
      exact other (by decide) (List.cons.inj same).1

end Number

theorem skipSpace_cons {c : Char} (dark : isSpace c = false) (cs : List Char) :
    skipSpace (c :: cs) = c :: cs :=
  List.dropWhile_cons_of_neg (Bool.eq_false_iff.1 dark)

/-- The text is read as the value, whatever else stands behind it. -/
structure ReadAs (t : List Char) (v : Value) : Prop where
  opens : ∃ c cs, t = c :: cs ∧ isSpace c = false ∧ c ≠ ']'
  value {fuel depth : Nat} {rest : List Char} : t.length ≤ fuel → t.length ≤ depth →
    Closes rest → value? .strict fuel depth (t ++ rest) = some (v, rest)

theorem ReadAs.skipSpace {t : List Char} {v : Value} (h : ReadAs t v) (rest : List Char) :
    Json.skipSpace (t ++ rest) = t ++ rest := by
  obtain ⟨c, cs, rfl, dark, -⟩ := h.opens
  exact skipSpace_cons dark _

section Scalars

theorem readAs_of_scalar? {c : Char} {cs : List Char} {v : Value} (dark : isSpace c = false)
    (other : c ∉ ['"', '[', ']', '\x7b'])
    (read : ∀ rest, Closes rest → scalar? .strict (c :: cs ++ rest) = some (v, rest)) :
    ReadAs (c :: cs) v where
  opens := by
    refine ⟨c, cs, rfl, dark, ?_⟩
    rintro rfl
    exact other (by decide)
  value {fuel depth rest} long deep closes := by
    cases fuel with
    | zero => exact absurd long (Nat.not_succ_le_zero _)
    | succ fuel =>
      rw [List.cons_append, value?, ← List.cons_append, read rest closes]
      all_goals
        rintro _ ⟨⟩
        exact other (by decide)

theorem readAs_null : ReadAs "null".toList .null :=
  readAs_of_scalar? (by decide) (by decide) fun _ _ => rfl

theorem readAs_bool (b : Bool) :
    ReadAs (if b then "true".toList else "false".toList) (.bool b) := by
  cases b
  · exact readAs_of_scalar? (by decide) (by decide) fun _ _ => rfl
  · exact readAs_of_scalar? (by decide) (by decide) fun _ _ => rfl

theorem readAs_int {n : Int} (short : Text.Converted n) : ReadAs (Text.decimal n) (.int n) := by
  have plain : ∀ c ∈ Text.decimal n, isSpace c = false ∧ c ∉ ['"', '[', ']', '\x7b'] := by
    simpa using Text.all_decimal
      (p := fun c => !isSpace c && !(['"', '[', ']', '\x7b'].contains c)) rfl n
  have read (rest : List Char) (closes : Closes rest) := scalar?_decimal closes short
  obtain ⟨c, cs, written⟩ := List.exists_cons_of_ne_nil (Text.decimal_ne_nil n)
  obtain ⟨dark, other⟩ := plain c (written ▸ List.mem_cons_self)
  rw [written] at read ⊢
  exact readAs_of_scalar? dark other read

theorem quoted_append (s : String) (rest : List Char) :
    quoted s ++ rest = '"' :: (s.toList.flatMap escape ++ '"' :: rest) := by
  simp [quoted]

theorem readAs_str (s : String) : ReadAs (quoted s) (.str s) where
  opens := ⟨'"', _, rfl, by decide, by decide⟩
  value {fuel depth rest} long deep closes := by
    cases fuel with
    | zero => exact absurd long (Nat.not_succ_le_zero _)
    | succ fuel =>
      rw [quoted_append, value?, string?_written, Option.map_some]
      simp only [String.ofList_toList]

end Scalars

section Items

variable {fuel depth : Nat} {cs inner later more rest : List Char} {v : Value} {vs : List Value}

theorem value?_array {c : Char} (opens : skipSpace cs = c :: inner) (filled : c ≠ ']')
    (items : items? .strict fuel depth (c :: inner) = some (vs, rest)) :
    value? .strict (fuel + 1) (depth + 1) ('[' :: cs) = some (.list vs, rest) := by
  unfold value?
  simp only [opens]
  split
  · rename_i same
    exact absurd (List.cons.inj same).1 filled
  · contradiction
  · rename_i d same _
    obtain rfl := Nat.succ.inj same
    rw [items]
    rfl

theorem items?_cons (value : value? .strict fuel depth cs = some (v, later))
    (comma : skipSpace later = ',' :: more)
    (others : items? .strict fuel depth (skipSpace more) = some (vs, rest)) :
    items? .strict (fuel + 1) depth cs = some (v :: vs, rest) := by
  unfold items?
  simp only [value, comma, others]
  rfl

theorem items?_last (value : value? .strict fuel depth cs = some (v, later))
    (closes : skipSpace later = ']' :: rest) :
    items? .strict (fuel + 1) depth cs = some ([v], rest) := by
  unfold items?
  simp only [value, closes]

end Items

theorem closes_comma (rest : List Char) : Closes (',' :: rest) := by
  rintro _ ⟨⟩
  exact .inl rfl

theorem closes_bracket (rest : List Char) : Closes (']' :: rest) := by
  rintro _ ⟨⟩
  exact .inr (.inl rfl)

theorem closes_brace (rest : List Char) : Closes ('\x7d' :: rest) := by
  rintro _ ⟨⟩
  exact .inr (.inr rfl)

section List

variable {ts : List (List Char)} {vs : List Value}

theorem opens_written (h : List.Forall₂ ReadAs ts vs) (some : ts ≠ []) :
    ∃ c cs, commaSeparated ts = c :: cs ∧ isSpace c = false ∧ c ≠ ']' := by
  cases h with
  | nil => exact absurd rfl some
  | @cons t v ts vs first others =>
    obtain ⟨c, cs, rfl, dark, filled⟩ := first.opens
    obtain ⟨behind, split⟩ := exists_commaSeparated_cons (c :: cs) ts
    exact ⟨c, cs ++ behind, split, dark, filled⟩

theorem items?_written (h : List.Forall₂ ReadAs ts vs) (some : ts ≠ []) {fuel depth : Nat}
    (long : (commaSeparated ts).length < fuel) (deep : (commaSeparated ts).length ≤ depth)
    (rest : List Char) :
    items? .strict fuel depth (commaSeparated ts ++ ']' :: rest) = .some (vs, rest) := by
  induction h generalizing fuel with
  | nil => exact absurd rfl some
  | @cons t v ts vs first others ih =>
    obtain ⟨fuel, rfl⟩ := Nat.exists_eq_succ_of_ne_zero (Nat.ne_of_gt (Nat.zero_lt_of_lt long))
    by_cases alone : ts = []
    · obtain rfl := alone
      cases others
      refine items?_last (first.value (Nat.le_of_lt_succ long) deep (closes_bracket rest)) ?_
      exact skipSpace_cons (by decide) rest
    · obtain ⟨c, cs, next, dark, -⟩ := opens_written others alone
      have behind : skipSpace (' ' :: (commaSeparated ts ++ ']' :: rest)) =
          commaSeparated ts ++ ']' :: rest := by
        rw [next]
        exact skipSpace_cons dark _
      rw [commaSeparated_cons t alone] at long deep ⊢
      simp only [List.length_append, List.length_cons] at long deep
      rw [List.append_assoc]
      refine items?_cons (first.value (by omega) (by omega) (closes_comma _))
        (skipSpace_cons (by decide) _) ?_
      change items? .strict fuel depth (skipSpace (' ' :: (commaSeparated ts ++ ']' :: rest))) = _
      rw [behind]
      exact ih alone (by omega) (by omega)

theorem readAs_list (h : List.Forall₂ ReadAs ts vs) :
    ReadAs ('[' :: commaSeparated ts ++ [']']) (.list vs) where
  opens := ⟨'[', _, rfl, by decide, by decide⟩
  value {fuel depth rest} long deep closes := by
    simp only [List.length_append, List.length_cons, List.length_nil] at long deep
    obtain ⟨fuel, rfl⟩ : ∃ f, fuel = f + 1 := Nat.exists_eq_succ_of_ne_zero (by omega)
    obtain ⟨depth, rfl⟩ : ∃ d, depth = d + 1 := Nat.exists_eq_succ_of_ne_zero (by omega)
    have whole : '[' :: commaSeparated ts ++ [']'] ++ rest =
        '[' :: (commaSeparated ts ++ ']' :: rest) := by simp
    rw [whole]
    by_cases empty : ts = []
    · obtain rfl := empty
      cases h
      rfl
    · obtain ⟨c, cs, first, dark, filled⟩ := opens_written h empty
      have read : items? .strict fuel depth (commaSeparated ts ++ ']' :: rest) = some (vs, rest) :=
        items?_written h empty (by omega) (by omega) rest
      rw [first] at read ⊢
      exact value?_array (skipSpace_cons dark _) filled read

end List

section Entries

variable {ts : List (List Char)} {es : List (Key × Value)}

def EntryReadAs (t : List Char) (e : Key × Value) : Prop :=
  ∃ name body, e.1 = .str name ∧ t = quoted name ++ ':' :: ' ' :: body ∧ ReadAs body e.2

theorem key?_written (name : String) {body : List Char} {v : Value} (h : ReadAs body v)
    (rest : List Char) :
    key? .strict (quoted name ++ ':' :: ' ' :: body ++ rest) = some (.str name, body ++ rest) := by
  have whole : quoted name ++ ':' :: ' ' :: body ++ rest =
      '"' :: (name.toList.flatMap escape ++ '"' :: ':' :: ' ' :: (body ++ rest)) := by
    simp [quoted]
  have behind : skipSpace (' ' :: (body ++ rest)) = body ++ rest := h.skipSpace rest
  have colon : skipSpace (':' :: ' ' :: (body ++ rest)) = ':' :: ' ' :: (body ++ rest) :=
    skipSpace_cons (by decide) _
  rw [whole, key?, string?_written]
  simp only [colon, behind, String.ofList_toList]

theorem quote_written (h : List.Forall₂ EntryReadAs ts es) (some : ts ≠ []) :
    ∃ cs, commaSeparated ts = '"' :: cs := by
  cases h with
  | nil => exact absurd rfl some
  | @cons t e ts es first others =>
    obtain ⟨name, body, -, rfl, -⟩ := first
    obtain ⟨behind, split⟩ := exists_commaSeparated_cons (quoted name ++ ':' :: ' ' :: body) ts
    exact ⟨_, split⟩

theorem keys_written (h : List.Forall₂ EntryReadAs ts es) : ∀ e ∈ es, ∃ name, e.1 = .str name := by
  induction h with
  | nil => exact List.forall_mem_nil _
  | cons first others ih =>
    obtain ⟨name, _, named, -⟩ := first
    exact List.forall_mem_cons.2 ⟨⟨name, named⟩, ih⟩

theorem members?_written (h : List.Forall₂ EntryReadAs ts es) (some : ts ≠ []) {fuel depth : Nat}
    (long : (commaSeparated ts).length < fuel) (deep : (commaSeparated ts).length ≤ depth)
    (rest : List Char) :
    members? .strict fuel depth (commaSeparated ts ++ '\x7d' :: rest) = .some (es, rest) := by
  induction h generalizing fuel with
  | nil => exact absurd rfl some
  | @cons t e ts es first others ih =>
    obtain ⟨fuel, rfl⟩ := Nat.exists_eq_succ_of_ne_zero (Nat.ne_of_gt (Nat.zero_lt_of_lt long))
    obtain ⟨k, v⟩ := e
    obtain ⟨name, body, named, rfl, value⟩ := first
    obtain rfl : k = .str name := named
    by_cases alone : ts = []
    · obtain rfl := alone
      cases others
      change (quoted name ++ ':' :: ' ' :: body).length < _ at long
      change (quoted name ++ ':' :: ' ' :: body).length ≤ _ at deep
      simp only [List.length_append, List.length_cons] at long deep
      exact members?_last (key?_written name value _)
        (value.value (by omega) (by omega) (closes_brace rest))
        (skipSpace_cons (c := '\x7d') (by decide) rest)
    · obtain ⟨cs, next⟩ := quote_written others alone
      have behind : skipSpace (' ' :: (commaSeparated ts ++ '\x7d' :: rest)) =
          commaSeparated ts ++ '\x7d' :: rest := by
        rw [next]
        exact skipSpace_cons (c := '"') (by decide) _
      rw [commaSeparated_cons _ alone] at long deep ⊢
      simp only [List.length_append, List.length_cons] at long deep
      rw [List.append_assoc]
      refine members?_cons (key?_written name value _)
        (value.value (by omega) (by omega) (closes_comma _))
        (skipSpace_cons (c := ',') (by decide) _) ?_
      change members? .strict fuel depth
        (skipSpace (' ' :: (commaSeparated ts ++ '\x7d' :: rest))) = _
      rw [behind]
      exact ih alone (by omega) (by omega)

theorem readAs_map (h : List.Forall₂ EntryReadAs ts es) (distinct : Mapping.Distinct es) :
    ReadAs ('\x7b' :: commaSeparated ts ++ ['\x7d']) (.map es) where
  opens := ⟨'\x7b', _, rfl, by decide, by decide⟩
  value {fuel depth rest} long deep closes := by
    simp only [List.length_append, List.length_cons, List.length_nil] at long deep
    obtain ⟨fuel, rfl⟩ : ∃ f, fuel = f + 1 := Nat.exists_eq_succ_of_ne_zero (by omega)
    obtain ⟨depth, rfl⟩ : ∃ d, depth = d + 1 := Nat.exists_eq_succ_of_ne_zero (by omega)
    have whole : '\x7b' :: commaSeparated ts ++ ['\x7d'] ++ rest =
        '\x7b' :: (commaSeparated ts ++ '\x7d' :: rest) := by simp
    rw [whole]
    by_cases empty : ts = []
    · obtain rfl := empty
      cases h
      rfl
    · have keys := keys_written h
      obtain ⟨cs, first⟩ := quote_written h empty
      have read : members? .strict fuel depth (commaSeparated ts ++ '\x7d' :: rest) =
          some (es, rest) :=
        members?_written h empty (by omega) (by omega) rest
      rw [first] at read ⊢
      rw [← Mapping.ofList_of_distinct keys distinct]
      exact value?_object (skipSpace_cons (c := '"') (by decide) _) read

end Entries

end Stencil.Json

namespace Stencil

/-- A value that JSON has a form of its own for, which keeps it apart from all others. -/
inductive Printed : Value → Prop
  | null : Printed .null
  | bool (b : Bool) : Printed (.bool b)
  | int {n : Int} (short : Text.Converted n) : Printed (.int n)
  | str (s : String) : Printed (.str s)
  | list {vs : List Value} (items : ∀ v ∈ vs, Printed v) : Printed (.list vs)
  | map {m : Mapping} (keys : ∀ e ∈ m, ∃ name, e.1 = .str name) (distinct : m.Distinct)
      (values : ∀ e ∈ m, Printed e.2) : Printed (.map m)

namespace Json

section Writing

variable {R : List Char → Value → Prop}

theorem exists_ofItems {vs : List Value} (h : ∀ v ∈ vs, ∃ t, ofValue v = .ok t ∧ R t v) :
    ∃ ts, ofItems vs = .ok ts ∧ List.Forall₂ R ts vs := by
  induction vs with
  | nil => exact ⟨[], rfl, .nil⟩
  | cons v vs ih =>
    obtain ⟨first, others⟩ := List.forall_mem_cons.1 h
    obtain ⟨t, text, read⟩ := first
    obtain ⟨ts, texts, reads⟩ := ih others
    refine ⟨t :: ts, ?_, .cons read reads⟩
    rw [ofItems, text, texts]
    rfl

theorem exists_ofEntries {es : List (Key × Value)} (keys : ∀ e ∈ es, ∃ name, e.1 = .str name)
    (h : ∀ e ∈ es, ∃ t, ofValue e.2 = .ok t ∧ R t e.2) :
    ∃ ts, ofEntries es = .ok ts ∧ List.Forall₂ (fun t e => ∃ name body, e.1 = .str name ∧
      t = quoted name ++ ':' :: ' ' :: body ∧ R body e.2) ts es := by
  induction es with
  | nil => exact ⟨[], rfl, .nil⟩
  | cons e es ih =>
    obtain ⟨k, v⟩ := e
    obtain ⟨⟨name, named⟩, names⟩ := List.forall_mem_cons.1 keys
    obtain rfl : k = .str name := named
    obtain ⟨⟨t, text, read⟩, others⟩ := List.forall_mem_cons.1 h
    obtain ⟨ts, texts, reads⟩ := ih names others
    refine ⟨(quoted name ++ ':' :: ' ' :: t) :: ts, ?_, .cons ⟨name, t, rfl, rfl, read⟩ reads⟩
    rw [ofEntries, text, texts]
    rfl

end Writing

theorem exists_ofValue {v : Value} (h : Printed v) : ∃ t, ofValue v = .ok t ∧ ReadAs t v := by
  induction h with
  | null => exact ⟨_, rfl, readAs_null⟩
  | bool b => exact ⟨_, rfl, readAs_bool b⟩
  | @int n short =>
    refine ⟨Text.decimal n, ?_, readAs_int short⟩
    rw [ofValue, ofAtom, ofInt, Text.intText?_eq short]
    exact congrArg Except.ok String.toList_ofList
  | str s => exact ⟨_, rfl, readAs_str s⟩
  | list _ ih =>
    obtain ⟨ts, texts, reads⟩ := exists_ofItems ih
    refine ⟨_, ?_, readAs_list reads⟩
    rw [ofValue, texts]
    rfl
  | map keys distinct _ ih =>
    obtain ⟨ts, texts, reads⟩ := exists_ofEntries keys ih
    refine ⟨_, ?_, readAs_map reads distinct⟩
    rw [ofValue, texts]
    rfl

end Json

namespace Arguments

/-- A mapping that is printed is read back with its entries in their order. -/
theorem printed_mapping_is_read {m : Mapping} (h : Printed (.map m)) :
    ∃ text, (Value.map m).stringify = .ok text ∧ ofText text = .ok ⟨m, none⟩ := by
  obtain ⟨t, text, read⟩ := Json.exists_ofValue h
  refine ⟨String.ofList t, ?_, ?_⟩
  · change (Json.ofValue (.map m)).map String.ofList = _
    rw [text]
    rfl
  · have whole : Json.value? .strict (2 * t.length + 2) t.length (t ++ []) = some (.map m, []) :=
      read.value (by omega) (Nat.le_refl _) nofun
    have start := read.skipSpace []
    rw [List.append_nil] at whole start
    have json : Json.read? (String.ofList t) = some (.map m) := by
      rw [Json.read?, String.toList_ofList, String.length_ofList, Json.readNested?, start, whole]
      rfl
    rw [ofText, json]

def sample : Mapping :=
  [(.str "b\"", .list [.list [], .map [], .null]), (.str "", .str "\\é\x01\x1f\n/\t"),
    (.str "a: 1, b", .map [(.str "]", .int (-120)), (.str "[", .bool false)])]

def sampleText : String :=
  "\x7b\"b\\\"\": [[], \x7b\x7d, null], \"\": \"\\\\é\\u0001\\u001f\\n/\\t\", " ++
    "\"a: 1, b\": \x7b\"]\": -120, \"[\": false\x7d\x7d"

theorem sample_is_read :
    (Value.map sample).stringify = .ok sampleText ∧ ofText sampleText = .ok ⟨sample, none⟩ := by
  have list : Printed (.list [.list [], .map [], .null]) := by
    refine .list ?_
    simp only [List.forall_mem_cons]
    exact ⟨.list nofun, .map nofun .nil nofun, .null, nofun⟩
  have map : Printed (.map [(.str "]", .int (-120)), (.str "[", .bool false)]) := by
    refine .map ?_ ?_ ?_
    · simp
    · simp [Mapping.Distinct, Key.str]
    · simp only [List.forall_mem_cons]
      exact ⟨.int (by decide), .bool false, nofun⟩
  have h : Printed (.map sample) := by
    refine .map ?_ ?_ ?_
    · simp [sample]
    · simp [sample, Mapping.Distinct, Key.str]
    · simp only [sample, List.forall_mem_cons]
      exact ⟨list, .str _, map, nofun⟩
  obtain ⟨text, printed, read⟩ := printed_mapping_is_read h
  have written : (Value.map sample).stringify = .ok sampleText := by rfl
  obtain rfl := Except.ok.inj (written.symm.trans printed)
  exact ⟨written, read⟩

end Arguments

end Stencil
