import Stencil.Proofs.ComparisonLiterals
import Stencil.Proofs.Decimals
import Stencil.Proofs.Expansion
import Stencil.RenderCall

set_option autoImplicit false

/-!
# Written render calls

A render call can be written down for any component and any variables with words as names. The
text is no JSON, since a JSON number or word ends in front of the first colon. Each pair is read up
to the comma behind it, whatever the texts among the values hold.
-/

namespace Stencil.Json

/-- A reader that stops in front of every colon. -/
def Uncoloned (cs rest : List Char) : Prop :=
  ':' ∈ cs → ':' ∈ rest

theorem uncoloned_dropWhile (cs : List Char) : Uncoloned cs (cs.dropWhile Char.isDigit) := by
  intro colon
  rw [← List.takeWhile_append_dropWhile (p := Char.isDigit) (l := cs)] at colon
  rcases List.mem_append.1 colon with digit | behind
  · exact absurd (List.mem_takeWhile_imp digit) (by decide)
  · exact behind

theorem Uncoloned.cons {c : Char} (other : c ≠ ':') {cs rest : List Char}
    (h : Uncoloned cs rest) : Uncoloned (c :: cs) rest :=
  fun colon => h ((List.mem_cons.1 colon).resolve_left other.symm)

theorem ne_colon_of_isDigit {c : Char} (h : c.isDigit = true) : c ≠ ':' := by
  rintro rfl
  exact absurd h (by decide)

theorem uncoloned_whole? {cs whole rest : List Char} (h : whole? cs = some (whole, rest)) :
    Uncoloned cs rest := by
  unfold whole? at h
  split at h
  · rw [← (Prod.mk.inj (Option.some.inj h)).2]
    exact .cons (by decide) id
  · split at h
    · rename_i digit
      rw [← (Prod.mk.inj (Option.some.inj h)).2]
      exact .cons (ne_colon_of_isDigit digit) (uncoloned_dropWhile _)
    · exact nomatch h
  · exact nomatch h

theorem uncoloned_fraction (cs : List Char) : Uncoloned cs (fraction cs).2 := by
  unfold fraction
  split
  · split
    · rename_i digit
      exact .cons (by decide) (.cons (ne_colon_of_isDigit digit) (uncoloned_dropWhile _))
    · exact id
  · exact id

theorem uncoloned_takeSign (cs : List Char) : Uncoloned cs (Text.takeSign cs).2 := by
  unfold Text.takeSign
  split
  · exact .cons (by decide) id
  · exact .cons (by decide) id
  · exact id

theorem uncoloned_exponentPart (cs : List Char) : Uncoloned cs (exponentPart cs).2 := by
  unfold exponentPart
  split
  · rename_i c rest
    split
    · rename_i letter
      have other : c ≠ ':' := by
        rintro rfl
        exact absurd letter (by decide)
      simp only
      split
      · exact id
      · exact .cons other fun colon => uncoloned_dropWhile _ (uncoloned_takeSign rest colon)
    · exact id
  · exact id

variable {rules : Rules}

theorem uncoloned_unsigned? {negative : Bool} {cs rest : List Char} {v : Value}
    (h : unsigned? rules negative cs = some (v, rest)) : Uncoloned cs rest := by
  unfold unsigned? at h
  split at h
  · exact nomatch h
  · rename_i whole behind read
    have passed : Uncoloned cs (exponentPart (fraction behind).2).2 := fun colon =>
      uncoloned_exponentPart _ (uncoloned_fraction _ (uncoloned_whole? read colon))
    simp only at h
    split at h
    · split at h
      · exact nomatch h
      · rwa [← (Prod.mk.inj (Option.some.inj h)).2]
    · rwa [← (Prod.mk.inj (Option.some.inj h)).2]

theorem uncoloned_scalar? {cs rest : List Char} {v : Value}
    (h : scalar? rules cs = some (v, rest)) :
    Uncoloned cs rest := by
  unfold scalar? at h
  split at h
  case h_7 => exact .cons (by decide) (uncoloned_unsigned? h)
  case h_8 => exact uncoloned_unsigned? h
  all_goals
    rw [← (Prod.mk.inj (Option.some.inj h)).2]
    repeat refine .cons (by decide) ?_
    exact id

theorem mem_skipSpace {c : Char} (dark : isSpace c = false) {cs : List Char} (h : c ∈ cs) :
    c ∈ skipSpace cs := by
  rw [← List.takeWhile_append_dropWhile (p := isSpace) (l := cs)] at h
  rcases List.mem_append.1 h with space | behind
  · exact absurd (List.mem_takeWhile_imp space) (Bool.eq_false_iff.1 dark)
  · exact behind

theorem readNested?_of_word (depth : Nat) {c : Char} (word : Text.isWord c = true)
    {cs : List Char} (colon : ':' ∈ cs) : readNested? rules depth (c :: cs) = none := by
  have other {d : Char} (h : Text.isWord d = false) : c ≠ d := by
    rintro rfl
    exact Bool.false_ne_true (h.symm.trans word)
  have start : skipSpace (c :: cs) = c :: cs := by
    have dark : ¬ isSpace c = true := by
      simp only [isSpace, Bool.or_eq_true, beq_iff_eq]
      rintro (((h | h) | h) | h) <;> exact other (by decide) h
    exact List.dropWhile_cons_of_neg dark
  unfold readNested?
  rw [start]
  unfold value?
  split
  · rename_i v rest read
    have scalar : scalar? rules (c :: cs) = some (v, rest) := by
      split at read
      all_goals first
        | exact read
        | rename_i same
          exact absurd (List.cons.inj same).1 (other (by decide))
    have behind := uncoloned_scalar? scalar (List.mem_cons_of_mem c colon)
    have more := List.ne_nil_of_mem (mem_skipSpace (by decide) behind)
    rw [if_neg (mt List.isEmpty_iff.1 more)]
  · rfl

end Stencil.Json

namespace Stencil

open Template

namespace Arguments

/-- A value as a pair of a render call writes it. -/
inductive Term
  | text (quote : Char) (s : String)
  | int (n : Int)
  | truth (b : Bool)
  | null

namespace Term

def value : Term → Value
  | text _ s => .str s
  | int n => .int n
  | truth b => .bool b
  | null => .null

def chars : Term → List Char
  | text quote s => Text.literalOf quote s.toList
  | int n => Text.decimal n
  | truth b => if b then "true".toList else "false".toList
  | null => "null".toList

/-- Texts stand between quotes, and integers are short enough to be converted. -/
def Fits : Term → Prop
  | text quote _ => Text.isQuote quote = true
  | int n => Text.Converted n
  | truth _ | null => True

instance : (t : Term) → Decidable t.Fits
  | text quote _ => inferInstanceAs (Decidable (Text.isQuote quote = true))
  | int n => inferInstanceAs (Decidable (Text.Converted n))
  | truth _ | null => .isTrue trivial

end Term

/-- What may stand behind a value: nothing, or the comma before the next pair. -/
def Ends (rest : List Char) : Prop :=
  ∀ c ∈ rest.head?, c = ','

theorem number?_decimal {n : Int} (h : Text.Converted n) {rest : List Char} (ends : Ends rest) :
    number? (Text.decimal n ++ rest) = some (.ok (.int n), rest) := by
  have short : (Nat.toDigits 10 n.natAbs).length ≤ Text.maxDigits := h
  have value := Text.natOfDigits_toDigits n.natAbs
  have digits := Text.digits_ascii n.natAbs
  have behind : ∀ c ∈ rest.head?, Text.isDigit c = false := by
    intro c hc
    rw [ends c hc]
    decide
  have unpointed (r : List Char) : rest ≠ '.' :: r := by
    rintro rfl
    exact absurd (ends '.' rfl) (by decide)
  unfold Text.decimal
  obtain ⟨d, ds, written⟩ :=
    List.exists_cons_of_ne_nil (Nat.toDigits_ne_nil : Nat.toDigits 10 n.natAbs ≠ [])
  rw [written] at short value digits ⊢
  have inside : ∀ c ∈ d :: ds, Text.isDigit c = true :=
    fun c hc => Text.isDigit_ascii (digits c hc)
  have whole : (d :: (ds ++ rest)).takeWhile Text.isDigit = d :: ds :=
    Text.takeWhile_stretch inside behind
  have left : (d :: (ds ++ rest)).dropWhile Text.isDigit = rest :=
    Text.dropWhile_stretch inside behind
  unfold number?
  by_cases negative : n < 0
  · have size : -(n.natAbs : Int) = n := by omega
    simp only [if_pos negative, List.cons_append, whole, left, value,
      if_neg (Nat.not_lt.2 short), size]
    simp
  · have unsigned : d ≠ '-' := by
      rintro rfl
      exact absurd (digits '-' List.mem_cons_self) (by decide)
    have size : (n.natAbs : Int) = n := by omega
    simp only [if_neg negative, List.cons_append]
    simp [unsigned, whole, left, value, size]
    exact short

theorem value?_cons {c : Char} (sign : c.isAlpha = false) (cs : List Char) :
    value? (c :: cs) = match Text.literal? false (c :: cs) with
      | some (literal, rest) => some (.ok (.str (String.ofList (Text.unescape literal))), rest)
      | none => number? (c :: cs) := by
  unfold value?
  split
  case h_4 => rfl
  all_goals
    rename_i same
    rw [(List.cons.inj same).1] at sign
    exact absurd sign (by decide)

namespace Term

theorem chars_ne_nil (t : Term) : t.chars ≠ [] := by
  cases t with
  | text quote s => exact List.cons_ne_nil _ _
  | int n => exact Text.decimal_ne_nil n
  | truth b => cases b <;> exact List.cons_ne_nil _ _
  | null => exact List.cons_ne_nil _ _

variable {t : Term} (h : t.Fits)
include h

theorem isBlank_ends :
    (∀ c ∈ t.chars.head?, Text.isBlank c = false) ∧
    ∀ c ∈ t.chars.getLast?, Text.isBlank c = false := by
  cases t with
  | text quote s =>
    have dark : Text.isBlank quote = false := Text.isBlank_of_isQuote h
    rw [chars, Text.literalOf, List.getLast?_concat]
    exact ⟨fun c hc => Option.some.inj hc ▸ dark, fun c hc => Option.some.inj hc ▸ dark⟩
  | int n =>
    have dark : ∀ c ∈ Text.decimal n, Text.isBlank c = false := by
      simpa using Text.all_decimal (p := fun c => !Text.isBlank c) rfl n
    exact ⟨fun c hc => dark c (List.mem_of_head? hc), fun c hc => dark c (List.mem_of_getLast? hc)⟩
  | truth b => cases b <;> exact ⟨by rintro _ ⟨⟩; decide, by rintro _ ⟨⟩; decide⟩
  | null => exact ⟨by rintro _ ⟨⟩; decide, by rintro _ ⟨⟩; decide⟩

theorem value?_chars {rest : List Char} (ends : Ends rest) :
    value? (t.chars ++ rest) = some (.ok t.value, rest) := by
  cases t with
  | text quote s =>
    have literal := Text.literal?_literalOf h false s.toList rest
    have read := Text.unescape_literalOf h s.toList
    have sign : quote.isAlpha = false := by
      rcases Bool.or_eq_true_iff.1 h with single | double
      · rw [eq_of_beq single]
        decide
      · rw [eq_of_beq double]
        decide
    rw [chars]
    rw [Text.literalOf, List.cons_append] at literal read ⊢
    rw [List.cons_append] at literal ⊢
    rw [value?_cons sign, literal]
    simp only [read, String.ofList_toList]
    rfl
  | int n =>
    have number := number?_decimal h ends
    have signs : ∀ c ∈ Text.decimal n, c.isAlpha = false ∧ Text.isQuote c = false := by
      simpa using Text.all_decimal (p := fun c => !c.isAlpha && !Text.isQuote c) rfl n
    rw [chars]
    obtain ⟨c, cs, written⟩ := List.exists_cons_of_ne_nil (Text.decimal_ne_nil n)
    obtain ⟨sign, bare⟩ := signs c (written ▸ List.mem_cons_self)
    rw [written, List.cons_append] at number ⊢
    rw [value?_cons sign, number, Text.literal?, bare]
    rfl
  | truth b => cases b <;> rfl
  | null => rfl

end Term

def pairChars (e : String × Term) : List Char :=
  e.1.toList ++ ':' :: ' ' :: e.2.chars

section Pair

variable {e : String × Term} (plain : PlainName e.1.toList) (fits : e.2.Fits)

include plain in
theorem pairChars_ne_nil : pairChars e ≠ [] :=
  List.append_ne_nil_of_left_ne_nil plain.1 _

include fits in
theorem isBlank_last_pairChars : ∀ c ∈ (pairChars e).getLast?, Text.isBlank c = false := by
  have split : pairChars e = e.1.toList ++ [':', ' '] ++ e.2.chars := by simp [pairChars]
  rw [split, List.getLast?_append_of_ne_nil _ e.2.chars_ne_nil]
  exact (Term.isBlank_ends fits).2

include plain fits in
theorem pair?_pairChars {rest : List Char} (ends : Ends rest) :
    pair? (pairChars e ++ rest) = some (e.1, .ok e.2.value, rest) := by
  obtain ⟨filled, word⟩ := plain
  have whole : pairChars e ++ rest = e.1.toList ++ ':' :: ' ' :: (e.2.chars ++ rest) := by
    simp [pairChars]
  have behind : ∀ c ∈ (':' :: ' ' :: (e.2.chars ++ rest)).head?, Text.isWord c = false := by
    rintro _ ⟨⟩
    decide
  have dark : Text.trimStart ([' '] ++ (e.2.chars ++ rest)) = e.2.chars ++ rest := by
    refine Text.trimStart_append Condition.isBlank_space ?_
    rw [List.head?_append_of_ne_nil _ e.2.chars_ne_nil]
    exact (Term.isBlank_ends fits).1
  rw [List.singleton_append] at dark
  unfold pair?
  rw [whole, Text.takeWhile_stretch word behind, Text.dropWhile_stretch word behind]
  obtain ⟨c, cs, key⟩ := List.exists_cons_of_ne_nil filled
  simp only [key, dark, Term.value?_chars fits ends, Option.map_some]
  rw [← key, String.ofList_toList]

end Pair

theorem pairs_skip (cs rest : List Char) : pairs cs.length (cs ++ rest) = pairs 0 rest := by
  induction cs with
  | nil => rfl
  | cons c cs ih => exact ih

theorem pairs_append {cs rest : List Char} {key : String} {value : Except Failure Value}
    (filled : cs ≠ []) (read : pair? (cs ++ rest) = some (key, value, rest)) :
    pairs 0 (cs ++ rest) = (key, value) :: pairs 0 rest := by
  obtain ⟨c, cs, rfl⟩ := List.exists_cons_of_ne_nil filled
  rw [List.cons_append] at read
  have passed : (cs ++ rest).length - rest.length = cs.length := by simp
  rw [List.cons_append, pairs]
  simp only [read, passed, pairs_skip]

theorem pairs_cons {c : Char} (other : Text.isWord c = false) (cs : List Char) :
    pairs 0 (c :: cs) = pairs 0 cs := by
  have none : pair? (c :: cs) = none := by
    unfold pair?
    rw [List.takeWhile_cons_of_neg (Bool.eq_false_iff.1 other)]
  rw [pairs]
  simp only [none]

section Written

variable {entries : List (String × Term)} (plain : ∀ e ∈ entries, PlainName e.1.toList)
  (fits : ∀ e ∈ entries, e.2.Fits)
include plain fits

theorem pairs_written :
    pairs 0 (Json.commaSeparated (entries.map pairChars)) =
      entries.map fun e => (e.1, .ok e.2.value) := by
  induction entries with
  | nil => rfl
  | cons e entries ih =>
    obtain ⟨word, words⟩ := List.forall_mem_cons.1 plain
    obtain ⟨first, others⟩ := List.forall_mem_cons.1 fits
    have filled := pairChars_ne_nil word
    rw [List.map_cons, List.map_cons]
    by_cases alone : entries = []
    · have read := @pair?_pairChars _ word first [] nofun
      have one := pairs_append filled read
      rw [List.append_nil] at one
      rw [alone]
      exact one
    · have comma : Ends (',' :: ' ' :: Json.commaSeparated (entries.map pairChars)) := by
        rintro _ ⟨⟩
        rfl
      rw [Json.commaSeparated_cons _ (mt List.map_eq_nil_iff.1 alone),
        pairs_append filled (pair?_pairChars word first comma), pairs_cons (by decide),
        pairs_cons (by decide), ih words others]

theorem isBlank_last_written :
    ∀ c ∈ (Json.commaSeparated (entries.map pairChars)).getLast?, Text.isBlank c = false := by
  rcases List.eq_nil_or_concat' entries with rfl | ⟨init, e, rfl⟩
  · exact nofun
  · have last : e ∈ init ++ [e] := List.mem_append_right _ (List.mem_singleton_self e)
    rw [List.map_append]
    obtain ⟨front, split⟩ := Json.exists_commaSeparated_concat (init.map pairChars) (pairChars e)
    have filled := pairChars_ne_nil (plain e last)
    rw [List.map_singleton, split, List.getLast?_append_of_ne_nil _ filled]
    exact isBlank_last_pairChars (fits e last)

end Written

theorem bindPairs_ok (into : Mapping) (entries : List (String × Term)) :
    bindPairs into (entries.map fun e => (e.1, .ok e.2.value)) =
      .ok (Mapping.overlay (entries.map fun e => (.str e.1, e.2.value)) into) := by
  induction entries generalizing into with
  | nil => rfl
  | cons e entries ih => exact ih _

section Text

variable {entries : List (String × Term)} (plain : ∀ e ∈ entries, PlainName e.1.toList)
  (some : entries ≠ [])
include plain some

theorem exists_word_written : ∃ c cs, Json.commaSeparated (entries.map pairChars) = c :: cs ∧
    Text.isWord c = true ∧ ':' ∈ cs := by
  obtain ⟨e, entries, rfl⟩ := List.exists_cons_of_ne_nil some
  obtain ⟨filled, word⟩ := plain e List.mem_cons_self
  obtain ⟨c, key, split⟩ := List.exists_cons_of_ne_nil filled
  obtain ⟨rest, behind⟩ := Json.exists_commaSeparated_cons (pairChars e) (entries.map pairChars)
  refine ⟨c, key ++ ':' :: ' ' :: (e.2.chars ++ rest), ?_, ?_, by simp⟩
  · rw [List.map_cons, behind, pairChars, split]
    simp
  · exact word c (split ▸ List.mem_cons_self)

theorem ofText_written (fits : ∀ e ∈ entries, e.2.Fits) (apart : (entries.map Prod.fst).Nodup) :
    ofText (String.ofList (Json.commaSeparated (entries.map pairChars))) =
      .ok ⟨entries.map fun e => (.str e.1, e.2.value), none⟩ := by
  obtain ⟨c, cs, start, word, colon⟩ := exists_word_written plain some
  have distinct : Mapping.Distinct (entries.map fun e => (.str e.1, e.2.value)) := by
    refine List.pairwise_map.2 ((List.pairwise_map.1 apart).imp fun {a b} other name => ?_)
    rintro ⟨⟩ same
    exact other (Atom.str.inj (Key.atom.inj same)).symm
  have keys : ∀ e ∈ (entries.map fun e => (.str e.1, e.2.value) : Mapping),
      ∃ name, e.1 = .str name := by
    intro e he
    obtain ⟨e, -, rfl⟩ := List.mem_map.1 he
    exact ⟨e.1, rfl⟩
  have unread (rules : Json.Rules) (depth : Nat) : Json.readNested? rules depth
      (String.ofList (Json.commaSeparated (entries.map pairChars))).toList = none := by
    rw [String.toList_ofList, start]
    exact Json.readNested?_of_word _ word colon
  have whole : Json.halved (String.ofList (Json.commaSeparated (entries.map pairChars))) =
      false := by
    rw [Json.halved, unread, Option.isSome_none, Bool.and_false]
  have bound := Mapping.ofList_of_distinct keys distinct
  unfold ofText
  rw [Json.read?, unread, whole, String.toList_ofList]
  simp only [pairs_written plain fits, bindPairs_ok]
  rw [← Mapping.ofList, bound]
  rfl

end Text

end Arguments

namespace RenderCall

open Arguments

/-- A component between quotes, and pairs of words and values behind a comma. -/
def written (q : Char) (component : String) (entries : List (String × Term)) : List Char :=
  q :: component.toList ++ q ::
    if entries.isEmpty then []
    else ',' :: ' ' :: Json.commaSeparated (entries.map pairChars)

theorem component?_between {q : Char} (hq : Text.isQuote q = true) {component rest : List Char}
    (filled : component ≠ []) (inside : q ∉ component) :
    component? (q :: component ++ q :: rest) = some (component, rest) := by
  have before : ∀ c ∈ component, (c != q) = true := by
    intro c hc
    rw [bne_iff_ne]
    rintro rfl
    exact inside hc
  have behind : ∀ c ∈ (q :: rest).head?, (c != q) = false := by
    rintro _ ⟨⟩
    exact bne_self_eq_false q
  rw [List.cons_append, component?, if_pos hq, Text.takeWhile_stretch before behind,
    Text.dropWhile_stretch before behind]
  obtain ⟨c, cs, rfl⟩ := List.exists_cons_of_ne_nil filled
  rfl

/-- A call is read back as it was written down, with its variables in their order. -/
theorem written_call_is_read {q : Char} (hq : Text.isQuote q = true) {component : String}
    (filled : component ≠ "") (inside : q ∉ component.toList) {entries : List (String × Term)}
    (plain : ∀ e ∈ entries, PlainName e.1.toList) (fits : ∀ e ∈ entries, e.2.Fits)
    (apart : (entries.map Prod.fst).Nodup) :
    ofParameters (some (String.ofList (written q component entries))) =
      .ok ⟨component, ⟨entries.map fun e => (.str e.1, e.2.value), none⟩⟩ := by
  have dark := Text.isBlank_of_isQuote hq
  have start (cs : List Char) : Text.trimStart (q :: cs) = q :: cs :=
    List.dropWhile_cons_of_neg (Bool.eq_false_iff.1 dark)
  have reference : component.toList ≠ [] := mt String.toList_eq_nil_iff.1 filled
  unfold ofParameters written
  rw [Option.getD_some, String.toList_ofList, List.cons_append, start, ← List.cons_append,
    component?_between hq reference inside]
  by_cases none : entries = []
  · rw [none]
    simp
  · obtain ⟨c, cs, body, word, -⟩ := exists_word_written plain none
    have given : Text.trim ([' '] ++ (Json.commaSeparated (entries.map pairChars) ++ [])) =
        Json.commaSeparated (entries.map pairChars) := by
      refine Text.trim_between Condition.isBlank_space (List.forall_mem_nil _) ?_ ?_
        (isBlank_last_written plain fits)
      · rw [body]
        exact List.cons_ne_nil c cs
      · rw [body]
        rintro _ ⟨⟩
        exact Text.isBlank_of_isWord word
    rw [List.append_nil, List.singleton_append] at given
    have comma : Text.trimStart (',' :: ' ' :: Json.commaSeparated (entries.map pairChars)) =
        ',' :: ' ' :: Json.commaSeparated (entries.map pairChars) :=
      List.dropWhile_cons_of_neg (by decide)
    have read := ofText_written plain none fits apart
    simp only [List.isEmpty_eq_false_iff.2 none, Bool.false_eq_true, if_false, comma, given,
      String.ofList_toList]
    rw [body] at read ⊢
    simp only [read]
    rfl

def tangled : List (String × Term) :=
  [("1", .text '"' "x, y: 'z'\n\"\\"), ("true", .int (-12)), ("é", .truth false), ("_", .null),
    ("k", .text '\'' "\"a\": 1,")]

theorem tangled_call_is_read :
    ofParameters (some ("'a \"b\"', 1: \"x, y: 'z'\n\\\"\\\\\", true: -12, é: false, _: null, " ++
        "k: '\"a\": 1,'")) =
      .ok ⟨"a \"b\"", ⟨[(.str "1", .str "x, y: 'z'\n\"\\"), (.str "true", .int (-12)),
        (.str "é", .bool false), (.str "_", .null), (.str "k", .str "\"a\": 1,")], none⟩⟩ := by
  have text : String.ofList (written '\'' "a \"b\"" tangled) =
      "'a \"b\"', 1: \"x, y: 'z'\n\\\"\\\\\", true: -12, é: false, _: null, " ++
        "k: '\"a\": 1,'" := by
    decide +kernel
  have words : (tangled.all fun e => !e.1.isEmpty && e.1.toList.all Text.isWord) = true := by
    decide +kernel
  have plain : ∀ e ∈ tangled, PlainName e.1.toList := by
    intro e he
    simpa [PlainName] using List.all_eq_true.1 words e he
  have fits : ∀ e ∈ tangled, e.2.Fits := by decide +kernel
  rw [← text]
  exact written_call_is_read (by decide) (by decide) (by decide) plain fits (by decide)

end RenderCall

end Stencil
