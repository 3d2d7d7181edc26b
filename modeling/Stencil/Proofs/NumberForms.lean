import Stencil.Double.Reader
import Stencil.Proofs.Comparisons
import Stencil.Proofs.PrintedMappings

set_option autoImplicit false

/-!
# Two forms of numbers

What counts as the text of a number, and what can be converted to one, are told by two grammars.
They agree but for the separator controls, which are blanks beside a number and may not stand beside
one that is converted. So conditions on everyday values fail for unknown operators, and for such a
text compared with a number; for nothing else.
-/

namespace Stencil

namespace Text

/-- There is no separator control among the characters. -/
def Unseparated (cs : List Char) : Prop :=
  ∀ c ∈ cs, isSeparator c = false

instance (cs : List Char) : Decidable (Unseparated cs) :=
  List.decidableBAll (fun c => isSeparator c = false) cs

theorem not_isSeparator_of_isDigit {c : Char} (h : isDigit c = true) : isSeparator c = false := by
  refine Bool.eq_false_iff.2 fun separator => ?_
  have high : c.toNat ≤ 0x1f := of_decide_eq_true (Bool.and_eq_true_iff.1 separator).2
  by_cases digit : c.isDigit = true
  · have first : 48 ≤ c.toNat := by
      simp only [Char.isDigit, Bool.and_eq_true, decide_eq_true_eq] at digit
      exact digit.1
    omega
  · rw [isDigit, digitValue?, if_pos (by omega), if_neg digit] at h
    cases h

theorem unseparated_takeSign {cs : List Char} (h : Unseparated (takeSign cs).2) :
    Unseparated cs := by
  unfold takeSign at h
  split at h
  · exact List.forall_mem_cons.2 ⟨by decide, h⟩
  · exact List.forall_mem_cons.2 ⟨by decide, h⟩
  · exact h

theorem unseparated_exponent? {cs : List Char} {e : Int} (h : exponent? cs = some e) :
    Unseparated cs := by
  cases cs with
  | nil => exact nofun
  | cons c cs =>
    rw [exponent?] at h
    split at h
    · rename_i mark
      simp only at h
      split at h
      · cases h
      · rename_i filled
        have digits : (takeSign cs).2.all isDigit = true := by
          simpa using (Bool.or_eq_false_iff.1 (Bool.eq_false_iff.2 filled)).2
        have first : isSeparator c = false := by
          rcases Bool.or_eq_true_iff.1 mark with small | large
          · rw [eq_of_beq small]
            decide
          · rw [eq_of_beq large]
            decide
        exact List.forall_mem_cons.2 ⟨first, unseparated_takeSign fun d hd =>
          not_isSeparator_of_isDigit (List.all_eq_true.1 digits d hd)⟩
    · cases h

theorem unseparated_bareDecimal? {cs : List Char} {d : Decimal} (h : bareDecimal? cs = some d) :
    Unseparated cs := by
  have digits (ds : List Char) : Unseparated (ds.takeWhile isDigit) :=
    fun c hc => not_isSeparator_of_isDigit (List.mem_takeWhile_imp hc)
  have split {ds : List Char} (h : Unseparated (ds.dropWhile isDigit)) : Unseparated ds := by
    intro c hc
    rw [← List.takeWhile_append_dropWhile (p := isDigit) (l := ds)] at hc
    exact (List.mem_append.1 hc).elim (digits ds c) (h c)
  unfold bareDecimal? at h
  refine unseparated_takeSign (split ?_)
  simp only at h
  split_ifs at h
  obtain ⟨e, read, -⟩ := Option.map_eq_some_iff.1 h
  split at read
  · rename_i r pointed
    rw [pointed]
    exact List.forall_mem_cons.2 ⟨by decide, split (unseparated_exponent? read)⟩
  · exact unseparated_exponent? read

theorem dropWhile_congr {α : Type} {p q : α → Bool} {as : List α} (h : ∀ a ∈ as, p a = q a) :
    as.dropWhile p = as.dropWhile q := by
  induction as with
  | nil => rfl
  | cons a as ih =>
    obtain ⟨first, others⟩ := List.forall_mem_cons.1 h
    rw [List.dropWhile_cons, List.dropWhile_cons, first, ih others]

theorem mem_dropWhile {α : Type} {p : α → Bool} {a : α} (kept : p a = false) {as : List α}
    (mem : a ∈ as) : a ∈ as.dropWhile p := by
  rw [← List.takeWhile_append_dropWhile (p := p) (l := as)] at mem
  refine (List.mem_append.1 mem).resolve_left fun dropped => ?_
  exact Bool.false_ne_true (kept.symm.trans (List.mem_takeWhile_imp dropped))

theorem dropMargins_eq_trim {cs : List Char} (h : Unseparated cs) : dropMargins cs = trim cs := by
  have same {ds : List Char} (hd : Unseparated ds) :
      ds.dropWhile isMargin = ds.dropWhile isBlank := by
    refine dropWhile_congr fun c hc => ?_
    rw [isMargin, hd c hc, Bool.not_false, Bool.and_true]
  have start : Unseparated (cs.dropWhile isBlank).reverse := by
    intro c hc
    exact h c ((List.dropWhile_suffix isBlank).subset (List.mem_reverse.1 hc))
  rw [dropMargins, same h, same start]
  rfl

theorem mem_dropMargins {c : Char} (separator : isSeparator c = true) {cs : List Char}
    (mem : c ∈ cs) : c ∈ dropMargins cs := by
  have kept : isMargin c = false := by
    rw [isMargin, separator, Bool.not_true, Bool.and_false]
  exact List.mem_reverse.2 (mem_dropWhile kept (List.mem_reverse.2 (mem_dropWhile kept mem)))

theorem toLower_of_isSeparator {c : Char} (separator : isSeparator c = true) : c.toLower = c := by
  have last : c.toNat ≤ 0x1f := of_decide_eq_true (Bool.and_eq_true_iff.1 separator).2
  unfold Char.toLower
  rw [dif_neg]
  rintro ⟨letter, -⟩
  have first : 65 ≤ c.toNat := letter
  omega

end Text

namespace Double

open Text

theorem unseparated_ofWord? {negative : Bool} {word : List Char} {x : Double}
    (h : ofWord? negative word = some x) : Unseparated word := by
  have plain {name : String} (same : String.ofList (word.map Char.toLower) = name)
      (letters : Unseparated name.toList) : Unseparated word := by
    intro c hc
    refine Bool.eq_false_iff.2 fun separator => ?_
    have kept : c ∈ name.toList := by
      rw [← same, String.toList_ofList, ← toLower_of_isSeparator separator]
      exact List.mem_map_of_mem hc
    exact Bool.false_ne_true ((letters c kept).symm.trans separator)
  unfold ofWord? at h
  split at h
  · rename_i same
    exact plain same (by decide)
  · rename_i same
    exact plain same (by decide)
  · rename_i same
    exact plain same (by decide)
  · exact nomatch h

theorem ofText?_of_decimal? {cs : List Char} {d : Decimal} (h : decimal? cs = some d) :
    ofText? cs = if Unseparated cs then some (ofDecimalText d) else none := by
  unfold ofText?
  simp only
  split_ifs with plain
  · rw [dropMargins_eq_trim plain, show bareDecimal? (trim cs) = some d from h]
  · have separated : ¬ Unseparated (dropMargins cs) := by
      intro inside
      refine plain fun c hc => Bool.eq_false_iff.2 fun separator => ?_
      exact Bool.false_ne_true ((inside c (mem_dropMargins separator hc)).symm.trans separator)
    have unread : bareDecimal? (dropMargins cs) = none :=
      Option.eq_none_iff_forall_not_mem.2 fun _ read => separated (unseparated_bareDecimal? read)
    rw [unread]
    exact Option.eq_none_iff_forall_not_mem.2 fun _ read =>
      separated (unseparated_takeSign (unseparated_ofWord? read))

/-- A double as it is held: a finite one has a mantissa of at most 53 bits and an exponent in
range. -/
def Proper : Double → Prop
  | finite _ m e => m < 2 ^ 53 ∧ minExponent ≤ e ∧ e ≤ maxExponent
  | _ => True

theorem natAbs_lt_limit {x : Double} (proper : x.Proper) {n : ℤ} (whole : x.toInt? = some n) :
    n.natAbs < limit := by
  cases x with
  | nan => exact nomatch whole
  | infinity s => exact nomatch whole
  | finite s m e =>
    obtain ⟨narrow, -, near⟩ := proper
    have signed (k : ℕ) : (if s then -(k : ℤ) else k).natAbs = k := by
      split_ifs <;> omega
    unfold toInt? at whole
    simp only at whole
    by_cases up : 0 ≤ e
    · rw [if_pos up] at whole
      rw [← Option.some.inj whole, signed]
      calc
        m * 2 ^ e.toNat < 2 ^ 53 * 2 ^ e.toNat :=
          Nat.mul_lt_mul_of_pos_right narrow (Nat.two_pow_pos _)
        _ = 2 ^ (53 + e.toNat) := (pow_add 2 53 _).symm
        _ ≤ limit := by
          unfold maxExponent at near
          exact two_pow_le_limit (by omega)
    · rw [if_neg up] at whole
      split at whole
      · rw [← Option.some.inj whole, signed]
        calc
          m / 2 ^ (-e).toNat ≤ m := Nat.div_le_self _ _
          _ < 2 ^ 53 := narrow
          _ ≤ limit := two_pow_le_limit (by decide)
      · exact nomatch whole

theorem converted_of_lt_limit {n : ℤ} (near : n.natAbs < limit) : Text.Converted n := by
  have short : n.natAbs < 10 ^ Text.maxDigits := near.trans (by decide +kernel)
  exact (Nat.length_toDigits_le_iff (by decide) (by decide)).2 short

theorem lt_limit_of_ofInt? {n : ℤ} (near : ofInt? n ≠ none) : n.natAbs < limit := by
  by_contra far
  refine near ?_
  rw [ofInt?_eq, if_neg fun small => far (small.trans_le (Nat.sub_le _ _))]

end Double

namespace Value

section Texts

variable {s : String} (number : (str s).numeric = true)
include number

theorem toNumber_str :
    (str s).toNumber = match Double.ofText? s.toList with
      | some x => .ok (some x)
      | none => .error (.notANumber s) := by
  obtain ⟨d, read⟩ := Option.isSome_iff_exists.1 number
  rw [Double.ofText?_of_decimal? read]
  simp only [toNumber, read]
  by_cases plain : Text.Unseparated s.toList
  · have none : s.toList.any Text.isSeparator = false :=
      List.any_eq_false.2 fun c hc => Bool.eq_false_iff.1 (plain c hc)
    rw [if_pos plain, none]
    rfl
  · have some : s.toList.any Text.isSeparator = true := by
      simpa [Text.Unseparated] using plain
    rw [if_neg plain, some]
    rfl

theorem isSome_ofText?_iff :
    (Double.ofText? s.toList).isSome = true ↔ Text.Unseparated s.toList := by
  obtain ⟨d, read⟩ := Option.isSome_iff_exists.1 number
  rw [Double.ofText?_of_decimal? read]
  split_ifs with plain
  · exact ⟨fun _ => plain, fun _ => rfl⟩
  · exact ⟨nofun, fun h => absurd h plain⟩

theorem toNumber_separated (separated : ¬ Text.Unseparated s.toList) :
    (str s).toNumber = .error (.notANumber s) := by
  have unread : Double.ofText? s.toList = none :=
    Option.not_isSome_iff_eq_none.1 (mt (isSome_ofText?_iff number).1 separated)
  rw [toNumber_str number, unread]

theorem toNumber_unseparated (plain : Text.Unseparated s.toList) :
    ∃ x, (str s).toNumber = .ok x := by
  obtain ⟨x, read⟩ := Option.isSome_iff_exists.1 ((isSome_ofText?_iff number).2 plain)
  exact ⟨some x, by rw [toNumber_str number, read]⟩

end Texts

/-- Values of nulls, truth values, doubles, integers that have a nearest double, texts, lists, and
mappings of texts. -/
inductive Everyday : Value → Prop
  | null : Everyday .null
  | bool (b : Bool) : Everyday (.bool b)
  | int {n : ℤ} (near : Double.ofInt? n ≠ none) : Everyday (.int n)
  | float {x : Double} (proper : x.Proper) : Everyday (.float x)
  | str (s : String) : Everyday (.str s)
  | list {vs : List Value} (items : ∀ v ∈ vs, Everyday v) : Everyday (.list vs)
  | map {m : Mapping} (keys : ∀ e ∈ m, ∃ name, e.1 = .str name) (values : ∀ e ∈ m, Everyday e.2) :
    Everyday (.map m)
  | ordered {m : Mapping} (keys : ∀ e ∈ m, ∃ name, e.1 = .str name)
    (values : ∀ e ∈ m, Everyday e.2) : Everyday (.ordered m)

end Value

namespace Json

theorem ofInt_of_lt_limit {n : ℤ} (near : n.natAbs < Double.limit) :
    ofInt n = .ok (Text.decimal n) := by
  rw [ofInt, Text.intText?_eq (Double.converted_of_lt_limit near)]
  exact congrArg Except.ok String.toList_ofList

theorem written_everyday {v : Value} (h : v.Everyday) : ∃ t, ofValue v = .ok t := by
  induction h with
  | null => exact ⟨_, rfl⟩
  | bool b => exact ⟨_, rfl⟩
  | int near =>
    exact ⟨_, by rw [ofValue, ofAtom, ofInt_of_lt_limit (Double.lt_limit_of_ofInt? near)]⟩
  | float _ => exact ⟨_, rfl⟩
  | str s => exact ⟨_, rfl⟩
  | list _ ih =>
    obtain ⟨ts, texts, -⟩ := exists_ofItems (R := fun _ _ => True) fun v hv =>
      (ih v hv).imp fun t written => ⟨written, trivial⟩
    exact ⟨_, by rw [ofValue, texts]; rfl⟩
  | map keys _ ih | ordered keys _ ih =>
    obtain ⟨ts, texts, -⟩ := exists_ofEntries (R := fun _ _ => True) keys fun e he =>
      (ih e he).imp fun t written => ⟨written, trivial⟩
    exact ⟨_, by rw [ofValue, texts]; rfl⟩

end Json

namespace Value

theorem exists_stringify {v : Value} (h : v.Everyday) : ∃ t, v.stringify = .ok t := by
  obtain ⟨t, written⟩ := Json.written_everyday h
  cases h with
  | null => exact ⟨_, rfl⟩
  | bool b => exact ⟨_, rfl⟩
  | @int n near =>
    exact ⟨String.ofList (Text.decimal n),
      by rw [stringify, Json.ofInt_of_lt_limit (Double.lt_limit_of_ofInt? near)]; rfl⟩
  | @float x proper =>
    cases whole : x.toInt? with
    | none => exact ⟨x.text, by simp only [stringify, whole]⟩
    | some n =>
      exact ⟨String.ofList (Text.decimal n),
        by simp only [stringify, whole]
           rw [Json.ofInt_of_lt_limit (Double.natAbs_lt_limit proper whole)]
           rfl⟩
  | str s => exact ⟨s, rfl⟩
  | list | map | ordered => exact ⟨String.ofList t, by simp only [stringify, written]; rfl⟩

theorem exists_toNumber {v : Value} (everyday : v.Everyday) (numeric : v.numeric = true)
    (plain : ∀ s, v = .str s → Text.Unseparated s.toList) : ∃ x, v.toNumber = .ok x := by
  cases everyday with
  | @int n near =>
    obtain ⟨x, found⟩ := Option.ne_none_iff_exists'.1 near
    exact ⟨some x, by simp only [toNumber, found]⟩
  | @float x => exact ⟨_, rfl⟩
  | str s => exact toNumber_unseparated numeric (plain s rfl)
  | null | bool | list | map | ordered => cases numeric

/-- Why a condition on an everyday value cannot be evaluated: its operator is unknown, or the text
of a number that cannot be converted stands on one of two numeric sides, of which the left one comes
first. -/
inductive Unevaluable (v : Value) (c : Comparison) : Failure → Prop
  | operator (unknown : Operator.ofText? c.operator = none) :
    Unevaluable v c (.invalidOperator c.operator)
  | left {o : Operator} {s : String} (known : Operator.ofText? c.operator = some o)
      (numbers : v.numeric = true ∧ (str c.value).numeric = true) (text : v = .str s)
      (separated : ¬ Text.Unseparated s.toList) : Unevaluable v c (.notANumber s)
  | right {o : Operator} (known : Operator.ofText? c.operator = some o)
      (numbers : v.numeric = true ∧ (str c.value).numeric = true)
      (plain : ∀ s, v = .str s → Text.Unseparated s.toList)
      (separated : ¬ Text.Unseparated c.value.toList) : Unevaluable v c (.notANumber c.value)

section Evaluating

variable {v : Value} (everyday : v.Everyday) {c : Comparison} {f : Failure}
include everyday

theorem Unevaluable.fails (h : v.Unevaluable c f) :
    v.satisfies c.operator (.str c.value) = .error f := by
  cases h with
  | operator unknown => simp only [satisfies, unknown]
  | left known numbers text separated =>
    subst text
    rw [satisfies_of_numeric known (Bool.and_eq_true_iff.2 numbers),
      toNumber_separated numbers.1 separated]
    rfl
  | right known numbers plain separated =>
    obtain ⟨x, converted⟩ := exists_toNumber everyday numbers.1 plain
    rw [satisfies_of_numeric known (Bool.and_eq_true_iff.2 numbers), converted,
      toNumber_separated numbers.2 separated]
    rfl

theorem unevaluable_of_satisfies (h : v.satisfies c.operator (.str c.value) = .error f) :
    v.Unevaluable c f := by
  cases known : Operator.ofText? c.operator with
  | none =>
    simp only [satisfies, known] at h
    rw [← Except.error.inj h]
    exact .operator known
  | some o =>
    by_cases numbers : (v.numeric && (str c.value).numeric) = true
    · obtain ⟨left, right⟩ := Bool.and_eq_true_iff.1 numbers
      rw [satisfies_of_numeric known numbers] at h
      by_cases plain : ∀ s, v = .str s → Text.Unseparated s.toList
      · obtain ⟨x, converted⟩ := exists_toNumber everyday left plain
        by_cases literal : Text.Unseparated c.value.toList
        · obtain ⟨y, other⟩ := toNumber_unseparated right literal
          rw [converted, other] at h
          cases h
        · rw [converted, toNumber_separated right literal] at h
          rw [← Except.error.inj h]
          exact .right known ⟨left, right⟩ plain literal
      · obtain ⟨s, exception⟩ := not_forall.1 plain
        obtain ⟨rfl, separated⟩ := Classical.not_imp.1 exception
        rw [toNumber_separated left separated] at h
        rw [← Except.error.inj h]
        exact .left known ⟨left, right⟩ rfl separated
    · obtain ⟨t, written⟩ := exists_stringify everyday
      rcases satisfies_cases known numbers with ⟨byText, -⟩ | ⟨⟨holds, decided⟩, -⟩
      · rw [byText, byText_str, written] at h
        cases h
      · cases decided.symm.trans h

/-- A condition on an everyday value fails for an unknown operator, and for a number on either side
that is recognised and cannot be converted, which is one with separator controls beside it; without
comparison, and for all else, it is evaluated. -/
theorem conditions_fail_iff (comparison : Option Comparison) :
    (∀ f, v.fulfils comparison = .error f ↔ ∃ c, comparison = some c ∧ v.Unevaluable c f) ∧
      ∀ s, (str s).numeric = true →
        ((Double.ofText? s.toList).isSome = true ↔ Text.Unseparated s.toList) := by
  refine ⟨fun f => ?_, fun s number => isSome_ofText?_iff number⟩
  cases comparison with
  | none => exact ⟨nofun, fun ⟨_, absent, _⟩ => nomatch absent⟩
  | some c =>
    constructor
    · exact fun failed => ⟨c, rfl, unevaluable_of_satisfies everyday failed⟩
    · rintro ⟨_, ⟨⟩, unevaluable⟩
      exact unevaluable.fails everyday

end Evaluating

def tangled : Value :=
  .map [(.str "a", .list [.int 9007199254740993, .float .nan, .null]), (.str "", .bool true)]

theorem everyday_tangled : tangled.Everyday := by
  have near : Double.ofInt? 9007199254740993 ≠ none := by
    rw [Double.ofInt?_eq, if_pos (by decide +kernel)]
    exact nofun
  refine .map ?_ ?_
  · simp
  · simp only [List.forall_mem_cons]
    refine ⟨.list ?_, .bool true, nofun⟩
    simp only [List.forall_mem_cons]
    exact ⟨.int near, .float trivial, .null, nofun⟩

theorem tangled_is_compared :
    tangled.Everyday ∧ (∀ f, tangled.fulfils (some ⟨">=", "1"⟩) ≠ .error f) ∧
      (str "\u3000\u0663.e+\uff11\u0085").numeric = true ∧
      (Double.ofText? "\u3000\u0663.e+\uff11\u0085".toList).isSome = true := by
  have number : (str "\u3000\u0663.e+\uff11\u0085").numeric = true := by decide +kernel
  obtain ⟨fails, converted⟩ := conditions_fail_iff everyday_tangled (some ⟨">=", "1"⟩)
  refine ⟨everyday_tangled, fun f failed => ?_, number, (converted _ number).2 (by decide)⟩
  obtain ⟨_, ⟨⟩, unevaluable⟩ := (fails f).1 failed
  cases unevaluable with
  | operator unknown => exact nomatch unknown
  | left known numbers => exact nomatch numbers.1
  | right known numbers => exact nomatch numbers.1

/-- A separator control beside a number is taken for a blank and keeps the number from being
converted, so that a comparison with a known operator fails. -/
theorem separated_number_fails :
    (str "\x1c1").Everyday ∧ Operator.ofText? "==" = some .eq ∧
      (str "\x1c1").numeric = true ∧ Double.ofText? "\x1c1".toList = none ∧
      (str "\x1c1").fulfils (some ⟨"==", "1"⟩) = .error (.notANumber "\x1c1") :=
  ⟨.str _, rfl, by decide, by decide, by rfl⟩

end Value

end Stencil
