import Stencil.Proofs.Decimals
import Stencil.Proofs.NearestDoubles
import Stencil.Proofs.Reporting

set_option autoImplicit false

/-!
# Comparisons

What two numeric operands denote decides all six operators between them, and none of them denotes
NaN; all else is compared as texts, or for equality as values. So of two operators that exclude
each other exactly one holds, and of the three strict ones exactly one holds between numbers and
for a text. Integers are compared through the doubles nearest to them.
-/

namespace Stencil

namespace Operator

def relates {α : Type} [LinearOrder α] : Operator → α → α → Bool
  | eq, a, b => decide (a = b)
  | ne, a, b => decide (a ≠ b)
  | gt, a, b => decide (b < a)
  | lt, a, b => decide (a < b)
  | ge, a, b => decide (b ≤ a)
  | le, a, b => decide (a ≤ b)

def negated : Operator → Operator
  | eq => ne
  | ne => eq
  | gt => le
  | lt => ge
  | ge => lt
  | le => gt

theorem holds_negated (o : Operator) (r : Ordering) :
    o.negated.holds (some r) = !o.holds (some r) := by
  cases o <;> cases r <;> rfl

theorem holds_compare {α : Type} [LinearOrder α] (o : Operator) (a b : α) :
    o.holds (some (compare a b)) = o.relates a b := by
  rcases lt_trichotomy a b with less | rfl | more
  · rw [compare_lt_iff_lt.2 less]
    cases o <;> simp [holds, relates, less, less.ne, less.le, less.not_gt, less.not_ge]
  · rw [compare_eq_iff_eq.2 rfl]
    cases o <;> simp [holds, relates]
  · rw [compare_gt_iff_gt.2 more]
    cases o <;> simp [holds, relates, more, more.ne', more.le, more.not_gt, more.not_ge]

end Operator

namespace Double

theorem pack_ne_nan (s : Bool) (m : ℕ) (e : ℤ) : pack s m e ≠ nan := by
  unfold pack
  split
  split_ifs
  · exact nofun
  · exact nofun
  · exact nofun

theorem ofRatio_ne_nan (s : Bool) (num den : ℕ) : ofRatio s num den ≠ nan := by
  unfold ofRatio
  by_cases zero : num = 0
  · rw [if_pos zero]
    exact nofun
  · rw [if_neg zero]
    exact pack_ne_nan _ _ _

theorem ofDecimal_ne_nan (s : Bool) (digits : ℕ) (scale : ℤ) : ofDecimal s digits scale ≠ nan := by
  unfold ofDecimal
  split_ifs
  · exact nofun
  · exact nofun
  · exact nofun
  · exact ofRatio_ne_nan _ _ _
  · exact ofRatio_ne_nan _ _ _

theorem exists_value? {x : Double} (h : x ≠ nan) : ∃ p, x.value? = some p := by
  cases x with
  | nan => exact absurd rfl h
  | infinity s => cases s <;> exact ⟨_, rfl⟩
  | finite s m e => exact ⟨_, rfl⟩

end Double

namespace Value

/-- What a numeric operand denotes. -/
def Denotes (v : Value) (p : Double.Extended) : Prop :=
  ∃ x, v.toNumber = .ok (some x) ∧ x.value? = some p

theorem toNumber_int (n : ℤ) :
    (int n).toNumber =
      if n.natAbs < Double.overflow then .ok (some (.nearest n)) else .error .tooLarge := by
  rw [toNumber, Double.ofInt?_eq]
  split_ifs <;> rfl

theorem denotes_of_numeric {v : Value} {number : Option Double} (numeric : v.numeric = true)
    (h : v.toNumber = .ok number) : ∃ x p, number = some x ∧ x.value? = some p := by
  cases v with
  | atom a =>
    cases a with
    | int n =>
      rw [toNumber_int] at h
      split_ifs at h
      exact ⟨_, _, (Except.ok.inj h).symm, Double.value?_nearest n⟩
    | float x =>
      have finite : x.isFinite = true := numeric
      obtain ⟨q, hq⟩ := Double.isFinite_iff.1 finite
      simp only [toNumber, if_pos finite] at h
      exact ⟨x, _, (Except.ok.inj h).symm, hq⟩
    | str s =>
      obtain ⟨d, read⟩ := Option.isSome_iff_exists.1 numeric
      simp only [toNumber, read] at h
      split_ifs at h
      obtain ⟨p, hp⟩ := Double.exists_value? (Double.ofDecimal_ne_nan d.negative d.digits d.scale)
      exact ⟨_, p, (Except.ok.inj h).symm, hp⟩
    | null | bool | bytes | date | moment => cases numeric
  | list | pair | map | ordered | set => cases numeric

section Operands

variable {v : Value} {e : String}

theorem satisfies_of_denotes {p q : Double.Extended} (hp : v.Denotes p)
    (hq : (str e).Denotes q) (numbers : (v.numeric && (str e).numeric) = true) (o : Operator) :
    v.satisfies o.text (.str e) = .ok (o.relates p q) := by
  obtain ⟨x, hx, px⟩ := hp
  obtain ⟨y, hy, qy⟩ := hq
  rw [satisfies_of_numeric (c := ⟨o.text, e⟩) o.ofText?_text numbers, hx, hy]
  change Except.ok (o.holds (x.compare? y)) = _
  rw [Double.compare?_eq, px, qy]
  exact congrArg Except.ok (o.holds_compare p q)

theorem denote_or_fail (numbers : (v.numeric && (str e).numeric) = true) :
    (∃ p q, v.Denotes p ∧ (str e).Denotes q) ∨
      ∃ f, ∀ o : Operator, v.satisfies o.text (.str e) = .error f := by
  have plan (o : Operator) := satisfies_of_numeric (c := ⟨o.text, e⟩) o.ofText?_text numbers
  obtain ⟨left, right⟩ := Bool.and_eq_true_iff.1 numbers
  cases own : v.toNumber with
  | error f =>
    refine .inr ⟨f, fun o => ?_⟩
    rw [plan o, own]
    rfl
  | ok a =>
    cases other : (str e).toNumber with
    | error f =>
      refine .inr ⟨f, fun o => ?_⟩
      rw [plan o, own, other]
      rfl
    | ok b =>
      obtain ⟨x, p, rfl, hp⟩ := denotes_of_numeric left own
      obtain ⟨y, q, rfl, hq⟩ := denotes_of_numeric right other
      exact .inl ⟨p, q, ⟨x, own, hp⟩, ⟨y, other, hq⟩⟩

theorem satisfies_str {s : String} (texts : ¬ ((str s).numeric && (str e).numeric) = true)
    (o : Operator) : (str s).satisfies o.text (.str e) = .ok (o.holds (some (compare s e))) := by
  unfold satisfies
  simp only [Operator.ofText?_text, if_neg texts]
  cases o <;> rfl

theorem satisfies_other (other : ∀ s, v ≠ str s)
    (texts : ¬ (v.numeric && (str e).numeric) = true) (o : Operator) :
    v.satisfies o.text (.str e) =
      match o with
      | .eq => .ok (v.same (.str e))
      | .ne => .ok (!v.same (.str e))
      | o => v.stringify.map fun a => o.holds (some (compare a e)) := by
  unfold satisfies
  simp only [Operator.ofText?_text, if_neg texts]
  split
  · exact absurd rfl (other _)
  · rfl
  · rfl
  · rename_i notEq notNe _
    cases o with
    | eq => exact absurd rfl notEq
    | ne => exact absurd rfl notNe
    | gt | lt | ge | le => exact byText_str v e _

end Operands

theorem satisfies_negated (v : Value) (o : Operator) (e : String) :
    v.satisfies o.negated.text (.str e) = (v.satisfies o.text (.str e)).map not := by
  by_cases numbers : (v.numeric && (str e).numeric) = true
  · rcases denote_or_fail numbers with ⟨p, q, hp, hq⟩ | ⟨f, failed⟩
    · rw [satisfies_of_denotes hp hq numbers, satisfies_of_denotes hp hq numbers,
        ← Operator.holds_compare, Operator.holds_negated, Operator.holds_compare]
      rfl
    · rw [failed, failed]
      rfl
  · by_cases text : ∃ s, v = str s
    · obtain ⟨s, rfl⟩ := text
      rw [satisfies_str numbers, satisfies_str numbers, Operator.holds_negated]
      rfl
    · have other : ∀ s, v ≠ str s := fun s same => text ⟨s, same⟩
      rw [satisfies_other other numbers, satisfies_other other numbers]
      have flip (o : Operator) :
          (v.stringify.map fun a => o.negated.holds (some (compare a e))) =
            (v.stringify.map fun a => o.holds (some (compare a e))).map not := by
        cases v.stringify with
        | error f => rfl
        | ok a => exact congrArg Except.ok (o.holds_negated _)
      cases o with
      | eq => rfl
      | ne => exact congrArg Except.ok (Bool.not_not _).symm
      | gt => exact flip .gt
      | lt => exact flip .lt
      | ge => exact flip .ge
      | le => exact flip .le

theorem exists_order {v : Value} {e : String}
    (ordered : (v.numeric = true ∧ (str e).numeric = true) ∨ ∃ s, v = .str s) {o : Operator}
    {decided : Bool} (h : v.satisfies o.text (.str e) = .ok decided) :
    ∃ r : Ordering, ∀ o : Operator, v.satisfies o.text (.str e) = .ok (o.holds (some r)) := by
  by_cases numbers : (v.numeric && (str e).numeric) = true
  · rcases denote_or_fail numbers with ⟨p, q, hp, hq⟩ | ⟨f, failed⟩
    · refine ⟨compare p q, fun o => ?_⟩
      rw [satisfies_of_denotes hp hq numbers, Operator.holds_compare]
    · exact nomatch (failed o).symm.trans h
  · rcases ordered with ⟨left, right⟩ | ⟨s, rfl⟩
    · exact absurd (Bool.and_eq_true_iff.2 ⟨left, right⟩) numbers
    · exact ⟨compare s e, satisfies_str numbers⟩

/-- Opposite operators have opposite answers, and fail alike. Between two numbers, and for a text,
exactly one of the strict operators and equality holds once any operator can be evaluated. Two
numbers are compared as the rational numbers or infinities that they denote. -/
theorem comparisons_are_consistent (v : Value) (e : String) :
    (v.satisfies "!=" (.str e) = (v.satisfies "==" (.str e)).map not ∧
      v.satisfies ">=" (.str e) = (v.satisfies "<" (.str e)).map not ∧
      v.satisfies "<=" (.str e) = (v.satisfies ">" (.str e)).map not) ∧
    (((v.numeric = true ∧ (str e).numeric = true) ∨ ∃ s, v = .str s) →
      ∀ (o : Operator) (decided : Bool), v.satisfies o.text (.str e) = .ok decided →
        ∃ less same more, v.satisfies "<" (.str e) = .ok less ∧
          v.satisfies "==" (.str e) = .ok same ∧ v.satisfies ">" (.str e) = .ok more ∧
          [less, same, more].count true = 1) ∧
    (v.numeric = true → (str e).numeric = true →
      ∀ (o : Operator) (decided : Bool), v.satisfies o.text (.str e) = .ok decided →
        ∃ p q, v.Denotes p ∧ (str e).Denotes q ∧ decided = o.relates p q) := by
  refine ⟨⟨v.satisfies_negated .eq e, v.satisfies_negated .lt e, v.satisfies_negated .gt e⟩,
    ?_, ?_⟩
  · intro ordered o decided h
    obtain ⟨r, all⟩ := exists_order ordered h
    refine ⟨_, _, _, all .lt, all .eq, all .gt, ?_⟩
    cases r <;> rfl
  · intro left right o decided h
    have numbers : (v.numeric && (str e).numeric) = true := Bool.and_eq_true_iff.2 ⟨left, right⟩
    rcases denote_or_fail numbers with ⟨p, q, hp, hq⟩ | ⟨f, failed⟩
    · rw [satisfies_of_denotes hp hq numbers] at h
      exact ⟨p, q, hp, hq, (Except.ok.inj h).symm⟩
    · exact nomatch (failed o).symm.trans h

theorem infinite_operands_are_equal :
    ((str "1e400").numeric = true ∧ (str "\u0669e400").numeric = true) ∧
      (str "1e400").satisfies "==" (.str "\u0669e400") = .ok true ∧
      (∃ less same more, (str "1e400").satisfies "<" (.str "\u0669e400") = .ok less ∧
        (str "1e400").satisfies "==" (.str "\u0669e400") = .ok same ∧
        (str "1e400").satisfies ">" (.str "\u0669e400") = .ok more ∧
        [less, same, more].count true = 1) ∧
      ∃ p q, (str "1e400").Denotes p ∧ (str "\u0669e400").Denotes q ∧
        true = Operator.eq.relates p q := by
  have left : (str "1e400").numeric = true := by decide
  have right : (str "\u0669e400").numeric = true := by decide +kernel
  have equal : (str "1e400").satisfies "==" (.str "\u0669e400") = .ok true := by rfl
  obtain ⟨-, exclusive, denoted⟩ := comparisons_are_consistent (str "1e400") "\u0669e400"
  exact ⟨⟨left, right⟩, equal, exclusive (.inl ⟨left, right⟩) .eq true equal,
    denoted left right .eq true equal⟩

end Value

namespace Text

theorem trim_dark {cs : List Char} (dark : ∀ c ∈ cs, isBlank c = false) : trim cs = cs := by
  have kept {ds : List Char} (h : ∀ c ∈ ds, isBlank c = false) : ds.dropWhile isBlank = ds := by
    cases ds with
    | nil => rfl
    | cons d ds =>
      exact List.dropWhile_cons_of_neg (Bool.eq_false_iff.1 (h d List.mem_cons_self))
  rw [trim, trimStart, kept dark, trimEnd, kept fun c hc => dark c (List.mem_reverse.1 hc),
    List.reverse_reverse]

theorem decimal?_decimal (n : ℤ) : decimal? (decimal n) = some ⟨decide (n < 0), n.natAbs, 0⟩ := by
  have dark : ∀ c ∈ decimal n, isBlank c = false := by
    intro c hc
    have unblank := all_decimal (p := fun c => !isBlank c) (by decide) n c hc
    simpa using unblank
  have inside : ∀ c ∈ Nat.toDigits 10 n.natAbs, isDigit c = true :=
    fun c hc => isDigit_ascii (digits_ascii n.natAbs c hc)
  have digits : (Nat.toDigits 10 n.natAbs).takeWhile isDigit = Nat.toDigits 10 n.natAbs :=
    List.takeWhile_eq_self_iff.2 inside
  have rest : (Nat.toDigits 10 n.natAbs).dropWhile isDigit = [] :=
    List.dropWhile_eq_nil_iff.2 inside
  have sign : takeSign (decimal n) = (decide (n < 0), Nat.toDigits 10 n.natAbs) := by
    unfold decimal
    split_ifs with negative
    · rw [decide_eq_true negative]
      rfl
    · rw [decide_eq_false negative]
      obtain ⟨d, ds, written⟩ :=
        List.exists_cons_of_ne_nil (Nat.toDigits_ne_nil : Nat.toDigits 10 n.natAbs ≠ [])
      have digit : d.isDigit = true :=
        digits_ascii n.natAbs d (by rw [written]; exact List.mem_cons_self)
      have unsigned {c : Char} (sign : c.isDigit = false) : d ≠ c := by
        rintro rfl
        exact Bool.false_ne_true (sign.symm.trans digit)
      rw [written, takeSign]
      · exact fun cs same => unsigned (by decide) (List.cons.inj same).1
      · exact fun cs same => unsigned (by decide) (List.cons.inj same).1
  have filled : (Nat.toDigits 10 n.natAbs).isEmpty = false := by
    simp
  rw [decimal?, trim_dark dark, bareDecimal?]
  simp only [sign, digits, rest, filled]
  simp [exponent?, natOfDigits_toDigits]

end Text

theorem Double.ofDecimal_whole (s : Bool) (n : ℕ) : ofDecimal s n 0 = ofRatio s n 1 := by
  unfold ofDecimal
  by_cases none : n = 0
  · rw [if_pos none, ofRatio, if_pos none]
  · rw [if_neg none, if_neg (by decide), if_neg (by omega), if_pos (le_refl 0)]
    congr 1
    simp

namespace Value

abbrev digits (n : ℤ) : Value :=
  .str (String.ofList (Text.decimal n))

section Integers

open Double (nearby nearest overflow)

theorem numeric_digits (n : ℤ) : (digits n).numeric = true := by
  simp only [numeric, String.toList_ofList, Text.decimal?_decimal, Option.isSome_some]

theorem denotes_digits (n : ℤ) : (digits n).Denotes (nearby n) := by
  have unseparated : (Text.decimal n).any Text.isSeparator = false := by
    refine List.any_eq_false.2 fun c hc => ?_
    simpa using Text.all_decimal (p := fun c => !Text.isSeparator c) (by decide) n c hc
  refine ⟨nearest n, ?_, Double.value?_nearest n⟩
  simp only [toNumber, String.toList_ofList, Text.decimal?_decimal, unseparated,
    Double.ofDecimal_whole]
  rfl

theorem denotes_int {n : ℤ} (near : n.natAbs < overflow) : (int n).Denotes (nearby n) :=
  ⟨nearest n, by rw [toNumber_int, if_pos near], Double.value?_nearest n⟩

theorem relates_nearby {m n : ℤ} (apart : m = n ∨ nearby m ≠ nearby n) (o : Operator) :
    o.relates (nearby m) (nearby n) = o.relates m n := by
  have same : compare (nearby m) (nearby n) = compare m n := by
    rcases lt_trichotomy m n with less | rfl | more
    · have differ : nearby m ≠ nearby n := apart.resolve_left less.ne
      rw [compare_lt_iff_lt.2 less]
      exact compare_lt_iff_lt.2 ((Double.nearby_mono less.le).lt_of_ne differ)
    · rw [compare_eq_iff_eq.2 rfl, compare_eq_iff_eq.2 rfl]
    · have differ : nearby n ≠ nearby m := (apart.resolve_left more.ne').symm
      rw [compare_gt_iff_gt.2 more]
      exact compare_gt_iff_gt.2 ((Double.nearby_mono more.le).lt_of_ne differ)
  rw [← Operator.holds_compare, same, Operator.holds_compare]

theorem satisfies_overflow {m : ℤ} (far : ¬ m.natAbs < overflow) (n : ℤ) (o : Operator) :
    (int m).satisfies o.text (digits n) = .error .tooLarge := by
  rw [satisfies_of_numeric (c := ⟨o.text, String.ofList (Text.decimal n)⟩) o.ofText?_text
    (Bool.and_eq_true_iff.2 ⟨rfl, numeric_digits n⟩), toNumber_int, if_neg far]
  rfl

theorem apart_of_small {m n : ℤ} (left : m.natAbs ≤ 2 ^ 53) (right : n.natAbs ≤ 2 ^ 53) :
    m = n ∨ nearby m ≠ nearby n := by
  refine or_iff_not_imp_left.2 fun differ same => differ ?_
  rw [Double.nearby_of_le left, Double.nearby_of_le right] at same
  exact Int.cast_inj.1 (WithTop.coe_inj.1 (WithBot.coe_inj.1 same))

variable {m n : ℤ} {a : Value} (given : a = .int m ∨ a = digits m)
include given

theorem satisfies_digits (near : a = .int m → m.natAbs < overflow) (o : Operator) :
    a.satisfies o.text (digits n) = .ok (o.relates (nearby m) (nearby n)) := by
  rcases given with rfl | rfl
  · exact satisfies_of_denotes (denotes_int (near rfl)) (denotes_digits n)
      (Bool.and_eq_true_iff.2 ⟨rfl, numeric_digits n⟩) o
  · exact satisfies_of_denotes (denotes_digits m) (denotes_digits n)
      (Bool.and_eq_true_iff.2 ⟨numeric_digits m, numeric_digits n⟩) o

/-- An integer is compared through the double nearest to it, and one without such a double cannot be
compared. So two integers compare as integers do, by all operators, if and only if there are such
doubles and they tell them apart. They always do up to `2 ^ 53`. -/
theorem integers_compare_iff :
    ((a = .int m → m.natAbs < overflow) →
      ∀ o : Operator, a.satisfies o.text (digits n) = .ok (o.relates (nearby m) (nearby n))) ∧
    (a = .int m → ¬ m.natAbs < overflow →
      ∀ o : Operator, a.satisfies o.text (digits n) = .error .tooLarge) ∧
    ((∀ o : Operator, a.satisfies o.text (digits n) = .ok (o.relates m n)) ↔
      (a = .int m → m.natAbs < overflow) ∧ (m = n ∨ nearby m ≠ nearby n)) ∧
    (m.natAbs ≤ 2 ^ 53 → n.natAbs ≤ 2 ^ 53 →
      ∀ o : Operator, a.satisfies o.text (digits n) = .ok (o.relates m n)) := by
  have sufficient (near : a = .int m → m.natAbs < overflow)
      (apart : m = n ∨ nearby m ≠ nearby n) (o : Operator) :
      a.satisfies o.text (digits n) = .ok (o.relates m n) := by
    rw [satisfies_digits given near, relates_nearby apart]
  refine ⟨satisfies_digits given, ?_, ⟨fun right => ?_, fun h => sufficient h.1 h.2⟩, ?_⟩
  · rintro rfl far o
    exact satisfies_overflow far n o
  · have near : a = .int m → m.natAbs < overflow := by
      rintro rfl
      by_contra far
      exact nomatch (satisfies_overflow far n .eq).symm.trans (right .eq)
    have equality : decide (nearby m = nearby n) = decide (m = n) :=
      Except.ok.inj ((satisfies_digits given near .eq).symm.trans (right .eq))
    refine ⟨near, or_iff_not_imp_left.2 fun differ same => differ ?_⟩
    exact of_decide_eq_true (equality.symm.trans (decide_eq_true same))
  · intro left right
    have near : m.natAbs < overflow := left.trans_lt (by decide +kernel)
    exact sufficient (fun _ => near) (apart_of_small left right)

end Integers

theorem large_integers_compare :
    Double.nearby 9007199254740993 ≠ Double.nearby (-9007199254740995) ∧
      ∀ o : Operator, (int 9007199254740993).satisfies o.text (digits (-9007199254740995)) =
        .ok (o.relates (9007199254740993 : ℤ) (-9007199254740995)) := by
  have apart : Double.nearby 9007199254740993 ≠ Double.nearby (-9007199254740995) := by
    decide +kernel
  have near : (9007199254740993 : ℤ).natAbs < Double.overflow := by decide +kernel
  exact ⟨apart, (integers_compare_iff (.inl rfl)).2.2.1.2 ⟨fun _ => near, .inr apart⟩⟩

/-- An integer and its successor that have one nearest double are taken for equal, and an integer
beyond all doubles cannot be compared at all. -/
theorem successors_are_taken_for_equal :
    Operator.eq.relates (9007199254740993 : ℤ) 9007199254740992 = false ∧
      (int 9007199254740993).satisfies "==" (digits 9007199254740992) = .ok true ∧
      (digits 9007199254740993).satisfies "==" (digits 9007199254740992) = .ok true ∧
      (int (10 ^ 400)).satisfies ">" (digits 1) = .error .tooLarge := by
  exact ⟨by decide, by rfl, by rfl, satisfies_overflow (by decide +kernel) 1 .gt⟩

end Value

end Stencil
