import Mathlib
import Stencil.Double

set_option autoImplicit false

/-!
# The nearest double of an integer

A double denotes a rational number or one of the two infinities, and doubles compare as what they
denote. Of an integer the nearest double keeps the first 53 binary digits, rounded, so that taking
the nearest double never turns an order round; it loses nothing up to `2 ^ 53`, and from
`2 ^ 1024 - 2 ^ 970` on it is infinite.
-/

namespace Stencil.Double

abbrev Extended : Type :=
  WithBot (WithTop ℚ)

def scaled (negative : Bool) (mantissa : ℕ) (exponent : ℤ) : ℚ :=
  (if negative then -(mantissa : ℚ) else mantissa) * 2 ^ exponent

/-- What a double denotes, unless it is NaN. -/
def value? : Double → Option Extended
  | nan => none
  | infinity true => some ⊥
  | infinity false => some (⊤ : WithTop ℚ)
  | finite s m e => some (scaled s m e : WithTop ℚ)

theorem isFinite_iff {x : Double} :
    x.isFinite = true ↔ ∃ q : ℚ, x.value? = some (q : WithTop ℚ) := by
  constructor
  · intro finite
    cases x with
    | finite s m e => exact ⟨_, rfl⟩
    | nan => exact nomatch finite
    | infinity s => exact nomatch finite
  · rintro ⟨q, denoted⟩
    cases x with
    | finite s m e => rfl
    | nan => exact nomatch denoted
    | infinity s => cases s <;> exact nomatch denoted

section Comparing

theorem compare_of_strictMono {α β : Type} [LinearOrder α] [LinearOrder β] {f : α → β}
    (h : StrictMono f) (a b : α) : compare (f a) (f b) = compare a b := by
  rw [← cmp_eq_compare, ← cmp_eq_compare, h.cmp_map_eq]

theorem signedIn_scaled {unit exponent : ℤ} (fine : unit ≤ exponent) (s : Bool) (m : ℕ) :
    (signedIn unit s m exponent : ℚ) * 2 ^ unit = scaled s m exponent := by
  have power : (2 : ℚ) ^ (exponent - unit).toNat * 2 ^ unit = 2 ^ exponent := by
    rw [← zpow_natCast, Int.toNat_of_nonneg (by omega), ← zpow_add₀ two_ne_zero]
    congr 1
    omega
  unfold signedIn scaled
  rw [← power]
  cases s with
  | false =>
    simp only [Bool.false_eq_true, if_false, Nat.pow_eq]
    push_cast
    ring
  | true =>
    simp only [if_true, Nat.pow_eq]
    push_cast
    ring

theorem strictMono_units (unit : ℤ) :
    StrictMono fun n : ℤ => (((n : ℚ) * 2 ^ unit : ℚ) : Extended) := by
  intro m n less
  refine WithBot.coe_lt_coe.2 (WithTop.coe_lt_coe.2 ?_)
  exact mul_lt_mul_of_pos_right (Int.cast_lt.2 less) (zpow_pos two_pos unit)

theorem compare?_eq (x y : Double) :
    x.compare? y = x.value?.bind fun p => y.value?.map (compare p) := by
  have low (p : WithTop ℚ) : compare (⊥ : Extended) p = .lt :=
    compare_lt_iff_lt.2 (WithBot.bot_lt_coe p)
  have notLow (p : WithTop ℚ) : compare (p : Extended) ⊥ = .gt :=
    compare_gt_iff_gt.2 (WithBot.bot_lt_coe p)
  have high (q : ℚ) : compare ((⊤ : WithTop ℚ) : Extended) (q : WithTop ℚ) = .gt :=
    compare_gt_iff_gt.2 (WithBot.coe_lt_coe.2 (WithTop.coe_lt_top q))
  have notHigh (q : ℚ) : compare ((q : WithTop ℚ) : Extended) (⊤ : WithTop ℚ) = .lt :=
    compare_lt_iff_lt.2 (WithBot.coe_lt_coe.2 (WithTop.coe_lt_top q))
  cases x with
  | nan => cases y <;> rfl
  | infinity a =>
    cases y with
    | nan => cases a <;> rfl
    | infinity b =>
      cases a <;> cases b
      · exact congrArg some (compare_eq_iff_eq.2 rfl).symm
      · exact congrArg some (notLow ⊤).symm
      · exact congrArg some (low ⊤).symm
      · exact congrArg some (compare_eq_iff_eq.2 rfl).symm
    | finite t n f =>
      cases a with
      | false => exact congrArg some (high _).symm
      | true => exact congrArg some (low _).symm
  | finite s m e =>
    cases y with
    | nan => rfl
    | infinity b =>
      cases b with
      | false => exact congrArg some (notHigh _).symm
      | true => exact congrArg some (notLow _).symm
    | finite t n f =>
      simp only [compare?, value?, Option.bind_some, Option.map_some]
      rw [← signedIn_scaled (min_le_left e f) s m, ← signedIn_scaled (min_le_right e f) t n]
      exact congrArg some (compare_of_strictMono (strictMono_units (min e f)) _ _).symm

end Comparing

section Quotients

theorem roundQuotient_mul (q : ℕ) {d : ℕ} (positive : 0 < d) : roundQuotient (q * d) d = q := by
  unfold roundQuotient
  simp only [Nat.mul_div_left q positive, Nat.mul_mod_left, mul_zero, if_pos positive]

theorem div_le_roundQuotient (n d : ℕ) : n / d ≤ roundQuotient n d := by
  unfold roundQuotient
  simp only
  split_ifs <;> omega

theorem roundQuotient_le (n d : ℕ) : roundQuotient n d ≤ n / d + 1 := by
  unfold roundQuotient
  simp only
  split_ifs <;> omega

theorem roundQuotient_mono {m n : ℕ} (d : ℕ) (le : m ≤ n) :
    roundQuotient m d ≤ roundQuotient n d := by
  rcases (Nat.div_le_div_right le : m / d ≤ n / d).lt_or_eq with less | same
  · exact (roundQuotient_le m d).trans (Nat.le_trans less (div_le_roundQuotient n d))
  · have left := Nat.div_add_mod m d
    have right := Nat.div_add_mod n d
    rw [same] at left
    unfold roundQuotient
    simp only [same]
    split_ifs <;> omega

end Quotients

/-- The multiple of `2 ^ j` nearest to a number, of two equally near ones the even one. -/
def onGrid (j n : ℕ) : ℕ :=
  roundQuotient n (2 ^ j) * 2 ^ j

theorem onGrid_mono (j : ℕ) {m n : ℕ} (le : m ≤ n) : onGrid j m ≤ onGrid j n :=
  Nat.mul_le_mul_right _ (roundQuotient_mono _ le)

theorem onGrid_of_dvd {j n : ℕ} (whole : 2 ^ j ∣ n) : onGrid j n = n := by
  obtain ⟨q, rfl⟩ := whole
  rw [onGrid, Nat.mul_comm (2 ^ j) q, roundQuotient_mul q (Nat.two_pow_pos j)]

/-- A number with its first 53 binary digits kept, the last of them rounded. -/
def rounded (n : ℕ) : ℕ :=
  onGrid (n.log2 - 52) n

section Rounded

variable {n : ℕ}

theorem le_rounded (h : n ≠ 0) : 2 ^ n.log2 ≤ rounded n := by
  have whole : 2 ^ (n.log2 - 52) ∣ 2 ^ n.log2 := Nat.pow_dvd_pow 2 (by omega)
  rw [← onGrid_of_dvd whole]
  exact onGrid_mono _ (Nat.log2_self_le h)

theorem rounded_le (n : ℕ) : rounded n ≤ 2 ^ (n.log2 + 1) := by
  have whole : 2 ^ (n.log2 - 52) ∣ 2 ^ (n.log2 + 1) := Nat.pow_dvd_pow 2 (by omega)
  rw [← onGrid_of_dvd whole]
  exact onGrid_mono _ Nat.lt_log2_self.le

theorem log2_mono {m n : ℕ} (le : m ≤ n) : m.log2 ≤ n.log2 := by
  by_cases zero : m = 0
  · rw [zero, Nat.log2_zero]
    exact Nat.zero_le _
  · exact (Nat.le_log2 (by omega)).2 ((Nat.log2_self_le zero).trans le)

/-- Between two numbers with equally many digits the grid is one; otherwise a power of two stands
between the roundings. -/
theorem rounded_mono {m n : ℕ} (le : m ≤ n) : rounded m ≤ rounded n := by
  rcases (log2_mono le).lt_or_eq with shorter | same
  · have nonzero : n ≠ 0 := by
      intro zero
      rw [zero, Nat.log2_zero] at shorter
      exact Nat.not_lt_zero _ shorter
    calc
      rounded m ≤ 2 ^ (m.log2 + 1) := rounded_le m
      _ ≤ 2 ^ n.log2 := Nat.pow_le_pow_right two_pos shorter
      _ ≤ rounded n := le_rounded nonzero
  · rw [rounded, rounded, same]
    exact onGrid_mono _ le

theorem rounded_of_le (small : n ≤ 2 ^ 53) : rounded n = n := by
  refine onGrid_of_dvd ?_
  rcases small.lt_or_eq with less | rfl
  · by_cases zero : n = 0
    · rw [zero]
      exact Nat.dvd_zero _
    · have short : n.log2 < 53 := (Nat.log2_lt zero).2 less
      rw [show n.log2 - 52 = 0 by omega]
      exact Nat.one_dvd n
  · rw [Nat.log2_two_pow]
    decide

end Rounded

section Packing

theorem inUnits_one {n k : ℕ} {exponent : ℤ} (fits : exponent + k ≤ n.log2) (h : n ≠ 0) :
    2 ^ k ≤ (inUnits n 1 exponent).1 / (inUnits n 1 exponent).2 := by
  have own : 2 ^ n.log2 ≤ n := Nat.log2_self_le h
  unfold inUnits
  split_ifs with up
  · simp only [Nat.pow_eq, one_mul]
    rw [Nat.le_div_iff_mul_le (Nat.two_pow_pos _), ← pow_add]
    exact (Nat.pow_le_pow_right two_pos (by omega)).trans own
  · simp only [Nat.pow_eq, Nat.div_one]
    calc
      2 ^ k ≤ 2 ^ (n.log2 + (-exponent).toNat) := Nat.pow_le_pow_right two_pos (by omega)
      _ = 2 ^ n.log2 * 2 ^ (-exponent).toNat := pow_add 2 _ _
      _ ≤ n * 2 ^ (-exponent).toNat := Nat.mul_le_mul_right _ own

/-- The mantissa that a number is rounded to, counted in units of its fifty-third digit. -/
def mantissaOf (n : ℕ) : ℕ :=
  roundQuotient (inUnits n 1 ((n.log2 : ℤ) - 52)).1 (inUnits n 1 ((n.log2 : ℤ) - 52)).2

theorem ofRatio_one (s : Bool) {n : ℕ} (h : n ≠ 0) :
    ofRatio s n 1 = pack s (mantissaOf n) ((n.log2 : ℤ) - 52) := by
  have low : max ((n.log2 : ℤ) - (Nat.log2 1 : ℕ) - 53) minExponent = (n.log2 : ℤ) - 53 := by
    have single : Nat.log2 1 = 0 := by decide
    rw [single, minExponent]
    omega
  have full : 2 * fullMantissa ≤
      (inUnits n 1 ((n.log2 : ℤ) - 53)).1 / (inUnits n 1 ((n.log2 : ℤ) - 53)).2 :=
    inUnits_one (k := 53) (by omega) h
  have next : (n.log2 : ℤ) - 53 + 1 = (n.log2 : ℤ) - 52 := by omega
  unfold ofRatio
  simp only [if_neg h, low, if_pos full, next]
  rfl

theorem mantissaOf_units (n : ℕ) :
    (mantissaOf n : ℚ) * 2 ^ ((n.log2 : ℤ) - 52) = rounded n := by
  unfold mantissaOf inUnits rounded onGrid
  split_ifs with up
  · have places : ((n.log2 : ℤ) - 52).toNat = n.log2 - 52 := by omega
    have power : (2 : ℚ) ^ ((n.log2 : ℤ) - 52) = 2 ^ (n.log2 - 52) := by
      rw [← places, ← zpow_natCast, Int.toNat_of_nonneg up]
    simp only [Nat.pow_eq, one_mul, places, power]
    push_cast
    rfl
  · have none : n.log2 - 52 = 0 := by omega
    have whole (q : ℕ) : roundQuotient q 1 = q := by
      have exact := roundQuotient_mul q one_pos
      rwa [Nat.mul_one] at exact
    have power : (2 : ℚ) ^ (-((n.log2 : ℤ) - 52)).toNat * 2 ^ ((n.log2 : ℤ) - 52) = 1 := by
      rw [← zpow_natCast, Int.toNat_of_nonneg (by omega), ← zpow_add₀ two_ne_zero]
      simp
    simp only [Nat.pow_eq, none, pow_zero, whole, mul_one]
    push_cast
    rw [mul_assoc, power, mul_one]

theorem two_pow_units {k j : ℕ} {e : ℤ} (total : (k : ℤ) + e = j) :
    ((2 ^ k : ℕ) : ℚ) * 2 ^ e = (2 ^ j : ℕ) := by
  rw [Nat.cast_pow, Nat.cast_pow, Nat.cast_ofNat, ← zpow_natCast, ← zpow_natCast,
    ← zpow_add₀ two_ne_zero, total]

theorem mantissaOf_bounds {n : ℕ} (h : n ≠ 0) : 2 ^ 52 ≤ mantissaOf n ∧ mantissaOf n ≤ 2 ^ 53 := by
  have unit : (0 : ℚ) < 2 ^ ((n.log2 : ℤ) - 52) := zpow_pos two_pos _
  have first : ((2 ^ 52 : ℕ) : ℚ) * 2 ^ ((n.log2 : ℤ) - 52) = (2 ^ n.log2 : ℕ) :=
    two_pow_units (by omega)
  have last : ((2 ^ 53 : ℕ) : ℚ) * 2 ^ ((n.log2 : ℤ) - 52) = (2 ^ (n.log2 + 1) : ℕ) :=
    two_pow_units (by omega)
  constructor
  · refine Nat.cast_le.1 (le_of_mul_le_mul_right ?_ unit)
    rw [first, mantissaOf_units]
    exact Nat.cast_le.2 (le_rounded h)
  · refine Nat.cast_le.1 (le_of_mul_le_mul_right ?_ unit)
    rw [last, mantissaOf_units]
    exact Nat.cast_le.2 (rounded_le n)

def limit : ℕ :=
  2 ^ 1024

theorem two_pow_le_limit {k : ℕ} (near : k ≤ 1024) : 2 ^ k ≤ limit := by
  rw [limit, Nat.pow_le_pow_iff_right (by decide)]
  exact near

theorem lt_limit_iff {m : ℕ} (low : 2 ^ 52 ≤ m) (high : m < 2 ^ 53) (e : ℤ) :
    (m : ℚ) * 2 ^ e < limit ↔ e ≤ maxExponent := by
  have unit : (0 : ℚ) < 2 ^ e := zpow_pos two_pos e
  constructor
  · intro small
    by_contra far
    have beyond : (972 : ℤ) ≤ e := by
      unfold maxExponent at far
      omega
    refine not_le.2 small ?_
    calc
      (limit : ℚ) = (2 ^ 52 : ℕ) * 2 ^ (972 : ℤ) := (two_pow_units rfl).symm
      _ ≤ m * 2 ^ (972 : ℤ) :=
        mul_le_mul_of_nonneg_right (Nat.cast_le.2 low) (zpow_pos two_pos _).le
      _ ≤ m * 2 ^ e :=
        mul_le_mul_of_nonneg_left (zpow_le_zpow_right₀ one_le_two beyond) (Nat.cast_nonneg m)
  · intro near
    calc
      (m : ℚ) * 2 ^ e < (2 ^ 53 : ℕ) * 2 ^ e :=
        mul_lt_mul_of_pos_right (Nat.cast_lt.2 high) unit
      _ ≤ (2 ^ 53 : ℕ) * 2 ^ (971 : ℤ) :=
        mul_le_mul_of_nonneg_left (zpow_le_zpow_right₀ one_le_two near) (Nat.cast_nonneg _)
      _ = limit := two_pow_units rfl

def extended : Bool → ℚ → Extended
  | false, q => if q < limit then (q : WithTop ℚ) else (⊤ : WithTop ℚ)
  | true, q => if q < limit then ((-q : ℚ) : WithTop ℚ) else ⊥

theorem extended_of_lt {q : ℚ} (small : q < limit) (s : Bool) :
    extended s q = ((if s then -q else q : ℚ) : WithTop ℚ) := by
  cases s with
  | false => exact if_pos small
  | true => exact if_pos small

theorem extended_of_not_lt {q : ℚ} (large : ¬ q < limit) (s : Bool) :
    some (extended s q) = (infinity s).value? := by
  cases s with
  | false => exact congrArg some (if_neg large)
  | true => exact congrArg some (if_neg large)

theorem value?_packed {m : ℕ} (low : 2 ^ 52 ≤ m) (high : m < 2 ^ 53) (s : Bool) (e : ℤ) :
    (if maxExponent < e then infinity s else finite s m e).value? =
      some (extended s (m * 2 ^ e)) := by
  by_cases near : e ≤ maxExponent
  · rw [if_neg (not_lt.2 near), extended_of_lt ((lt_limit_iff low high e).2 near)]
    simp only [value?, scaled]
    cases s with
    | false => rfl
    | true => simp only [if_true, neg_mul]
  · rw [if_pos (not_le.1 near), extended_of_not_lt (mt (lt_limit_iff low high e).1 near)]

theorem value?_pack {m : ℕ} (low : 2 ^ 52 ≤ m) (high : m ≤ 2 ^ 53) (s : Bool) (e : ℤ) :
    (pack s m e).value? = some (extended s (m * 2 ^ e)) := by
  have carry : 2 * fullMantissa = 2 ^ 53 := by decide
  rcases high.lt_or_eq with less | rfl
  · have packed : pack s m e = if maxExponent < e then infinity s else finite s m e := by
      unfold pack
      simp only [carry, if_neg less.ne, if_neg (by omega : ¬ m = 0)]
    rw [packed]
    exact value?_packed low less s e
  · have packed : pack s (2 ^ 53) e =
        if maxExponent < e + 1 then infinity s else finite s (2 ^ 52) (e + 1) := rfl
    have same : ((2 ^ 53 : ℕ) : ℚ) * 2 ^ e = (2 ^ 52 : ℕ) * 2 ^ (e + 1) := by
      rw [zpow_add_one₀ two_ne_zero, pow_succ 2 52, Nat.cast_mul]
      push_cast
      ring
    rw [packed, same]
    exact value?_packed (by decide) (by decide) s (e + 1)

theorem value?_ofRatio_one (s : Bool) {n : ℕ} (h : n ≠ 0) :
    (ofRatio s n 1).value? = some (extended s (rounded n)) := by
  obtain ⟨low, high⟩ := mantissaOf_bounds h
  rw [ofRatio_one s h, value?_pack low high, mantissaOf_units]

end Packing

/-- The double nearest to an integer, which is infinite for an integer beyond all doubles. -/
def nearest (n : ℤ) : Double :=
  ofRatio (decide (n < 0)) n.natAbs 1

/-- What the double nearest to an integer denotes. -/
def nearby (n : ℤ) : Extended :=
  extended (decide (n < 0)) (rounded n.natAbs)

section Nearest

theorem limit_pos : (0 : ℚ) < limit :=
  Nat.cast_pos.2 (by decide +kernel)

theorem value?_nearest (n : ℤ) : (nearest n).value? = some (nearby n) := by
  by_cases zero : n = 0
  · subst zero
    have kept : rounded (Int.natAbs 0) = 0 := rounded_of_le (Nat.zero_le _)
    have bare : nearest 0 = finite false 0 0 := rfl
    rw [bare, nearby, kept, Nat.cast_zero, extended_of_lt limit_pos]
    simp [value?, scaled]
  · exact value?_ofRatio_one _ (Int.natAbs_ne_zero.2 zero)

theorem coe_mono {p q : ℚ} (le : p ≤ q) : ((p : WithTop ℚ) : Extended) ≤ (q : WithTop ℚ) :=
  WithBot.coe_le_coe.2 (WithTop.coe_le_coe.2 le)

theorem extended_false_mono {p q : ℚ} (le : p ≤ q) : extended false p ≤ extended false q := by
  simp only [extended]
  split_ifs with left right right
  · exact coe_mono le
  · exact WithBot.coe_le_coe.2 le_top
  · exact absurd (le.trans_lt right) left
  · exact le_refl _

theorem extended_true_anti {p q : ℚ} (le : p ≤ q) : extended true q ≤ extended true p := by
  simp only [extended]
  split_ifs with left right right
  · exact coe_mono (neg_le_neg le)
  · exact absurd (le.trans_lt left) right
  · exact bot_le
  · exact le_refl _

theorem extended_true_le {p q : ℚ} (hp : 0 ≤ p) (hq : 0 ≤ q) :
    extended true p ≤ extended false q := by
  simp only [extended]
  split_ifs
  · exact coe_mono ((neg_nonpos.2 hp).trans hq)
  · exact WithBot.coe_le_coe.2 le_top
  · exact bot_le
  · exact bot_le

theorem nearby_mono : Monotone nearby := by
  intro m n le
  unfold nearby
  by_cases left : m < 0
  · by_cases right : n < 0
    · rw [decide_eq_true left, decide_eq_true right]
      exact extended_true_anti (Nat.cast_le.2 (rounded_mono (by omega)))
    · rw [decide_eq_true left, decide_eq_false right]
      exact extended_true_le (Nat.cast_nonneg _) (Nat.cast_nonneg _)
  · rw [decide_eq_false left, decide_eq_false (by omega : ¬ n < 0)]
    exact extended_false_mono (Nat.cast_le.2 (rounded_mono (by omega)))

theorem nearby_of_le {n : ℤ} (small : n.natAbs ≤ 2 ^ 53) : nearby n = ((n : ℚ) : WithTop ℚ) := by
  have reach : n.natAbs < limit := small.trans_lt (by decide +kernel)
  rw [nearby, rounded_of_le small, extended_of_lt (Nat.cast_lt.2 reach)]
  by_cases negative : n < 0
  · have back : (n.natAbs : ℤ) = -n := by omega
    rw [decide_eq_true negative, if_pos rfl, ← Int.cast_natCast, back, Int.cast_neg, neg_neg]
  · have back : (n.natAbs : ℤ) = n := by omega
    rw [decide_eq_false negative, if_neg Bool.false_ne_true, ← Int.cast_natCast, back]

/-- The least natural number that no finite double is nearest to. -/
def overflow : ℕ :=
  2 ^ 1024 - 2 ^ 970

theorem rounded_lt_limit_iff (n : ℕ) : rounded n < limit ↔ n < overflow := by
  constructor
  · intro small
    by_contra far
    have reached : rounded overflow = limit := by decide +kernel
    have large := rounded_mono (not_lt.1 far)
    rw [reached] at large
    exact not_le.2 small large
  · intro near
    have last : rounded (overflow - 1) < limit := by decide +kernel
    exact (rounded_mono (Nat.le_sub_one_of_lt near)).trans_lt last

theorem isFinite_nearest {n : ℤ} : (nearest n).isFinite = true ↔ n.natAbs < overflow := by
  rw [isFinite_iff, value?_nearest, ← rounded_lt_limit_iff, ← Nat.cast_lt (α := ℚ), nearby]
  constructor
  · rintro ⟨q, denoted⟩
    by_contra large
    rw [extended_of_not_lt large] at denoted
    cases negative : decide (n < 0) <;> rw [negative] at denoted <;> exact nomatch denoted
  · intro small
    exact ⟨_, congrArg some (extended_of_lt small _)⟩

theorem ofInt?_eq (n : ℤ) :
    ofInt? n = if n.natAbs < overflow then some (nearest n) else none := by
  have found : ofInt? n = if (nearest n).isFinite then some (nearest n) else none := by
    unfold ofInt? nearest
    cases ofRatio (decide (n < 0)) n.natAbs 1 <;> rfl
  rw [found]
  exact if_congr isFinite_nearest rfl rfl

end Nearest

end Stencil.Double
