import Mathlib.Data.List.Basic
import Stencil.Text.Number

set_option autoImplicit false

/-!
# Decimal forms

An integer is written as a sign and digits. The digits are all read back, up to what stands behind
them, and they give the number again; the first is a zero for zero alone.
-/

namespace Stencil.Text

section Stretch

variable {p : Char → Bool} {cs rest : List Char} (inside : ∀ c ∈ cs, p c = true)
  (behind : ∀ c ∈ rest.head?, p c = false)
include inside behind

theorem takeWhile_stretch : (cs ++ rest).takeWhile p = cs := by
  rw [List.takeWhile_append_of_pos inside]
  cases rest with
  | nil => rw [List.takeWhile_nil, List.append_nil]
  | cons c rest =>
    rw [List.takeWhile_cons_of_neg (Bool.eq_false_iff.1 (behind c rfl)), List.append_nil]

theorem dropWhile_stretch : (cs ++ rest).dropWhile p = rest := by
  rw [List.dropWhile_append_of_pos inside]
  cases rest with
  | nil => rfl
  | cons c rest => exact List.dropWhile_cons_of_neg (Bool.eq_false_iff.1 (behind c rfl))

end Stretch

theorem digitValue?_ascii {c : Char} (h : c.isDigit = true) :
    digitValue? c = some (c.toNat - 0x30) := by
  have small : c.toNat < 128 := by
    simp only [Char.isDigit, Bool.and_eq_true, decide_eq_true_eq] at h
    have high : c.val.toNat ≤ 57 := h.2
    exact Nat.lt_of_le_of_lt high (by omega)
  rw [digitValue?, if_pos small, if_pos h]

theorem isDigit_ascii {c : Char} (h : c.isDigit = true) : isDigit c = true := by
  rw [isDigit, digitValue?_ascii h]
  rfl

theorem natOfDigits_ascii {cs : List Char} (h : ∀ c ∈ cs, c.isDigit = true) :
    natOfDigits cs = Nat.ofDigitChars 10 cs 0 := by
  have counted (start : Nat) : cs.foldl (fun n c => 10 * n + (digitValue? c).getD 0) start =
      Nat.ofDigitChars 10 cs start := by
    induction cs generalizing start with
    | nil => rfl
    | cons c cs ih =>
      obtain ⟨first, others⟩ := List.forall_mem_cons.1 h
      rw [List.foldl_cons, digitValue?_ascii first, ih others, Nat.ofDigitChars_cons]
      rfl
  exact counted 0

section Digits

variable (n : Nat)

theorem digits_ascii : ∀ c ∈ Nat.toDigits 10 n, c.isDigit = true :=
  fun _ h => Nat.isDigit_of_mem_toDigits (by omega) (by omega) h

theorem natOfDigits_toDigits : natOfDigits (Nat.toDigits 10 n) = n := by
  rw [natOfDigits_ascii (digits_ascii n)]
  exact Nat.ofDigitChars_toDigits (by omega) (by omega)

variable {n}

theorem head?_toDigits (h : n ≠ 0) : (Nat.toDigits 10 n).head? ≠ some '0' := by
  induction n using Nat.strongRecOn with
  | _ n ih =>
    by_cases small : n < 10
    · rw [Nat.toDigits_of_lt_base small]
      intro zero
      have digit : n.digitChar = '0' := Option.some.inj zero
      have value := natOfDigits_toDigits n
      rw [Nat.toDigits_of_lt_base small, digit] at value
      exact h value.symm
    · rw [Nat.toDigits_of_base_le (by omega) (by omega),
        List.head?_append_of_ne_nil _ Nat.toDigits_ne_nil]
      exact ih (n / 10) (by omega) (by omega)

end Digits

def decimal (n : Int) : List Char :=
  if n < 0 then '-' :: Nat.toDigits 10 n.natAbs else Nat.toDigits 10 n.natAbs

theorem decimal_ne_nil (n : Int) : decimal n ≠ [] := by
  unfold decimal
  split
  · exact List.cons_ne_nil _ _
  · exact Nat.toDigits_ne_nil

def numerals : List Char :=
  ['-', '0', '1', '2', '3', '4', '5', '6', '7', '8', '9']

theorem mem_numerals_of_isDigit {c : Char} (h : c.isDigit = true) : c ∈ numerals := by
  obtain ⟨low, high⟩ : 48 ≤ c.toNat ∧ c.toNat ≤ 57 := by
    simpa [Char.isDigit, UInt32.le_iff_toNat_le] using h
  have digits : ∀ n < 10, Char.ofNat (48 + n) ∈ numerals := by decide
  rw [← Char.ofNat_toNat c, ← Nat.add_sub_of_le low]
  exact digits (c.toNat - 48) (by omega)

theorem mem_numerals {n : Int} {c : Char} (h : c ∈ decimal n) : c ∈ numerals := by
  have digits : ∀ c ∈ Nat.toDigits 10 n.natAbs, c ∈ numerals :=
    fun c hc => mem_numerals_of_isDigit (digits_ascii _ c hc)
  unfold decimal at h
  split at h
  · rcases List.mem_cons.1 h with rfl | digit
    · exact List.mem_cons_self
    · exact digits c digit
  · exact digits c h

theorem all_decimal {p : Char → Bool} (h : numerals.all p = true) (n : Int) :
    ∀ c ∈ decimal n, p c = true :=
  fun c hc => List.all_eq_true.1 h c (mem_numerals hc)

/-- An integer with few enough digits to be converted. -/
def Converted (n : Int) : Prop :=
  (Nat.toDigits 10 n.natAbs).length ≤ maxDigits

instance (n : Int) : Decidable (Converted n) :=
  inferInstanceAs (Decidable ((Nat.toDigits 10 n.natAbs).length ≤ maxDigits))

theorem intText?_eq {n : Int} (h : Converted n) :
    intText? n = some (String.ofList (decimal n)) := by
  unfold intText?
  simp only [if_neg (Nat.not_lt.2 h)]
  rfl

end Stencil.Text
