import Mathlib.Algebra.Group.Nat.Defs
import Mathlib.Data.List.Basic
import Scriptlet.Proofs.Lexical.Segment
import Scriptlet.Text.Digits

/-!
# Decimal digits and integers

The digits of a number and the number of digits: `Nat.toDigits` writes a number, `Text.digitsValue` reads it, and zeros
at either end of the digits do what they should.  `IsDecimal` says what the canonical decimal of an integer is.
-/

namespace Scriptlet.Text

open Lexical (IsDigits)

/-! ### Digits and their number -/

private theorem digitsValue_eq (ds : List Char) : digitsValue ds = Nat.ofDigitChars 10 ds 0 := rfl

/-- A number is what its digits stand for. -/
theorem digitsValue_toDigits (n : Nat) : digitsValue (Nat.toDigits 10 n) = n := Nat.ofDigitChars_ten_toDigits

/-- Zeros at the end multiply by a power of ten. -/
theorem digitsValue_append_zeros (ds : List Char) (n : Nat) :
    digitsValue (ds ++ List.replicate n '0') = digitsValue ds * 10 ^ n := by
  rw [digitsValue_eq, digitsValue_eq, Nat.ofDigitChars_append, Nat.ofDigitChars_replicate_zero, Nat.mul_comm]

/-- Zeros at the front do not count. -/
theorem digitsValue_zeros_append (n : Nat) (ds : List Char) :
    digitsValue (List.replicate n '0' ++ ds) = digitsValue ds := by
  rw [digitsValue_eq, digitsValue_eq, Nat.ofDigitChars_append, Nat.ofDigitChars_replicate_zero, Nat.mul_zero]

/-- Numbers are written with digits alone. -/
theorem isDigit_of_mem_toDigits {n : Nat} : ∀ c ∈ Nat.toDigits 10 n, c.isDigit = true := fun _ hc =>
  Nat.isDigit_of_mem_toDigits (by decide) (by decide) hc

theorem isDigit_of_mem_zeros {n : Nat} : ∀ c ∈ List.replicate n '0', c.isDigit = true := fun c hc => by
  rw [List.eq_of_mem_replicate hc]
  decide

theorem isDigit_of_mem_zero : ∀ c ∈ ['0'], c.isDigit = true := isDigit_of_mem_zeros (n := 1)

/-- A character that is no digit is in no number. -/
theorem notMem_toDigits {c : Char} (h : c.isDigit = false) (n : Nat) : c ∉ Nat.toDigits 10 n := by
  intro hc
  rw [isDigit_of_mem_toDigits c hc] at h
  cases h

/-- Numbers with the same digits are equal. -/
theorem toDigits_inj {m n : Nat} (h : Nat.toDigits 10 m = Nat.toDigits 10 n) : m = n := by
  rw [← digitsValue_toDigits m, h, digitsValue_toDigits]

/-- Only zero begins with a zero. -/
theorem head?_toDigits {n : Nat} (h : (Nat.toDigits 10 n).head? = some '0') : n = 0 := by
  induction n using Nat.strongRecOn with
  | _ n ih =>
    rw [Nat.toDigits_eq_if (by decide)] at h
    split at h
    · next hlt =>
      have hzero : ∀ n < 10, Nat.digitChar n = '0' → n = 0 := by decide
      exact hzero n hlt (Option.some.inj h)
    · next hge =>
      rw [List.head?_append_of_ne_nil _ Nat.toDigits_ne_nil] at h
      have hzero := ih (n / 10) (by omega) h
      omega

/-- A number that ends with a zero is a multiple of ten. -/
theorem getLast?_toDigits {n : Nat} (h : (Nat.toDigits 10 n).getLast? = some '0') : n % 10 = 0 := by
  have hlast : (Nat.toDigits 10 n).getLast? = some (Nat.digitChar (n % 10)) := by
    rw [Nat.toDigits_eq_if (by decide)]
    split
    · next hlt => rw [Nat.mod_eq_of_lt hlt]; rfl
    · exact List.getLast?_concat
  have hzero : ∀ n < 10, Nat.digitChar n = '0' → n = 0 := by decide
  rw [hlast] at h
  exact hzero _ (Nat.mod_lt n (by decide)) (Option.some.inj h)

/-- A number is less than the power of ten with as many zeros as it has digits. -/
theorem lt_pow_length_toDigits (n : Nat) : n < 10 ^ (Nat.toDigits 10 n).length :=
  (Nat.length_toDigits_le_iff (by decide) Nat.length_toDigits_pos).1 (Nat.le_refl _)

/-- The least number with as many digits. -/
theorem pow_length_toDigits_le {n : Nat} (hn : 0 < n) : 10 ^ ((Nat.toDigits 10 n).length - 1) ≤ n := by
  refine Nat.le_of_not_lt fun hlt => ?_
  rcases Nat.eq_zero_or_pos ((Nat.toDigits 10 n).length - 1) with hzero | hpos
  · rw [hzero] at hlt
    omega
  · have hle := (Nat.length_toDigits_le_iff (by decide) hpos).2 hlt
    omega

/-! ### Integers -/

/-- An integer is written with its digits, after a minus if it is negative. -/
private theorem toList_toString (n : Int) : (toString n).toList =
    if 0 ≤ n then Nat.toDigits 10 n.toNat else '-' :: Nat.toDigits 10 (-n).toNat := by
  rw [Int.toString_eq_repr, Int.repr_eq_if]
  split
  · rw [Nat.toList_repr]
  · simp [Nat.toList_repr]

/-- The canonical decimal of an integer: its digits without zeros before them, after a minus if it is negative. -/
def IsDecimal (n : Int) (text : String) : Prop :=
  ∃ digits : List Char, IsDigits digits ∧ (digits.head? = some '0' → digits = ['0']) ∧
    digitsValue digits = n.natAbs ∧ text.toList = if n < 0 then '-' :: digits else digits

/-- An integer is written as its one decimal. -/
theorem isDecimal_toString (n : Int) : IsDecimal n (toString n) := by
  refine ⟨Nat.toDigits 10 n.natAbs, ⟨Nat.toDigits_ne_nil, isDigit_of_mem_toDigits⟩, fun h => ?_,
    digitsValue_toDigits _, ?_⟩
  · rw [head?_toDigits h]
    rfl
  · rw [toList_toString]
    by_cases hn : n < 0
    · rw [if_pos hn, if_neg (by omega), show (-n).toNat = n.natAbs by omega]
    · rw [if_neg hn, if_pos (by omega), show n.toNat = n.natAbs by omega]

end Scriptlet.Text
