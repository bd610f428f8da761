import Mathlib.Algebra.Order.Field.Power
import Mathlib.Data.Rat.Cast.Order
import Mathlib.Tactic.Linarith
import Mathlib.Tactic.NormNum
import Mathlib.Tactic.Ring
import Scriptlet.Double.Basic

/-!
# The numbers that round to a double

`Rounds m q v` says that the rational number `v` is rounded to `m * 2 ^ q`: it lies between the middles to the doubles
below and above, a middle itself only if `m` is even.  No number rounds to two doubles (`Rounds.unique`), so that it is
enough, for a double that is found in one way or another, to know that it is one to which the number rounds.
-/

namespace Scriptlet.Double

variable {m m' : Nat} {q q' : Int} {v : ℚ}

theorem twoPow_cast (n : Nat) : ((twoPow n : Nat) : ℚ) = 2 ^ n := by
  rw [twoPow]
  exact_mod_cast rfl

theorem tenPow_cast (n : Nat) : ((tenPow n : Nat) : ℚ) = 10 ^ n := by
  rw [tenPow]
  exact_mod_cast rfl

/-- The mantissa is full, or the exponent is the least. -/
structure Normal (m : Nat) (q : Int) : Prop where
  lt : m < twoPow precision
  least : minExponent ≤ q
  full : twoPow (precision - 1) ≤ m ∨ q = minExponent

theorem twoPow_precision : twoPow precision = 9007199254740992 := rfl

theorem twoPow_precision_pred : twoPow (precision - 1) = 4503599627370496 := rfl

/-- The mantissa of a canonical number is full, unless the exponent is the least one. -/
theorem Canonical.normal {negative : Bool} (h : (finite negative m q).Canonical) : Normal m q :=
  ⟨h.1, h.2.1, h.2.2.2⟩

/-- Half of the way to the double below, as a multiple of `2 ^ q`: below a power of two the doubles stand twice as
close, unless the exponent is the least. -/
def below (m : Nat) (q : Int) : ℚ := if m = twoPow (precision - 1) ∧ minExponent < q then 1 / 4 else 1 / 2

/-- The middle to the double below. -/
def lower (m : Nat) (q : Int) : ℚ := (m - below m q) * 2 ^ q

/-- The middle to the double above. -/
def upper (m : Nat) (q : Int) : ℚ := (m + 1 / 2) * 2 ^ q

/-- The number is rounded to `m * 2 ^ q`. -/
structure Rounds (m : Nat) (q : Int) (v : ℚ) : Prop where
  lower_le : lower m q ≤ v
  le_upper : v ≤ upper m q
  even : v = lower m q ∨ v = upper m q → m % 2 = 0

private theorem below_pos (m : Nat) (q : Int) : 0 < below m q := by
  unfold below
  split <;> norm_num

/-- The middle to the double below is at most half a unit away. -/
theorem below_le (m : Nat) (q : Int) : below m q ≤ 1 / 2 := by
  unfold below
  split <;> norm_num

/-- What rounds to a positive number is positive. -/
theorem Rounds.pos (h : Rounds m q v) (hm : 0 < m) : 0 < v := by
  have hone : (1 : ℚ) ≤ m := by exact_mod_cast hm
  have hlow : 0 < lower m q := mul_pos (by linarith [below_le m q]) (zpow_pos (by norm_num) q)
  exact hlow.trans_le h.lower_le

/-- The middle below a double lies below it. -/
theorem lower_lt (m : Nat) (q : Int) : lower m q < m * 2 ^ q :=
  mul_lt_mul_of_pos_right (by linarith [below_pos m q]) (zpow_pos (by norm_num) q)

/-- The middle above a double lies above it. -/
theorem lt_upper (m : Nat) (q : Int) : (m : ℚ) * 2 ^ q < upper m q :=
  mul_lt_mul_of_pos_right (by linarith) (zpow_pos (by norm_num) q)

/-- What lies between a number that is rounded to a double and this double is rounded to it, from below. -/
theorem Rounds.of_le_of_le (h : Rounds m q v) {w : ℚ} (hv : v ≤ w) (hw : w ≤ m * 2 ^ q) : Rounds m q w := by
  have hupper := lt_upper m q
  refine ⟨h.lower_le.trans hv, hw.trans hupper.le, fun hend => ?_⟩
  rcases hend with hlow | hup
  · exact h.even (.inl (le_antisymm (hv.trans hlow.le) h.lower_le))
  · exact absurd (hup ▸ hw) (not_le.2 hupper)

/-- What lies between a number that is rounded to a double and this double is rounded to it, from above. -/
theorem Rounds.of_ge_of_ge (h : Rounds m q v) {w : ℚ} (hv : w ≤ v) (hw : m * 2 ^ q ≤ w) : Rounds m q w := by
  have hlower := lower_lt m q
  refine ⟨hlower.le.trans hw, hv.trans h.le_upper, fun hend => ?_⟩
  rcases hend with hlow | hup
  · exact absurd (hlow ▸ hw) (not_le.2 hlower)
  · exact h.even (.inr (le_antisymm h.le_upper (hup.symm.le.trans hv)))

/-! ### One double for each number -/

/-- Between two doubles with one exponent. -/
private theorem gap_same (hn : Normal m q) (h : m < m') :
    upper m q ≤ lower m' q ∧ (upper m q = lower m' q → m' = m + 1) := by
  have hpow : (0 : ℚ) < 2 ^ q := zpow_pos (by norm_num) q
  have hbelow : below m' q = 1 / 2 := by
    refine if_neg fun hfull => ?_
    rcases hn.full with hm | hq
    · omega
    · omega
  have hle : (m : ℚ) + 1 ≤ m' := by exact_mod_cast h
  unfold upper lower
  rw [hbelow]
  refine ⟨mul_le_mul_of_nonneg_right (by linarith) hpow.le, fun heq => ?_⟩
  have hfac := mul_right_cancel₀ hpow.ne' heq
  have hcast : (m' : ℚ) = m + 1 := by linarith
  exact_mod_cast hcast

/-- Between two doubles with different exponents. -/
private theorem gap_next (hn : Normal m q) (hn' : Normal m' q') (h : q < q') :
    upper m q ≤ lower m' q' ∧ (upper m q = lower m' q' → m % 2 = 1) := by
  have hpow : (0 : ℚ) < 2 ^ q := zpow_pos (by norm_num) q
  have hlt : m < 9007199254740992 := hn.lt
  have hfull : 4503599627370496 ≤ m' := by
    rcases hn'.full with hm | hq
    · exact hm
    · have := hn.least
      omega
  have hlow : (4503599627370496 : ℚ) - 1 / 4 ≤ m' - below m' q' := by
    by_cases hm : m' = 4503599627370496
    · have hb : below m' q' = 1 / 4 := if_pos ⟨hm, lt_of_le_of_lt hn.least h⟩
      rw [hb, hm]
      norm_num
    · have hm' : 4503599627370497 ≤ m' := by omega
      have hcast : (4503599627370497 : ℚ) ≤ m' := by exact_mod_cast hm'
      linarith [below_le m' q']
  -- the exponents differ by one or more, so that the units differ by a factor of two or more
  have hstep : (2 : ℚ) ≤ 2 ^ (q' - q) := by
    have := zpow_le_zpow_right₀ (a := (2 : ℚ)) (by norm_num) (by omega : 1 ≤ q' - q)
    simpa using this
  have hsplit : (2 : ℚ) ^ q' = 2 ^ (q' - q) * 2 ^ q := by
    rw [← zpow_add₀ (by norm_num)]
    congr 1
    omega
  have hcast : (m : ℚ) ≤ 9007199254740991 := by exact_mod_cast Nat.le_of_lt_succ hlt
  have hprod : (4503599627370496 - 1 / 4 : ℚ) * 2 ≤ (m' - below m' q') * 2 ^ (q' - q) :=
    mul_le_mul hlow hstep (by norm_num) (by linarith)
  unfold upper lower
  rw [hsplit, ← mul_assoc]
  refine ⟨mul_le_mul_of_nonneg_right (by linarith) hpow.le, fun heq => ?_⟩
  have hfac := mul_right_cancel₀ hpow.ne' heq
  have hge : (9007199254740991 : ℚ) ≤ m := by linarith
  have hge' : 9007199254740991 ≤ m := by exact_mod_cast hge
  omega

/-- A number that rounds to two doubles would be an end of both intervals, and both mantissas even. -/
private theorem not_rounds_both (hn : Normal m q) (hn' : Normal m' q') (h : Rounds m q v) (h' : Rounds m' q' v)
    (hlt : q < q' ∨ q = q' ∧ m < m') : False := by
  have hgap : upper m q ≤ lower m' q' ∧ (upper m q = lower m' q' → m % 2 = 1 ∨ m' = m + 1) := by
    rcases hlt with hq | ⟨rfl, hm⟩
    · exact (gap_next hn hn' hq).imp_right fun hodd heq => Or.inl (hodd heq)
    · exact (gap_same hn hm).imp_right fun hnext heq => Or.inr (hnext heq)
  have hup : v = upper m q := le_antisymm h.le_upper (hgap.1.trans h'.lower_le)
  have hlow : v = lower m' q' := le_antisymm (h.le_upper.trans hgap.1) h'.lower_le
  have heven := h.even (Or.inr hup)
  have heven' := h'.even (Or.inl hlow)
  have hodd := hgap.2 (hup.symm.trans hlow)
  omega

/-- No number rounds to two doubles. -/
theorem Rounds.unique (h : Rounds m q v) (h' : Rounds m' q' v) (hn : Normal m q) (hn' : Normal m' q') :
    m = m' ∧ q = q' := by
  rcases lt_trichotomy q q' with hq | rfl | hq
  · exact (not_rounds_both hn hn' h h' (Or.inl hq)).elim
  · rcases lt_trichotomy m m' with hm | rfl | hm
    · exact (not_rounds_both hn hn' h h' (Or.inr ⟨rfl, hm⟩)).elim
    · exact ⟨rfl, rfl⟩
    · exact (not_rounds_both hn' hn h' h (Or.inr ⟨rfl, hm⟩)).elim
  · exact (not_rounds_both hn' hn h' h (Or.inl hq)).elim

end Scriptlet.Double
