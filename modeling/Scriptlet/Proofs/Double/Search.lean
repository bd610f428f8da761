import Mathlib.Tactic.FieldSimp
import Mathlib.Tactic.Positivity
import Scriptlet.Double.Shortest
import Scriptlet.Proofs.Double.Interval

/-!
# The search for a decimal

The search goes through ever finer grids.  On one grid it finds the decimal nearest to the double of those that round to
the double (`nearestAt?_eq_some`), or there is none that does (`nearestAt?_eq_none`).  It begins with the power of ten
of the double (`decimalExponent_spec`) and stops at the first grid with such a decimal (`firstHit_spec`).
-/

namespace Scriptlet.Double

variable {m : Nat} {q : Int}

/-- The number that a decimal stands for. -/
def Decimal.value (d : Decimal) : ℚ := d.digits * 10 ^ d.power

/-! ### Comparisons -/

/-- A power with the factor that makes its exponent a natural number. -/
private theorem zpow_mul_toNat {b : ℚ} (hb : b ≠ 0) (e : Int) : b ^ e * b ^ (-e).toNat = b ^ e.toNat := by
  rw [← zpow_natCast, ← zpow_natCast, ← zpow_add₀ hb]
  congr 1
  omega

section Scaled

variable (a : Nat) (e : Int) (d : Nat) (g : Int)

/-- The factor by which both sides of a comparison are multiplied. -/
private def factor (e g : Int) : ℚ := 2 ^ (-e).toNat * 10 ^ (-g).toNat

private theorem factor_pos (e g : Int) : 0 < factor e g := by
  unfold factor
  positivity

private theorem left_eq :
    ((a * twoPow e.toNat * tenPow (-g).toNat : Nat) : ℚ) = a * 2 ^ e * factor e g := by
  push_cast
  rw [twoPow_cast, tenPow_cast, ← zpow_mul_toNat two_ne_zero e, factor]
  ring

private theorem right_eq :
    ((d * tenPow g.toNat * twoPow (-e).toNat : Nat) : ℚ) = d * 10 ^ g * factor e g := by
  push_cast
  rw [twoPow_cast, tenPow_cast, ← zpow_mul_toNat (by norm_num) g, factor]
  ring

private theorem scaled_lt : a * twoPow e.toNat * tenPow (-g).toNat < d * tenPow g.toNat * twoPow (-e).toNat ↔
    (a : ℚ) * 2 ^ e < d * 10 ^ g := by
  rw [← Nat.cast_lt (α := ℚ), left_eq, right_eq, mul_lt_mul_iff_of_pos_right (factor_pos e g)]

private theorem scaled_eq : a * twoPow e.toNat * tenPow (-g).toNat = d * tenPow g.toNat * twoPow (-e).toNat ↔
    (a : ℚ) * 2 ^ e = d * 10 ^ g := by
  rw [← Nat.cast_inj (R := ℚ), left_eq, right_eq, mul_left_inj' (factor_pos e g).ne']

private theorem compareScaled_eq_lt : compareScaled a e d g = .lt ↔ (a : ℚ) * 2 ^ e < d * 10 ^ g := by
  unfold compareScaled
  rw [Nat.compare_eq_lt, scaled_lt]

private theorem compareScaled_eq_eq : compareScaled a e d g = .eq ↔ (a : ℚ) * 2 ^ e = d * 10 ^ g := by
  unfold compareScaled
  rw [Nat.compare_eq_eq, scaled_eq]

private theorem compareScaled_eq_gt : compareScaled a e d g = .gt ↔ (d : ℚ) * 10 ^ g < a * 2 ^ e := by
  have h := scaled_lt a e d g
  have h' := scaled_eq a e d g
  unfold compareScaled
  rw [Nat.compare_eq_gt, ← not_le, Nat.le_iff_lt_or_eq, h, h', ← le_iff_lt_or_eq, not_le]

end Scaled

/-! ### The interval -/

private theorem two_zpow_sub (q : Int) : (4 : ℚ) * 2 ^ (q - 2) = 2 ^ q := by
  rw [zpow_sub₀ two_ne_zero]
  norm_num
  ring

private theorem interval_value (m : Nat) (q : Int) :
    ((interval m q).value : ℚ) * 2 ^ (interval m q).exponent = m * 2 ^ q := by
  rw [← two_zpow_sub q]
  simp only [interval]
  push_cast
  ring

private theorem interval_hi (m : Nat) (q : Int) :
    ((interval m q).hi : ℚ) * 2 ^ (interval m q).exponent = upper m q := by
  rw [upper, ← two_zpow_sub q]
  simp only [interval]
  push_cast
  ring

private theorem interval_lo (hm : 0 < m) (q : Int) :
    ((interval m q).lo : ℚ) * 2 ^ (interval m q).exponent = lower m q := by
  rw [lower, ← two_zpow_sub q, below]
  simp only [interval]
  split
  · rw [Nat.cast_sub (by omega)]
    push_cast
    ring
  · rw [Nat.cast_sub (by omega)]
    push_cast
    ring

/-- The decimals that pass the test are those that round to the double. -/
private theorem Interval.contains_iff (hm : 0 < m) {d : Nat} {g : Int} :
    (interval m q).contains d g = true ↔ Rounds m q (d * 10 ^ g) := by
  have hlt := compareScaled_eq_lt (interval m q).lo (interval m q).exponent d g
  have heq := compareScaled_eq_eq (interval m q).lo (interval m q).exponent d g
  have hgt := compareScaled_eq_gt (interval m q).lo (interval m q).exponent d g
  have hlt' := compareScaled_eq_lt (interval m q).hi (interval m q).exponent d g
  have heq' := compareScaled_eq_eq (interval m q).hi (interval m q).exponent d g
  have hgt' := compareScaled_eq_gt (interval m q).hi (interval m q).exponent d g
  rw [interval_lo hm q] at hlt heq hgt
  rw [interval_hi m q] at hlt' heq' hgt'
  have heven : (interval m q).closed = true ↔ m % 2 = 0 := by simp [interval]
  have hends : lower m q < upper m q := (lower_lt m q).trans (lt_upper m q)
  unfold Interval.contains
  cases hlo : compareScaled (interval m q).lo (interval m q).exponent d g with
  | lt =>
    have hlo := hlt.1 hlo
    cases hhi : compareScaled (interval m q).hi (interval m q).exponent d g with
    | lt => exact iff_of_false (by simp) fun h => absurd h.le_upper (not_le.2 (hlt'.1 hhi))
    | eq =>
      have hhi := heq'.1 hhi
      exact heven.trans ⟨fun h => ⟨hlo.le, hhi.ge, fun _ => h⟩, fun h => h.even (.inr hhi.symm)⟩
    | gt =>
      have hhi := hgt'.1 hhi
      exact iff_of_true rfl ⟨hlo.le, hhi.le, fun hv => by rcases hv with hv | hv <;> linarith⟩
  | eq =>
    have hlo := heq.1 hlo
    exact heven.trans ⟨fun h => ⟨hlo.le, by linarith, fun _ => h⟩, fun h => h.even (.inl hlo.symm)⟩
  | gt =>
    have hlo := hgt.1 hlo
    have hhi := hgt'.2 (hlo.trans hends)
    rw [hhi]
    exact iff_of_false (by simp) fun h => absurd h.lower_le (not_le.2 hlo)

/-! ### One grid -/

/-- The number that the value of an interval stands for. -/
def Interval.number (i : Interval) : ℚ := i.value * 2 ^ i.exponent

/-- The number is the double itself. -/
theorem interval_number (m : Nat) (q : Int) : (interval m q).number = m * 2 ^ q := interval_value m q

/-- The number of an interval lies between two neighbouring multiples of a power of ten. -/
theorem floorAt_le (i : Interval) (g : Int) : (i.floorAt g : ℚ) * 10 ^ g ≤ i.number ∧
    i.number < (i.floorAt g + 1) * 10 ^ g := by
  have hfac := factor_pos i.exponent g
  have hden : 0 < tenPow g.toNat * twoPow (-i.exponent).toNat := Nat.mul_pos (tenPow_pos _) (twoPow_pos _)
  constructor
  · have h : i.floorAt g * (tenPow g.toNat * twoPow (-i.exponent).toNat) ≤
        i.value * twoPow i.exponent.toNat * tenPow (-g).toNat := Nat.div_mul_le_self _ _
    rw [← Nat.mul_assoc, ← Nat.cast_le (α := ℚ), left_eq, right_eq] at h
    exact le_of_mul_le_mul_right h hfac
  · have h : i.value * twoPow i.exponent.toNat * tenPow (-g).toNat <
        (i.floorAt g + 1) * (tenPow g.toNat * twoPow (-i.exponent).toNat) := by
      rw [Nat.mul_comm (i.floorAt g + 1)]
      exact Nat.lt_mul_div_succ _ hden
    rw [← Nat.mul_assoc, ← Nat.cast_lt (α := ℚ), left_eq, right_eq] at h
    have hlt := lt_of_mul_lt_mul_right h hfac.le
    exact_mod_cast hlt

/-- Of two numbers the first is nearer to `x`, or as near and not the smaller one. -/
def Nearer (x v w : ℚ) : Prop := |v - x| < |w - x| ∨ |v - x| = |w - x| ∧ w ≤ v

/-- From below, the greater number is nearer. -/
theorem Nearer.of_le {x v w : ℚ} (hv : w ≤ v) (hx : v ≤ x) : Nearer x v w := by
  unfold Nearer
  rw [abs_of_nonpos (by linarith), abs_of_nonpos (by linarith)]
  rcases hv.lt_or_eq with hlt | rfl
  · exact .inl (by linarith)
  · exact .inr ⟨rfl, le_refl _⟩

/-- From above, the smaller number is nearer. -/
private theorem Nearer.of_ge {x v w : ℚ} (hv : v ≤ w) (hx : x ≤ v) : Nearer x v w := by
  unfold Nearer
  rw [abs_of_nonneg (by linarith), abs_of_nonneg (by linarith)]
  rcases hv.lt_or_eq with hlt | rfl
  · exact .inl (by linarith)
  · exact .inr ⟨rfl, le_refl _⟩

private theorem Nearer.refl (x v : ℚ) : Nearer x v v := .inr ⟨rfl, le_refl v⟩

/-- Being nearer is transitive, ties included. -/
theorem Nearer.trans {x u v w : ℚ} (h : Nearer x u v) (h' : Nearer x v w) : Nearer x u w := by
  rcases h with h | ⟨h, hle⟩ <;> rcases h' with h' | ⟨h', hle'⟩
  · exact .inl (h.trans h')
  · exact .inl (h.trans_eq h')
  · exact .inl (h.trans_lt h')
  · exact .inr ⟨h.trans h', hle'.trans hle⟩

section Grid

variable {g : Int}

/-- Of the decimals of a grid that round to the double, those next to the double are enough. -/
private theorem rounds_next {n : Nat} (h : Rounds m q (n * 10 ^ g)) :
    (Rounds m q ((interval m q).floorAt g * 10 ^ g) ∧
      Nearer (m * 2 ^ q) ((interval m q).floorAt g * 10 ^ g) (n * 10 ^ g)) ∨
    (Rounds m q (((interval m q).floorAt g + 1 : Nat) * 10 ^ g) ∧
      Nearer (m * 2 ^ q) (((interval m q).floorAt g + 1 : Nat) * 10 ^ g) (n * 10 ^ g)) := by
  obtain ⟨hle, hlt⟩ := floorAt_le (interval m q) g
  rw [interval_number] at hle hlt
  have hpow : (0 : ℚ) < 10 ^ g := by positivity
  rcases Nat.lt_or_ge ((interval m q).floorAt g) n with hn | hn
  · have hcast : (((interval m q).floorAt g + 1 : Nat) : ℚ) * 10 ^ g ≤ n * 10 ^ g :=
      mul_le_mul_of_nonneg_right (by exact_mod_cast hn) hpow.le
    have hup : (m : ℚ) * 2 ^ q ≤ ((interval m q).floorAt g + 1 : Nat) * 10 ^ g := by
      push_cast
      exact hlt.le
    exact .inr ⟨h.of_ge_of_ge hcast hup, .of_ge hcast hup⟩
  · have hcast : (n : ℚ) * 10 ^ g ≤ (interval m q).floorAt g * 10 ^ g :=
      mul_le_mul_of_nonneg_right (by exact_mod_cast hn) hpow.le
    exact .inl ⟨h.of_le_of_le hcast hle, .of_le hcast hle⟩

variable (g) in
/-- The tests of the decimals next to the double, the one below it and the one above it. -/
private theorem next_iff (hm : 0 < m) :
    (((interval m q).contains ((interval m q).floorAt g) g && (interval m q).floorAt g != 0) = true ↔
      Rounds m q ((interval m q).floorAt g * 10 ^ g)) ∧
    ((interval m q).contains ((interval m q).floorAt g + 1) g = true ↔
      Rounds m q (((interval m q).floorAt g + 1 : Nat) * 10 ^ g)) := by
  refine ⟨?_, Interval.contains_iff hm⟩
  rw [Bool.and_eq_true, Interval.contains_iff hm, and_iff_left_iff_imp]
  intro h
  have hpos := h.pos hm
  rw [bne_iff_ne]
  rintro hzero
  rw [hzero, Nat.cast_zero, zero_mul] at hpos
  exact absurd hpos (lt_irrefl 0)

/-- No decimal of a grid rounds to the double if none is found there. -/
theorem nearestAt?_eq_none (hm : 0 < m) (h : (interval m q).nearestAt? g = none) (n : Nat) :
    ¬ Rounds m q (n * 10 ^ g) := by
  obtain ⟨hdown, hup⟩ := next_iff (q := q) g hm
  have hnone : ¬ Rounds m q ((interval m q).floorAt g * 10 ^ g) ∧
      ¬ Rounds m q (((interval m q).floorAt g + 1 : Nat) * 10 ^ g) := by
    rw [← hdown, ← hup]
    unfold Interval.nearestAt? at h
    dsimp only at h
    split at h
    · split at h <;> cases h
    · cases h
    · cases h
    · next hno hno' => exact ⟨by simpa using hno, by simpa using hno'⟩
  intro hn
  rcases rounds_next hn with ⟨h, -⟩ | ⟨h, -⟩
  · exact hnone.1 h
  · exact hnone.2 h

variable (m q g) in
/-- The test for the nearer one of the two decimals next to the double. -/
private theorem middle_nearer :
    let below : ℚ := (interval m q).floorAt g * 10 ^ g
    let above : ℚ := ((interval m q).floorAt g + 1 : Nat) * 10 ^ g
    if compareScaled (2 * (interval m q).value) (interval m q).exponent
      ((interval m q).floorAt g + ((interval m q).floorAt g + 1)) g == .lt then Nearer (m * 2 ^ q) below above
    else Nearer (m * 2 ^ q) above below := by
  intro below above
  obtain ⟨hle, hlt⟩ := floorAt_le (interval m q) g
  rw [interval_number] at hle hlt
  have habove : (m : ℚ) * 2 ^ q < above := by
    simp only [above]
    push_cast
    exact hlt
  have htest := compareScaled_eq_lt (2 * (interval m q).value) (interval m q).exponent
    ((interval m q).floorAt g + ((interval m q).floorAt g + 1)) g
  rw [Nat.cast_mul, Nat.cast_two, mul_assoc, interval_value, Nat.cast_add, add_mul] at htest
  have hbelow : |below - m * 2 ^ q| = m * 2 ^ q - below := by
    rw [abs_of_nonpos (sub_nonpos.2 hle), neg_sub]
  have habove' : |above - m * 2 ^ q| = above - m * 2 ^ q := abs_of_pos (sub_pos.2 habove)
  unfold Nearer
  rw [hbelow, habove']
  split
  · next hless =>
    have hless := htest.1 (beq_iff_eq.1 hless)
    exact .inl (by linarith)
  · next hless =>
    have hless : below + above ≤ 2 * (m * 2 ^ q) := not_lt.1 (mt htest.2 (mt beq_iff_eq.2 hless))
    rcases hless.lt_or_eq with hless | heq
    · exact .inl (by linarith)
    · exact .inr ⟨by linarith, (hle.trans_lt habove).le⟩

/-- The decimal that is found on a grid rounds to the double, and it is the nearest one there that does. -/
theorem nearestAt?_eq_some (hm : 0 < m) {d : Decimal} (h : (interval m q).nearestAt? g = some d) :
    d.power = g ∧ d.digits ≤ (interval m q).floorAt g + 1 ∧ Rounds m q d.value ∧
      ∀ n : Nat, Rounds m q (n * 10 ^ g) → Nearer (m * 2 ^ q) d.value (n * 10 ^ g) := by
  obtain ⟨hdown, hup⟩ := next_iff (q := q) g hm
  have hmiddle := middle_nearer m q g
  -- it is enough to compare the decimal with those next to the double
  have hall {v : ℚ}
      (hd : Rounds m q ((interval m q).floorAt g * 10 ^ g) → Nearer (m * 2 ^ q) v ((interval m q).floorAt g * 10 ^ g))
      (hu : Rounds m q (((interval m q).floorAt g + 1 : Nat) * 10 ^ g) →
        Nearer (m * 2 ^ q) v (((interval m q).floorAt g + 1 : Nat) * 10 ^ g))
      (n : Nat) (hn : Rounds m q (n * 10 ^ g)) : Nearer (m * 2 ^ q) v (n * 10 ^ g) := by
    rcases rounds_next hn with ⟨h, hnear⟩ | ⟨h, hnear⟩
    · exact (hd h).trans hnear
    · exact (hu h).trans hnear
  unfold Interval.nearestAt? at h
  dsimp only at h hmiddle
  split at h
  · next hd hu =>
    split at h
    · next hless =>
      rw [if_pos hless] at hmiddle
      cases h
      exact ⟨rfl, Nat.le_succ _, hdown.1 hd, hall (fun _ => .refl _ _) fun _ => hmiddle⟩
    · next hless =>
      rw [if_neg hless] at hmiddle
      cases h
      exact ⟨rfl, le_refl _, hup.1 hu, hall (fun _ => hmiddle) fun _ => .refl _ _⟩
  · next hd hu =>
    cases h
    exact ⟨rfl, Nat.le_succ _, hdown.1 hd, hall (fun _ => .refl _ _) fun h => nomatch hu.symm.trans (hup.2 h)⟩
  · next hd hu =>
    cases h
    exact ⟨rfl, le_refl _, hup.1 hu, hall (fun h => nomatch hd.symm.trans (hdown.2 h)) fun _ => .refl _ _⟩
  · cases h

end Grid

/-! ### The first grid -/

/-- A power of ten with an exponent below that of a power of two by the quotient `p / n` is smaller, where the
quotient is near enough to the logarithm of two. -/
private theorem ten_zpow_le {n p : Nat} (hn : 0 < n) (hle : (10 : ℚ) ^ p ≤ 2 ^ (n + 1)) (hge : (2 : ℚ) ^ n ≤ 10 ^ p)
    {k l : Int} (h : k * n + max l 0 ≤ p * l) : (10 : ℚ) ^ k ≤ 2 ^ l := by
  have hten : (10 : ℚ) ≠ 0 := by norm_num
  refine le_of_pow_le_pow_left₀ hn.ne' (by positivity) ?_
  rw [← zpow_natCast, ← zpow_natCast, ← zpow_mul, ← zpow_mul]
  have hexp : (10 : ℚ) ^ (k * n) ≤ 10 ^ ((p : Int) * l) / 10 ^ max l 0 := by
    rw [← zpow_sub₀ hten]
    exact zpow_le_zpow_right₀ (by norm_num) (by linarith)
  refine hexp.trans ((div_le_iff₀ (by positivity)).2 ?_)
  rw [zpow_mul, zpow_mul', zpow_natCast, zpow_natCast]
  rcases le_total 0 l with hpos | hneg
  · have hsmall : (2 : ℚ) ^ l ≤ 10 ^ l := zpow_le_zpow_left₀ hpos (by norm_num) (by norm_num)
    rw [max_eq_left hpos]
    refine (zpow_le_zpow_left₀ hpos (by positivity) hle).trans ?_
    rw [pow_succ, mul_zpow]
    exact mul_le_mul_of_nonneg_left hsmall (by positivity)
  · have hinv : ((10 : ℚ) ^ p) ^ l ≤ (2 ^ n) ^ l := by
      have h := inv_anti₀ (by positivity) (zpow_le_zpow_left₀ (by omega : 0 ≤ -l) (by positivity) hge)
      rwa [zpow_neg, zpow_neg, inv_inv, inv_inv] at h
    rwa [max_eq_right hneg, zpow_zero, mul_one]

/-- The quotient with which the search estimates powers of ten. -/
private theorem ten_zpow_le_two_zpow {k l : Int} (h : k * 100000 + max l 0 ≤ 30103 * l) : (10 : ℚ) ^ k ≤ 2 ^ l := by
  have hle : (10 : ℚ) ^ 30103 ≤ 2 ^ (100000 + 1) := by
    have hnat : 10 ^ 30103 ≤ 2 ^ (100000 + 1) := by decide +kernel
    exact_mod_cast hnat
  have hge : (2 : ℚ) ^ 100000 ≤ 10 ^ 30103 := by
    have hnat : 2 ^ 100000 ≤ 10 ^ 30103 := by decide +kernel
    exact_mod_cast hnat
  exact ten_zpow_le (by norm_num) hle hge h

private theorem two_zpow_le_ten_zpow {k l : Int} (h : 30103 * l + max (-l) 0 ≤ k * 100000) : (2 : ℚ) ^ l ≤ 10 ^ k := by
  have hinv := inv_anti₀ (by positivity) (ten_zpow_le_two_zpow (k := -k) (l := -l) (by omega))
  rwa [zpow_neg, zpow_neg, inv_inv, inv_inv] at hinv

/-- The search begins with the greatest power of ten that is not greater than the value. -/
theorem decimalExponent_spec {i : Interval} (hv : 0 < i.value) (hhi : (i.value.log2 : Int) + i.exponent ≤ 60000)
    (hlo : -60000 ≤ (i.value.log2 : Int) + i.exponent) :
    (10 : ℚ) ^ i.decimalExponent ≤ i.number ∧ i.number < 10 ^ (i.decimalExponent + 1) := by
  have htwo : (2 : ℚ) ^ ((i.value.log2 : Int) + i.exponent) ≤ i.number ∧
      i.number < 2 ^ ((i.value.log2 : Int) + i.exponent + 1) := by
    have hpow : (0 : ℚ) < 2 ^ i.exponent := by positivity
    have hle : (2 : ℚ) ^ i.value.log2 ≤ i.value := by exact_mod_cast Nat.log2_self_le hv.ne'
    have hlt : (i.value : ℚ) < 2 ^ (i.value.log2 + 1) := by exact_mod_cast Nat.lt_log2_self
    rw [add_right_comm, zpow_add₀ two_ne_zero, zpow_add₀ two_ne_zero, zpow_natCast, Interval.number]
    refine ⟨mul_le_mul_of_nonneg_right hle hpow.le, mul_lt_mul_of_pos_right ?_ hpow⟩
    exact_mod_cast hlt
  unfold Interval.decimalExponent
  dsimp only
  generalize (i.value.log2 : Int) + i.exponent = l at *
  have hup := compareScaled_eq_lt i.value i.exponent 1 (l * 30103 / 100000 + 1)
  have hdown := compareScaled_eq_lt i.value i.exponent 1 (l * 30103 / 100000)
  rw [Nat.cast_one, one_mul] at hup hdown
  split
  · next h =>
    rw [bne_iff_ne] at h
    exact ⟨not_lt.1 (mt hup.2 h), htwo.2.trans_le (two_zpow_le_ten_zpow (by omega))⟩
  · next hless =>
    have hless : i.number < 10 ^ (l * 30103 / 100000 + 1) := hup.1 (by simpa using hless)
    split
    · next h =>
      rw [beq_iff_eq] at h
      rw [sub_add_cancel]
      exact ⟨(ten_zpow_le_two_zpow (by omega)).trans htwo.1, hdown.1 h⟩
    · next h =>
      rw [beq_iff_eq] at h
      exact ⟨not_lt.1 (mt hdown.2 h), hless⟩

/-! ### All grids -/

/-- The search stops at the first grid with a decimal, if there is one among those that it goes through. -/
theorem firstHit_spec {i : Interval} {fuel : Nat} {g : Int}
    (h : ∃ j < fuel, (i.nearestAt? (g - (j : Nat))).isSome) :
    ∃ j < fuel, i.nearestAt? (g - (j : Nat)) = some (i.firstHit fuel g) ∧
      ∀ l < j, i.nearestAt? (g - (l : Nat)) = none := by
  induction fuel generalizing g with
  | zero => exact absurd h (by simp)
  | succ fuel ih =>
    have hshift (j : Nat) : g - 1 - (j : Int) = g - (j + 1 : Nat) := by
      push_cast
      ring
    unfold Interval.firstHit
    cases hg : i.nearestAt? g with
    | some d => exact ⟨0, Nat.succ_pos _, by simpa using hg, by simp⟩
    | none =>
      obtain ⟨j, hj, hsome⟩ := h
      cases j with
      | zero => simp [hg] at hsome
      | succ j =>
        rw [← hshift] at hsome
        obtain ⟨j, hj, hhit, hnone⟩ := ih ⟨j, Nat.lt_of_succ_lt_succ hj, hsome⟩
        rw [hshift] at hhit
        refine ⟨j + 1, Nat.succ_lt_succ hj, hhit, fun l hl => ?_⟩
        cases l with
        | zero => simpa using hg
        | succ l =>
          rw [← hshift]
          exact hnone l (Nat.lt_of_succ_lt_succ hl)

end Scriptlet.Double
