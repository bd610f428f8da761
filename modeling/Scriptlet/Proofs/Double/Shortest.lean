import Scriptlet.Proofs.Double.Search
import Scriptlet.Proofs.Text.Digits

/-!
# The shortest digits of a double

`shortest_spec`: the decimal that is written for a double rounds to it, no decimal that does has fewer digits, and of
those with as many it is the nearest (`IsShortest`).

Seventeen digits are always enough (`rounds_seventeen`), so that the search finds a decimal.  It stands on the coarsest
grid with one, and a decimal with fewer digits would stand on a coarser grid: unless it is smaller than the power of ten
at which the search begins, and then this power, which lies between the decimal and the double, rounds to the double.
-/

namespace Scriptlet.Double

variable {m : Nat} {q : Int}

/-- The number of digits of a decimal. -/
def Decimal.count (d : Decimal) : Nat := (Nat.toDigits 10 d.digits).length

/-- The decimal rounds to the double `m * 2 ^ q`, none that does has fewer digits, and none with as many is nearer. -/
structure IsShortest (m : Nat) (q : Int) (d : Decimal) : Prop where
  rounds : Rounds m q d.value
  fewest : ∀ d' : Decimal, Rounds m q d'.value → d.count ≤ d'.count
  nearest : ∀ d' : Decimal, Rounds m q d'.value → d'.count = d.count → Nearer (m * 2 ^ q) d.value d'.value

/-! ### Digits -/

/-- A decimal has at most so many digits. -/
private theorem count_le_iff {d : Decimal} {n : Nat} (hn : 0 < n) : d.count ≤ n ↔ d.digits < 10 ^ n :=
  Nat.length_toDigits_le_iff (by decide) hn

private theorem count_pos (d : Decimal) : 0 < d.count := Nat.length_toDigits_pos

/-- Without the zeros at its end a decimal stands for the same number. -/
private theorem trim_spec (fuel : Nat) (d : Decimal) : (d.trim fuel).value = d.value ∧
    (d.trim fuel).digits ≤ d.digits ∧ (0 < d.digits → d.digits < 10 ^ (fuel + 1) → (d.trim fuel).digits % 10 ≠ 0) := by
  induction fuel generalizing d with
  | zero => exact ⟨rfl, le_refl _, fun hpos hlt => by rw [Decimal.trim]; omega⟩
  | succ fuel ih =>
    unfold Decimal.trim
    split
    · next hzero =>
      obtain ⟨hvalue, hle, htrim⟩ := ih ⟨d.digits / 10, d.power + 1⟩
      refine ⟨hvalue.trans ?_, hle.trans (Nat.div_le_self _ _), fun hpos hlt => htrim ?_ ?_⟩
      · have hdigits : (d.digits : ℚ) = (d.digits / 10 : Nat) * 10 := by
          exact_mod_cast (Nat.div_mul_cancel (Nat.dvd_of_mod_eq_zero hzero)).symm
        rw [Decimal.value, Decimal.value, hdigits, zpow_add_one₀ (by norm_num)]
        ring
      · exact Nat.div_pos (by omega) (by norm_num)
      · rw [pow_succ] at hlt
        exact Nat.div_lt_of_lt_mul (by linarith)
    · next hzero => exact ⟨rfl, le_refl _, fun _ _ => hzero⟩

/-- A power of ten and a multiple of a smaller one. -/
private theorem zpow_split {k g : Int} (h : g ≤ k) : (10 : ℚ) ^ k = (10 ^ (k - g).toNat : Nat) * 10 ^ g := by
  push_cast
  rw [← zpow_natCast, ← zpow_add₀ (by norm_num)]
  congr 1
  omega

/-- A decimal stands on every finer grid. -/
private theorem value_split (d : Decimal) {g : Int} (h : g ≤ d.power) :
    d.value = (d.digits * 10 ^ (d.power - g).toNat : Nat) * 10 ^ g := by
  rw [Decimal.value, zpow_split h]
  push_cast
  ring

/-! ### Enough digits -/

/-- With seventeen digits there is a decimal near enough to the value. -/
private theorem rounds_seventeen (hn : Normal m q) {k : Int} (hk : (10 : ℚ) ^ k ≤ m * 2 ^ q) :
    ∃ n : Nat, Rounds m q (n * 10 ^ (k - 16)) := by
  obtain ⟨hle, hlt⟩ := floorAt_le (interval m q) (k - 16)
  rw [interval_number] at hle hlt
  have hpow : (0 : ℚ) < 2 ^ q := by positivity
  -- half a step of the grid is less than half of the distance between doubles
  have hstep : (10 : ℚ) ^ (k - 16) < 2 * (below m q * 2 ^ q) := by
    have hsplit : (10 : ℚ) ^ (k - 16) * 10000000000000000 = 10 ^ k := by
      rw [zpow_sub₀ (by norm_num)]
      norm_num
    unfold below
    split
    · next hfull =>
      have hmant : (m : ℚ) = 4503599627370496 := by exact_mod_cast hfull.1
      rw [hmant] at hk
      linarith
    · have hmant : (m : ℚ) ≤ 9007199254740991 := by
        have h := hn.lt
        rw [twoPow_precision] at h
        exact_mod_cast Nat.le_of_lt_succ h
      have hmul := mul_le_mul_of_nonneg_right hmant hpow.le
      linarith
  have hlower : lower m q = m * 2 ^ q - below m q * 2 ^ q := by rw [lower, sub_mul]
  have hupper : m * 2 ^ q + below m q * 2 ^ q ≤ upper m q := by
    have hmul := mul_le_mul_of_nonneg_right (below_le m q) hpow.le
    rw [upper, add_mul]
    linarith
  have hinside {v : ℚ} (h : |v - m * 2 ^ q| < below m q * 2 ^ q) : Rounds m q v := by
    obtain ⟨hlo, hhi⟩ := abs_lt.1 h
    exact ⟨by linarith, by linarith, fun hv => by rcases hv with hv | hv <;> linarith⟩
  rcases le_total ((m : ℚ) * 2 ^ q - (interval m q).floorAt (k - 16) * 10 ^ (k - 16)) (10 ^ (k - 16) / 2) with h | h
  · refine ⟨(interval m q).floorAt (k - 16), hinside ?_⟩
    rw [abs_of_nonpos (by linarith)]
    linarith
  · refine ⟨(interval m q).floorAt (k - 16) + 1, hinside ?_⟩
    push_cast
    rw [abs_of_nonneg (by linarith)]
    linarith

/-! ### The decimal that is found -/

section Found

variable {k : Int} {j : Nat} {d : Decimal}

/-- The search finds a decimal within seventeen grids. -/
private theorem exists_found (hn : Normal m q) (hm : 0 < m) (hq : q ≤ maxExponent) :
    ∃ (k : Int) (j : Nat), (10 : ℚ) ^ k ≤ m * 2 ^ q ∧ m * 2 ^ q < (10 : ℚ) ^ (k + 1) ∧ j < 17 ∧
      (interval m q).nearestAt? (k - j) = some ((interval m q).firstHit 17 (interval m q).decimalExponent) ∧
      ∀ l < j, (interval m q).nearestAt? (k - l) = none := by
  have hvalue : 0 < (interval m q).value := Nat.mul_pos (by norm_num) hm
  have hbits : (interval m q).value.log2 < 55 := by
    have hlt := hn.lt
    rw [twoPow_precision] at hlt
    rw [Nat.log2_lt hvalue.ne']
    simp only [interval]
    omega
  have hexp : (interval m q).exponent = q - 2 := rfl
  have hleast := hn.least
  rw [minExponent] at hleast
  rw [maxExponent] at hq
  obtain ⟨hle, hlt⟩ := decimalExponent_spec hvalue (by omega) (by omega)
  rw [interval_number] at hle hlt
  obtain ⟨n, hrounds⟩ := rounds_seventeen hn hle
  have hsome : ∃ j < 17, ((interval m q).nearestAt? ((interval m q).decimalExponent - (j : Nat))).isSome := by
    refine ⟨16, by norm_num, ?_⟩
    by_contra hnone
    exact nearestAt?_eq_none hm (Option.not_isSome_iff_eq_none.1 hnone) n hrounds
  obtain ⟨j, hj, hhit, hnone⟩ := firstHit_spec hsome
  exact ⟨_, j, hle, hlt, hj, hhit, hnone⟩

/-- The digits of a decimal next to the double, by the distance of its grid from the first one. -/
private theorem digits_le (hlt : m * 2 ^ q < (10 : ℚ) ^ (k + 1)) (hd : d.digits ≤ (interval m q).floorAt (k - j) + 1) :
    d.digits ≤ 10 ^ (j + 1) := by
  have hfloor := (floorAt_le (interval m q) (k - j)).1
  rw [interval_number] at hfloor
  have hsplit : (10 : ℚ) ^ (k + 1) = (10 ^ (j + 1) : Nat) * 10 ^ (k - j) := by
    rw [zpow_split (show k - j ≤ k + 1 by omega)]
    congr 3
    omega
  rw [hsplit] at hlt
  have hless : (interval m q).floorAt (k - j) < 10 ^ (j + 1) := by
    exact_mod_cast lt_of_mul_lt_mul_right (hfloor.trans_lt hlt) (by positivity)
  omega

variable (hm : 0 < m) (hle : (10 : ℚ) ^ k ≤ m * 2 ^ q)

include hm hle in
/-- If there is no decimal on a grid, those that round to the double have more digits. -/
private theorem pow_le_digits (hnone : (interval m q).nearestAt? (k - j) = none) (h : Rounds m q d.value) :
    10 ^ (j + 1) ≤ d.digits := by
  have hpower : d.power < k - j := by
    by_contra hge
    rw [value_split d (not_lt.1 hge)] at h
    exact nearestAt?_eq_none hm hnone _ h
  have hvalue : (10 : ℚ) ^ k ≤ d.value := by
    by_contra hlt
    have hrounds := h.of_le_of_le (not_le.1 hlt).le hle
    rw [zpow_split (show k - j ≤ k by omega)] at hrounds
    exact nearestAt?_eq_none hm hnone _ hrounds
  have hsplit : (10 : ℚ) ^ (j + 1) * 10 ^ d.power ≤ 10 ^ k := by
    rw [← zpow_natCast, ← zpow_add₀ (by norm_num)]
    exact zpow_le_zpow_right₀ (by norm_num) (by push_cast; omega)
  have hcast := le_of_mul_le_mul_right (hsplit.trans hvalue) (by positivity)
  exact_mod_cast hcast

include hm hle in
/-- The decimal that is found is the nearest of those with as many digits. -/
private theorem nearer_of_lt (hd : (interval m q).nearestAt? (k - j) = some d) {d' : Decimal}
    (h : Rounds m q d'.value) (hlt : d'.digits < 10 ^ (j + 1)) : Nearer (m * 2 ^ q) d.value d'.value := by
  obtain ⟨-, -, -, hnearest⟩ := nearestAt?_eq_some hm hd
  rcases le_or_gt (k - j) d'.power with hpower | hpower
  · rw [value_split d' hpower] at h ⊢
    exact hnearest _ h
  · -- it is less than the power of ten that stands between it and the double
    have hvalue : d'.value ≤ (10 : ℚ) ^ k := by
      have hcast : (d'.digits : ℚ) ≤ 10 ^ (j + 1) := by exact_mod_cast hlt.le
      refine (mul_le_mul_of_nonneg_right hcast (by positivity)).trans ?_
      rw [← zpow_natCast, ← zpow_add₀ (by norm_num)]
      exact zpow_le_zpow_right₀ (by norm_num) (by push_cast; omega)
    have hrounds := h.of_le_of_le hvalue hle
    have hsplit := zpow_split (show k - j ≤ k by omega)
    rw [hsplit] at hrounds
    have hnear := hnearest _ hrounds
    rw [← hsplit] at hnear
    exact hnear.trans (.of_le hvalue hle)

end Found

/-- The digits that are written for a double are the shortest, and there is no zero at their end. -/
theorem shortest_spec (hn : Normal m q) (hm : 0 < m) (hq : q ≤ maxExponent) :
    IsShortest m q (shortest m q) ∧ (shortest m q).digits % 10 ≠ 0 := by
  obtain ⟨k, j, hle, hlt, hj, hhit, hnone⟩ := exists_found hn hm hq
  obtain ⟨-, hdigits, hrounds, -⟩ := nearestAt?_eq_some hm hhit
  have hnear : ∀ d' : Decimal, Rounds m q d'.value → d'.digits < 10 ^ (j + 1) → Nearer (m * 2 ^ q) _ d'.value :=
    fun _ => nearer_of_lt hm hle hhit
  unfold shortest
  dsimp only
  generalize (interval m q).firstHit 17 (interval m q).decimalExponent = d at *
  obtain ⟨hvalue, htrim, hlast⟩ := trim_spec 17 d
  have hbound := digits_le hlt hdigits
  have hpos : 0 < d.digits := by
    refine Nat.pos_of_ne_zero fun hzero => ?_
    have h := hrounds.pos hm
    rw [Decimal.value, hzero, Nat.cast_zero, zero_mul] at h
    exact absurd h (lt_irrefl 0)
  have hlast := hlast hpos (hbound.trans_lt (Nat.pow_lt_pow_right (by norm_num) (by omega)))
  -- a power of ten would have a zero at its end
  have hless : (d.trim 17).digits < 10 ^ (j + 1) := by
    refine lt_of_le_of_ne (htrim.trans hbound) fun heq => hlast ?_
    rw [heq, pow_succ]
    exact Nat.mul_mod_left _ _
  refine ⟨⟨hvalue ▸ hrounds, fun d' h => ?_, fun d' h hcount => ?_⟩, hlast⟩
  · cases j with
    | zero => exact ((count_le_iff Nat.one_pos).2 hless).trans (count_pos d')
    | succ j =>
      have hge := pow_le_digits hm hle (hnone j (Nat.lt_succ_self j)) h
      refine ((count_le_iff (Nat.succ_pos _)).2 hless).trans (Nat.lt_of_not_le fun hcount => ?_)
      exact absurd ((count_le_iff (Nat.succ_pos j)).1 hcount) (not_lt.2 hge)
  · rw [hvalue]
    have hcount : d'.count ≤ j + 1 := hcount ▸ (count_le_iff (Nat.succ_pos j)).2 hless
    exact hnear d' h ((count_le_iff (Nat.succ_pos j)).1 hcount)

end Scriptlet.Double
