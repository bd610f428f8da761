import Mathlib.Tactic.FieldSimp
import Mathlib.Tactic.Positivity
import Scriptlet.Double.Rounding
import Scriptlet.Proofs.Double.Interval

/-!
# Rounding is correct

`Double.nearest` finds the double to which a fraction rounds (`nearest_spec`).  Its exponent makes the mantissa full
(`exponentOf_spec`), and the mantissa is the nearest integer (`roundHalfEven_spec`).

So every double that is found is the one representation of its value (`canonical_ofDecimal`), and a decimal that
rounds to a double is read as that double (`ofDecimal_of_rounds`).
-/

namespace Scriptlet.Double

variable {num den : Nat}

/-! ### Fractions -/

private theorem scaleByTwo_spec (num : Nat) (hden : 0 < den) (q : Int) : 0 < (scaleByTwo num den q).2 ∧
    ((scaleByTwo num den q).1 : ℚ) / (scaleByTwo num den q).2 = (num : ℚ) / den / 2 ^ q := by
  unfold scaleByTwo
  split
  · next hq =>
    refine ⟨Nat.mul_pos hden (twoPow_pos _), ?_⟩
    push_cast
    rw [twoPow_cast, ← zpow_natCast, Int.toNat_of_nonneg hq, div_div]
  · next hq =>
    refine ⟨hden, ?_⟩
    push_cast
    rw [twoPow_cast, ← zpow_natCast, Int.toNat_of_nonneg (by omega), zpow_neg, ← div_eq_mul_inv, div_right_comm]

private theorem log2_bounds (h : 0 < num) :
    (2 : ℚ) ^ (num.log2 : Int) ≤ num ∧ (num : ℚ) < 2 ^ ((num.log2 : Int) + 1) := by
  have hlo : 2 ^ num.log2 ≤ num := Nat.log2_self_le (Nat.pos_iff_ne_zero.1 h)
  have hhi : num < 2 ^ (num.log2 + 1) := Nat.lt_log2_self
  constructor
  · rw [zpow_natCast]
    exact_mod_cast hlo
  · have hcast : (num : ℚ) < 2 ^ (num.log2 + 1) := by exact_mod_cast hhi
    exact_mod_cast hcast

/-- A fraction is within a factor of two of the power given by the bits of its terms. -/
private theorem div_bounds (hnum : 0 < num) (hden : 0 < den) :
    (2 : ℚ) ^ ((num.log2 : Int) - den.log2 - 1) ≤ (num : ℚ) / den ∧
      (num : ℚ) / den < 2 ^ ((num.log2 : Int) - den.log2 + 1) := by
  obtain ⟨hlo, hhi⟩ := log2_bounds hnum
  obtain ⟨hlo', hhi'⟩ := log2_bounds hden
  have hpos : (0 : ℚ) < den := by exact_mod_cast hden
  have htwo : (2 : ℚ) ≠ 0 := by norm_num
  constructor
  · rw [le_div_iff₀ hpos]
    have hsplit : (2 : ℚ) ^ (num.log2 : Int) =
        2 ^ ((num.log2 : Int) - den.log2 - 1) * 2 ^ ((den.log2 : Int) + 1) := by
      rw [← zpow_add₀ htwo]
      congr 1
      ring
    refine le_trans (mul_le_mul_of_nonneg_left hhi'.le (by positivity)) ?_
    rwa [← hsplit]
  · rw [div_lt_iff₀ hpos]
    have hsplit : (2 : ℚ) ^ ((num.log2 : Int) + 1) =
        2 ^ ((num.log2 : Int) - den.log2 + 1) * 2 ^ (den.log2 : Int) := by
      rw [← zpow_add₀ htwo]
      congr 1
      ring
    refine lt_of_lt_of_le (hsplit ▸ hhi) (mul_le_mul_of_nonneg_left hlo' (by positivity))

/-- The exponent makes the mantissa full, or is the least. -/
theorem exponentOf_spec (hnum : 0 < num) (hden : 0 < den) : minExponent ≤ exponentOf num den ∧
    (num : ℚ) / den / 2 ^ exponentOf num den < 2 ^ 53 ∧
      (2 ^ 52 ≤ (num : ℚ) / den / 2 ^ exponentOf num den ∨ exponentOf num den = minExponent) := by
  have htwo : (2 : ℚ) ≠ 0 := by norm_num
  obtain ⟨hlo, hhi⟩ := div_bounds hnum hden
  let q : Int := (num.log2 : Int) - den.log2 - (precision - 1 : Nat)
  have hq : q = (num.log2 : Int) - den.log2 - 52 := rfl
  obtain ⟨hd, hscaled⟩ := scaleByTwo_spec num hden q
  -- the first guess is right, or too great by one
  have hlow : (2 : ℚ) ^ 51 ≤ (num : ℚ) / den / 2 ^ q := by
    rw [le_div_iff₀ (by positivity), ← zpow_natCast, ← zpow_add₀ htwo]
    exact le_of_eq_of_le (by congr 1; rw [hq]; push_cast; ring) hlo
  have hhigh : (num : ℚ) / den / 2 ^ q < 2 ^ 53 := by
    rw [div_lt_iff₀ (by positivity), ← zpow_natCast, ← zpow_add₀ htwo]
    exact lt_of_lt_of_eq hhi (by congr 1; rw [hq]; push_cast; ring)
  have hguess : (scaleByTwo num den q).1 < (scaleByTwo num den q).2 * twoPow (precision - 1) ↔
      (num : ℚ) / den / 2 ^ q < 2 ^ 52 := by
    have hdpos : (0 : ℚ) < (scaleByTwo num den q).2 := by exact_mod_cast hd
    rw [← hscaled, div_lt_iff₀ hdpos, mul_comm]
    exact_mod_cast Iff.rfl
  have hexp : exponentOf num den = max (if (scaleByTwo num den q).1 <
      (scaleByTwo num den q).2 * twoPow (precision - 1) then q - 1 else q) minExponent := rfl
  obtain ⟨q', hq', hfull⟩ : ∃ q', exponentOf num den = max q' minExponent ∧
      2 ^ 52 ≤ (num : ℚ) / den / 2 ^ q' ∧ (num : ℚ) / den / 2 ^ q' < 2 ^ 53 := by
    by_cases hlt : (num : ℚ) / den / 2 ^ q < 2 ^ 52
    · have hdouble : (num : ℚ) / den / 2 ^ (q - 1) = 2 * ((num : ℚ) / den / 2 ^ q) := by
        rw [zpow_sub_one₀ htwo]
        field_simp
      refine ⟨q - 1, by rw [hexp, if_pos (hguess.2 hlt)], ?_⟩
      rw [hdouble]
      constructor <;> linarith
    · exact ⟨q, by rw [hexp, if_neg (mt hguess.1 hlt)], not_lt.1 hlt, hhigh⟩
  rw [hq']
  rcases le_total minExponent q' with hle | hle
  · rw [max_eq_left hle]
    exact ⟨hle, hfull.2, Or.inl hfull.1⟩
  · rw [max_eq_right hle]
    refine ⟨le_refl _, lt_of_le_of_lt ?_ hfull.2, Or.inr rfl⟩
    have hpow : (2 : ℚ) ^ q' ≤ 2 ^ minExponent := zpow_le_zpow_right₀ (by norm_num) hle
    exact div_le_div_of_nonneg_left (by positivity) (by positivity) hpow

/-! ### Integers -/

/-- The integer is at most one half away, and even if it is one half away. -/
theorem roundHalfEven_spec (num : Nat) (hden : 0 < den) :
    (num : ℚ) / den - 1 / 2 ≤ roundHalfEven num den ∧ (roundHalfEven num den : ℚ) ≤ num / den + 1 / 2 ∧
      ((roundHalfEven num den : ℚ) = num / den - 1 / 2 ∨ (roundHalfEven num den : ℚ) = num / den + 1 / 2 →
        roundHalfEven num den % 2 = 0) := by
  have hpos : (0 : ℚ) < den := by exact_mod_cast hden
  have hdiv : (num : ℚ) / den = (num / den : Nat) + (num % den : Nat) / (den : ℚ) := by
    rw [div_eq_iff hpos.ne', add_mul, div_mul_cancel₀ _ hpos.ne']
    exact_mod_cast (Nat.div_add_mod' num den).symm
  have hrem : (0 : ℚ) ≤ (num % den : Nat) / (den : ℚ) := by positivity
  have hrem' : ((num % den : Nat) : ℚ) / den < 1 := by
    rw [div_lt_one hpos]
    exact_mod_cast Nat.mod_lt num hden
  have hmore : den < 2 * (num % den) ↔ (1 / 2 : ℚ) < (num % den : Nat) / (den : ℚ) := by
    rw [lt_div_iff₀ hpos, ← Nat.cast_lt (α := ℚ)]
    push_cast
    constructor <;> intro h <;> linarith
  have htie : den = 2 * (num % den) ↔ (1 / 2 : ℚ) = (num % den : Nat) / (den : ℚ) := by
    rw [eq_div_iff hpos.ne', ← Nat.cast_inj (R := ℚ)]
    push_cast
    constructor <;> intro h <;> linarith
  unfold roundHalfEven
  simp only [hdiv]
  by_cases hup : den < 2 * (num % den) ∨ (den = 2 * (num % den) ∧ num / den % 2 = 1)
  · rw [if_pos hup]
    push_cast
    rcases hup with h | ⟨h, hodd⟩
    · have h := hmore.1 h
      refine ⟨by linarith, by linarith, ?_⟩
      rintro (he | he) <;> linarith
    · have h := htie.1 h
      exact ⟨by linarith, by linarith, fun _ => by omega⟩
  · rw [if_neg hup]
    rw [not_or, not_and] at hup
    have h := not_lt.1 (mt hmore.2 hup.1)
    refine ⟨by linarith, by linarith, ?_⟩
    rintro (he | he)
    · have heven := hup.2 (htie.2 (by linarith))
      omega
    · linarith

/-! ### Doubles -/

/-- A mantissa that a fraction is rounded to, before it is known to fit. -/
private theorem rounds_of_near {k : Nat} {q : Int} {v : ℚ} (hlo : v / 2 ^ q - 1 / 2 ≤ k)
    (hhi : (k : ℚ) ≤ v / 2 ^ q + 1 / 2)
    (heven : (k : ℚ) = v / 2 ^ q - 1 / 2 ∨ (k : ℚ) = v / 2 ^ q + 1 / 2 → k % 2 = 0)
    (hfull : 2 ^ 52 ≤ v / 2 ^ q ∨ q = minExponent) : Rounds k q v := by
  have hpow : (0 : ℚ) < 2 ^ q := by positivity
  have hv : v = v / 2 ^ q * 2 ^ q := (div_mul_cancel₀ v hpow.ne').symm
  have hlower : (k - below k q : ℚ) ≤ v / 2 ^ q ∧ ((k - below k q : ℚ) = v / 2 ^ q → k % 2 = 0) := by
    by_cases hk : k = twoPow (precision - 1) ∧ minExponent < q
    · have hge := hfull.resolve_right (ne_of_gt hk.2)
      have hcast : (k : ℚ) = 2 ^ 52 := by
        rw [hk.1, twoPow_precision_pred]
        norm_num
      rw [show below k q = 1 / 4 from if_pos hk]
      exact ⟨by linarith, fun he => absurd he (by linarith)⟩
    · rw [show below k q = 1 / 2 from if_neg hk]
      exact ⟨by linarith, fun he => heven (Or.inr (by linarith))⟩
  refine ⟨?_, ?_, ?_⟩
  · rw [hv]
    exact mul_le_mul_of_nonneg_right hlower.1 hpow.le
  · rw [hv]
    exact mul_le_mul_of_nonneg_right (by linarith) hpow.le
  · rw [hv]
    rintro (he | he)
    · exact hlower.2 (mul_right_cancel₀ hpow.ne' he).symm
    · have := mul_right_cancel₀ hpow.ne' he
      exact heven (Or.inl (by linarith))

private theorem twoPow_pred_lt : twoPow (precision - 1) < twoPow precision := by
  rw [twoPow_precision, twoPow_precision_pred]
  norm_num

/-- Where rounding up fills one bit more than fits, the next exponent has the mantissa with one bit. -/
private theorem rounds_carry {q : Int} {v : ℚ} (hq : minExponent ≤ q) (hlo : (2 : ℚ) ^ 53 - 1 / 2 ≤ v / 2 ^ q)
    (hhi : v / 2 ^ q < 2 ^ 53) : Rounds (twoPow (precision - 1)) (q + 1) v := by
  have hpow : (0 : ℚ) < 2 ^ q := by positivity
  have hv : v = v / 2 ^ q * 2 ^ q := (div_mul_cancel₀ v hpow.ne').symm
  have hcast : ((twoPow (precision - 1) : Nat) : ℚ) = 2 ^ 52 := by
    rw [twoPow_precision_pred]
    norm_num
  have hnext : (2 : ℚ) ^ (q + 1) = 2 * 2 ^ q := by rw [zpow_add_one₀ (by norm_num), mul_comm]
  have hbelow : below (twoPow (precision - 1)) (q + 1) = 1 / 4 := if_pos ⟨rfl, Int.lt_add_one_of_le hq⟩
  refine ⟨?_, ?_, fun _ => ?_⟩
  · rw [lower, hbelow, hcast, hnext, hv, ← mul_assoc]
    exact mul_le_mul_of_nonneg_right (by linarith) hpow.le
  · rw [upper, hcast, hnext, hv, ← mul_assoc]
    exact mul_le_mul_of_nonneg_right (by linarith) hpow.le
  · norm_num [twoPow_precision_pred]

private theorem pack_of_ne (negative : Bool) {m : Nat} (h : m ≠ twoPow precision) (q : Int) :
    pack negative m q = if maxExponent < q then .infinite negative else .finite negative m q := by
  unfold pack
  rw [if_neg h]

private theorem pack_of_eq (negative : Bool) {m : Nat} (h : m = twoPow precision) (q : Int) :
    pack negative m q =
      if maxExponent < q + 1 then .infinite negative else .finite negative (twoPow (precision - 1)) (q + 1) := by
  unfold pack
  rw [if_pos h]

/-- The mantissa that a number is rounded to at the right exponent makes, with a carry if it has to, a double to
which the number rounds. -/
private theorem pack_spec (negative : Bool) {k : Nat} {q : Int} {v : ℚ} (hlo : v / 2 ^ q - 1 / 2 ≤ k)
    (hhi : (k : ℚ) ≤ v / 2 ^ q + 1 / 2)
    (heven : (k : ℚ) = v / 2 ^ q - 1 / 2 ∨ (k : ℚ) = v / 2 ^ q + 1 / 2 → k % 2 = 0) (hleast : minExponent ≤ q)
    (hlt : v / 2 ^ q < 2 ^ 53) (hfull : 2 ^ 52 ≤ v / 2 ^ q ∨ q = minExponent) : ∃ m q', Normal m q' ∧
      Rounds m q' v ∧ pack negative k q = if maxExponent < q' then .infinite negative else .finite negative m q' := by
  by_cases hk : k = twoPow precision
  · have hcast : (k : ℚ) = 2 ^ 53 := by
      rw [hk, twoPow_precision]
      norm_num
    have hnormal : Normal (twoPow (precision - 1)) (q + 1) := ⟨twoPow_pred_lt, by omega, Or.inl (Nat.le_refl _)⟩
    exact ⟨_, _, hnormal, rounds_carry hleast (by linarith) hlt, pack_of_eq negative hk q⟩
  · have hle : k < 9007199254740993 := by
      have hcast : (k : ℚ) < 9007199254740993 := lt_of_le_of_lt hhi (by linarith)
      exact_mod_cast hcast
    have hnormal : Normal k q := by
      rw [twoPow_precision] at hk
      refine ⟨by rw [twoPow_precision]; omega, hleast, hfull.imp_left fun hge => ?_⟩
      have hcast : (4503599627370495 : ℚ) < k := lt_of_lt_of_le (by linarith) hlo
      have hnat : 4503599627370495 < k := by exact_mod_cast hcast
      rw [twoPow_precision_pred]
      omega
    exact ⟨k, q, hnormal, rounds_of_near hlo hhi heven hfull, pack_of_ne negative hk q⟩

private theorem nearest_eq (negative : Bool) (hnum : 0 < num) (den : Nat) : nearest negative num den =
    pack negative (roundHalfEven (scaleByTwo num den (exponentOf num den)).1
      (scaleByTwo num den (exponentOf num den)).2) (exponentOf num den) := by
  unfold nearest
  split
  · next hzero => exact absurd hzero (Nat.pos_iff_ne_zero.1 hnum)
  · extract_lets q
    split
    next n d hscaled =>
    rw [show scaleByTwo num den (exponentOf num den) = (n, d) from hscaled]

/-- The double that is found is one to which the fraction rounds. -/
theorem nearest_spec (negative : Bool) (hnum : 0 < num) (hden : 0 < den) : ∃ m q, Normal m q ∧
    Rounds m q ((num : ℚ) / den) ∧
      nearest negative num den = if maxExponent < q then .infinite negative else .finite negative m q := by
  obtain ⟨hleast, hlt, hfull⟩ := exponentOf_spec hnum hden
  obtain ⟨hd, hscaled⟩ := scaleByTwo_spec num hden (exponentOf num den)
  obtain ⟨hlo, hhi, heven⟩ := roundHalfEven_spec (scaleByTwo num den (exponentOf num den)).1 hd
  rw [hscaled] at hlo hhi heven
  rw [nearest_eq negative hnum den]
  exact pack_spec negative hlo hhi heven hleast hlt hfull

private theorem canonical_zero (negative : Bool) : (finite negative 0 minExponent).Canonical :=
  ⟨twoPow_pos _, Int.le_refl _, by decide, Or.inr rfl⟩

private theorem canonical_nearest (negative : Bool) (num : Nat) (hden : 0 < den) :
    (nearest negative num den).Canonical := by
  rcases Nat.eq_zero_or_pos num with rfl | hnum
  · exact canonical_zero negative
  · obtain ⟨m, q, hn, -, heq⟩ := nearest_spec negative hnum hden
    rw [heq]
    split
    · trivial
    · next hq => exact ⟨hn.lt, hn.least, not_lt.1 hq, hn.full⟩

/-- A fraction is rounded to the double that it is known to round to. -/
private theorem nearest_of_rounds {negative : Bool} {m : Nat} {q : Int} (hn : Normal m q) (hq : q ≤ maxExponent)
    (hnum : 0 < num) (hden : 0 < den) (h : Rounds m q ((num : ℚ) / den)) :
    nearest negative num den = .finite negative m q := by
  obtain ⟨m', q', hn', h', heq⟩ := nearest_spec negative hnum hden
  obtain ⟨rfl, rfl⟩ := h.unique h' hn hn'
  rw [heq, if_neg (not_lt.2 hq)]

/-! ### Decimals -/

/-- What a decimal rounds to is in its one form. -/
theorem canonical_ofDecimal (negative : Bool) (digits : Nat) (power : Int) :
    (ofDecimal negative digits power).Canonical := by
  unfold ofDecimal
  dsimp only
  split
  · exact canonical_zero negative
  · split
    · trivial
    · split
      · exact canonical_nearest negative _ Nat.one_pos
      · exact canonical_nearest negative _ (tenPow_pos _)

/-- A decimal lies between the powers of ten given by the number of its digits. -/
private theorem magnitude_bounds {digits : Nat} (h : 0 < digits) (power : Int) :
    (10 : ℚ) ^ (((Nat.toDigits 10 digits).length : Int) + power - 1) ≤ digits * 10 ^ power ∧
      digits * 10 ^ power < (10 : ℚ) ^ (((Nat.toDigits 10 digits).length : Int) + power) := by
  have hten : (10 : ℚ) ≠ 0 := by norm_num
  have hlen := Nat.length_toDigits_pos (b := 10) (n := digits)
  have hpow : (0 : ℚ) < 10 ^ power := by positivity
  constructor
  · have hge : 10 ^ ((Nat.toDigits 10 digits).length - 1) ≤ digits := by
      by_cases hone : (Nat.toDigits 10 digits).length = 1
      · rw [hone]
        exact h
      · refine not_lt.1 fun hlt => ?_
        have hle := (Nat.length_toDigits_le_iff (by norm_num) (by omega)).2 hlt
        omega
    have hcast : (10 : ℚ) ^ (((Nat.toDigits 10 digits).length : Int) - 1) ≤ digits := by
      have hle : ((10 ^ ((Nat.toDigits 10 digits).length - 1) : Nat) : ℚ) ≤ digits := by exact_mod_cast hge
      rw [Nat.cast_pow, ← zpow_natCast, Nat.cast_sub hlen] at hle
      exact_mod_cast hle
    rw [show ((Nat.toDigits 10 digits).length : Int) + power - 1 =
      ((Nat.toDigits 10 digits).length : Int) - 1 + power by ring, zpow_add₀ hten]
    exact mul_le_mul_of_nonneg_right hcast hpow.le
  · have hlt : digits < 10 ^ (Nat.toDigits 10 digits).length :=
      (Nat.length_toDigits_le_iff (by norm_num) hlen).1 (Nat.le_refl _)
    rw [zpow_add₀ hten, zpow_natCast]
    have hcast : (digits : ℚ) < 10 ^ (Nat.toDigits 10 digits).length := by exact_mod_cast hlt
    exact mul_lt_mul_of_pos_right hcast hpow

/-- No number that rounds to a double other than zero is smaller. -/
private theorem Rounds.least_le {m : Nat} {q : Int} {v : ℚ} (h : Rounds m q v) (hn : Normal m q) (hm : 0 < m) :
    (10 : ℚ) ^ (-324 : Int) ≤ v := by
  have hone : (1 : ℚ) ≤ m := by exact_mod_cast hm
  have hpow : (2 : ℚ) ^ minExponent ≤ 2 ^ q := zpow_le_zpow_right₀ (by norm_num) hn.least
  have hnum : (10 : ℚ) ^ (-324 : Int) ≤ 1 / 2 * 2 ^ minExponent := by
    have hnat : 2 ^ 1074 * 2 ≤ 10 ^ 324 := by decide +kernel
    have hcast : (2 : ℚ) ^ 1074 * 2 ≤ 10 ^ 324 := by exact_mod_cast hnat
    rw [minExponent, zpow_neg, zpow_neg, one_div, ← mul_inv]
    refine inv_anti₀ (by positivity) ?_
    rw [mul_comm]
    exact_mod_cast hcast
  refine hnum.trans (le_trans ?_ h.lower_le)
  exact mul_le_mul (by linarith [below_le m q]) hpow (by positivity) (by linarith [below_le m q])

/-- No number that rounds to a finite double is greater. -/
private theorem Rounds.le_greatest {m : Nat} {q : Int} {v : ℚ} (h : Rounds m q v) (hn : Normal m q)
    (hq : q ≤ maxExponent) : v < (10 : ℚ) ^ (309 : Int) := by
  have hlt := hn.lt
  rw [twoPow_precision] at hlt
  have hcast : (m : ℚ) ≤ 9007199254740991 := by exact_mod_cast Nat.le_of_lt_succ hlt
  have hpow : (2 : ℚ) ^ q ≤ 2 ^ maxExponent := zpow_le_zpow_right₀ (by norm_num) hq
  have hnum : (9007199254740992 : ℚ) * 2 ^ maxExponent < 10 ^ (309 : Int) := by
    have hnat : 9007199254740992 * 2 ^ 971 < 10 ^ 309 := by decide +kernel
    have hcast : (9007199254740992 : ℚ) * 2 ^ 971 < 10 ^ 309 := by exact_mod_cast hnat
    rw [maxExponent]
    exact_mod_cast hcast
  refine lt_of_le_of_lt (h.le_upper.trans ?_) hnum
  exact mul_le_mul (by linarith) hpow (by positivity) (by norm_num)

/-- A decimal is read as the double that it is known to round to. -/
theorem ofDecimal_of_rounds {negative : Bool} {digits m : Nat} {power q : Int} (hn : Normal m q)
    (hq : q ≤ maxExponent) (hm : 0 < m) (h : Rounds m q (digits * 10 ^ power)) :
    ofDecimal negative digits power = .finite negative m q := by
  have hdigits : 0 < digits := by
    refine Nat.pos_of_ne_zero fun h0 => ?_
    have hpos := h.pos hm
    rw [h0] at hpos
    simp at hpos
  obtain ⟨hge, hlt⟩ := magnitude_bounds hdigits power
  have hone : (1 : ℚ) < 10 := by norm_num
  have hlow : ¬ ((Nat.toDigits 10 digits).length : Int) + power ≤ -324 := fun hle =>
    absurd (hlt.trans_le (zpow_le_zpow_right₀ hone.le hle)) (not_lt.2 (h.least_le hn hm))
  have hhigh : ¬ 310 ≤ ((Nat.toDigits 10 digits).length : Int) + power := fun hle =>
    absurd ((zpow_le_zpow_right₀ hone.le (by omega)).trans hge) (not_le.2 (h.le_greatest hn hq))
  unfold ofDecimal
  dsimp only
  rw [if_neg (by rintro (h0 | h0) <;> omega), if_neg hhigh]
  split
  · next hpower =>
    refine nearest_of_rounds hn hq (Nat.mul_pos hdigits (tenPow_pos _)) Nat.one_pos ?_
    rwa [Nat.cast_mul, tenPow_cast, ← zpow_natCast, Int.toNat_of_nonneg hpower, Nat.cast_one, div_one]
  · next hpower =>
    refine nearest_of_rounds hn hq hdigits (tenPow_pos _) ?_
    rwa [tenPow_cast, ← zpow_natCast, Int.toNat_of_nonneg (by omega), zpow_neg, div_inv_eq_mul]

end Scriptlet.Double
