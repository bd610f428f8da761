import Scriptlet.Double.Notation
import Scriptlet.Proofs.Double.Rounding
import Scriptlet.Proofs.Double.Shortest

/-!
# The text of a double

`isText_text` says what the text of a double is: the sign and the canonical numeral (`IsNumeral`) of the shortest
decimal that rounds to it.  There is one canonical numeral of a number, positional from `1e-4` up to `1e16` and with a
power of ten beyond, and it is read as this number (`IsNumeral.reads`).  So no finite double is changed by writing and
reading it (`ofText?_text`).
-/

namespace Scriptlet.Double

open Text
open Lexical (IsDigit IsDigits)

variable {whole fraction rest digits : List Char}

/-! ### What the text of a double is -/

/-- The canonical numeral of a positive number: its digits with a point between them and no needless zeros, or one digit
before the point and a power of ten. -/
inductive IsNumeral (v : ℚ) : List Char → Prop where
  | positional {whole fraction : List Char} : 10 ^ (-4 : Int) ≤ v → v < 10 ^ (16 : Int) → IsDigits whole →
    IsDigits fraction → (whole.head? = some '0' → whole = ['0']) →
    (fraction.getLast? = some '0' → fraction = ['0']) →
    digitsValue (whole ++ fraction) * 10 ^ (-fraction.length : Int) = v → IsNumeral v (whole ++ '.' :: fraction)
  | scientific {first : Char} {fraction : List Char} {power : String} {e : Int} :
    v < 10 ^ (-4 : Int) ∨ 10 ^ (16 : Int) ≤ v → IsDigit first → first ≠ '0' → (∀ c ∈ fraction, IsDigit c) →
    fraction.getLast? ≠ some '0' → IsDecimal e power →
    digitsValue (first :: fraction) * 10 ^ (e - fraction.length) = v →
    IsNumeral v (first :: (if fraction = [] then [] else '.' :: fraction) ++ 'e' :: power.toList)

/-- The text of a double. -/
inductive IsText : Double → String → Prop where
  | nan : IsText .nan "NaN"
  | infinite : IsText (.infinite false) "inf"
  | negInfinite : IsText (.infinite true) "-inf"
  | zero (q : Int) : IsText (.finite false 0 q) "0.0"
  | negZero (q : Int) : IsText (.finite true 0 q) "-0.0"
  | finite {m : Nat} {q : Int} {d : Decimal} {numeral : List Char} {text : String} (negative : Bool) : 0 < m →
    IsShortest m q d → IsNumeral d.value numeral → text.toList = (if negative then '-' :: numeral else numeral) →
    IsText (.finite negative m q) text

/-! ### Reading a numeral -/

/-- What stands after the digits of a numeral. -/
def IsTail (rest : List Char) : Prop := ∀ c ∈ rest.head?, c.isDigit = false ∧ c ≠ '.'

private theorem takeWhile_isDigit (hw : ∀ c ∈ whole, c.isDigit = true) (hr : ∀ c ∈ rest.head?, c.isDigit = false) :
    (whole ++ rest).takeWhile Char.isDigit = whole := by
  rw [List.takeWhile_append_of_pos hw]
  cases rest with
  | nil => simp
  | cons c rest => simp [hr c rfl]

private theorem dropWhile_isDigit (hw : ∀ c ∈ whole, c.isDigit = true) (hr : ∀ c ∈ rest.head?, c.isDigit = false) :
    (whole ++ rest).dropWhile Char.isDigit = rest := by
  rw [List.dropWhile_append_of_pos hw]
  cases rest with
  | nil => simp
  | cons c rest => simp [hr c rfl]

/-- A numeral without a point. -/
private theorem ofNumeral?_whole (negative : Bool) (hne : whole ≠ []) (hw : ∀ c ∈ whole, c.isDigit = true)
    (hr : IsTail rest) : ofNumeral? negative (whole ++ rest) =
      (exponent? rest).map fun e => ofDecimal negative (digitsValue whole) e := by
  unfold ofNumeral?
  rw [takeWhile_isDigit hw fun c hc => (hr c hc).1, dropWhile_isDigit hw fun c hc => (hr c hc).1]
  cases rest with
  | nil => simp [hne]
  | cons c rest =>
    have hc : c ≠ '.' := (hr c rfl).2
    simp [hne, hc]

/-- A numeral with a point. -/
private theorem ofNumeral?_point (negative : Bool) (hne : whole ≠ []) (hw : ∀ c ∈ whole, c.isDigit = true)
    (hf : ∀ c ∈ fraction, c.isDigit = true) (hr : IsTail rest) :
    ofNumeral? negative (whole ++ '.' :: (fraction ++ rest)) = (exponent? rest).map fun e =>
      ofDecimal negative (digitsValue (whole ++ fraction)) (e - fraction.length) := by
  have hpoint : ∀ c ∈ ('.' :: (fraction ++ rest)).head?, c.isDigit = false := by
    intro c hc
    cases hc
    decide
  unfold ofNumeral?
  rw [takeWhile_isDigit hw hpoint, dropWhile_isDigit hw hpoint]
  simp only [takeWhile_isDigit hf fun c hc => (hr c hc).1, dropWhile_isDigit hf fun c hc => (hr c hc).1]
  simp [hne]

private theorem exponent?_digits (hne : digits ≠ []) (hd : ∀ c ∈ digits, c.isDigit = true) :
    exponent? ('e' :: digits) = some (digitsValue digits : Int) := by
  cases digits with
  | nil => exact absurd rfl hne
  | cons c cs =>
    have hc : c.isDigit = true := hd c (List.mem_cons_self ..)
    have hminus : c ≠ '-' := by rintro rfl; exact absurd hc (by decide)
    have hplus : c ≠ '+' := by rintro rfl; exact absurd hc (by decide)
    have hcs : ∀ d ∈ cs, d.isDigit = true := fun d h => hd d (List.mem_cons_of_mem _ h)
    simpa [exponent?, hminus, hplus, hc] using hcs

private theorem exponent?_minus (hne : digits ≠ []) (hd : ∀ c ∈ digits, c.isDigit = true) :
    exponent? ('e' :: '-' :: digits) = some (-(digitsValue digits : Int)) := by
  simpa [exponent?, hne] using hd

/-- Every power of ten is read as it is written. -/
private theorem exponent?_decimal {e : Int} {power : String} (h : IsDecimal e power) :
    exponent? ('e' :: power.toList) = some e := by
  obtain ⟨digits, hdigits, -, hvalue, htext⟩ := h
  rw [htext]
  split
  · rw [exponent?_minus hdigits.1 hdigits.2, hvalue]
    congr 1
    omega
  · rw [exponent?_digits hdigits.1 hdigits.2, hvalue]
    congr 1
    omega

private theorem isTail_nil : IsTail [] := fun _ h => nomatch h

private theorem isTail_exponent (cs : List Char) : IsTail ('e' :: cs) := by
  intro c hc
  cases hc
  decide

/-- A canonical numeral is read as the number, which is rounded to a double. -/
theorem IsNumeral.reads {v : ℚ} {cs : List Char} (h : IsNumeral v cs) (negative : Bool) : ∃ (n : Nat) (power : Int),
    ofNumeral? negative cs = some (ofDecimal negative n power) ∧ (n : ℚ) * 10 ^ power = v := by
  cases h with
  | @positional whole fraction _ _ hwhole hfraction _ _ hvalue =>
    have hread := ofNumeral?_point negative hwhole.1 hwhole.2 hfraction.2 isTail_nil
    rw [List.append_nil, exponent?, Option.map_some, zero_sub] at hread
    exact ⟨_, _, hread, hvalue⟩
  | @scientific first fraction power e _ hfirst _ hfraction _ hpower hvalue =>
    have hone : ∀ c ∈ [first], c.isDigit = true := List.forall_mem_singleton.2 hfirst
    have hexp := exponent?_decimal hpower
    refine ⟨_, _, ?_, hvalue⟩
    split
    · next hnil =>
      subst hnil
      have hread := ofNumeral?_whole negative (List.cons_ne_nil first []) hone (isTail_exponent power.toList)
      rw [hexp, Option.map_some] at hread
      simpa using hread
    · have hread := ofNumeral?_point negative (List.cons_ne_nil first []) hone hfraction (isTail_exponent power.toList)
      rw [hexp, Option.map_some] at hread
      exact hread

/-! ### The text of a decimal -/

/-- A decimal lies between two powers of ten, by the number of its digits. -/
private theorem value_bounds {d : Decimal} (hpos : 0 < d.digits) :
    (10 : ℚ) ^ ((Nat.toDigits 10 d.digits).length - 1 + d.power) ≤ d.value ∧
      d.value < 10 ^ ((Nat.toDigits 10 d.digits).length - 1 + d.power + 1) := by
  have hpow : (0 : ℚ) < 10 ^ d.power := by positivity
  have hle : (10 : ℚ) ^ ((Nat.toDigits 10 d.digits).length - 1) ≤ d.digits := by
    exact_mod_cast pow_length_toDigits_le hpos
  have hlt : (d.digits : ℚ) < 10 ^ (Nat.toDigits 10 d.digits).length := by
    exact_mod_cast lt_pow_length_toDigits d.digits
  have hlength : ((Nat.toDigits 10 d.digits).length : Int) - 1 = ((Nat.toDigits 10 d.digits).length - 1 : Nat) := by
    have hpos : 0 < (Nat.toDigits 10 d.digits).length := Nat.length_toDigits_pos
    omega
  have hnext : ((Nat.toDigits 10 d.digits).length : Int) - 1 + d.power + 1 =
      (Nat.toDigits 10 d.digits).length + d.power := by omega
  rw [hnext, hlength, zpow_add₀ (by norm_num), zpow_add₀ (by norm_num), zpow_natCast, zpow_natCast]
  exact ⟨mul_le_mul_of_nonneg_right hle hpow.le, mul_lt_mul_of_pos_right hlt hpow⟩

section Notations

variable (hd : IsDigits digits) (hfirst : digits.head? ≠ some '0') (hlast : digits.getLast? ≠ some '0') {power : Int}

section Positional

variable (hlo : 10 ^ (-4 : Int) ≤ (digitsValue digits : ℚ) * 10 ^ power)
  (hhi : (digitsValue digits : ℚ) * 10 ^ power < 10 ^ (16 : Int))

include hd hlast hlo hhi in
/-- The point stands before the digits, with zeros between them. -/
private theorem isNumeral_before (k : Nat) (hk : (k : Int) + digits.length = -power) :
    IsNumeral (digitsValue digits * 10 ^ power) (['0'] ++ '.' :: (List.replicate k '0' ++ digits)) := by
  have hne : List.replicate k '0' ++ digits ≠ [] := List.append_ne_nil_of_right_ne_nil _ hd.1
  refine .positional hlo hhi ⟨List.cons_ne_nil _ _, isDigit_of_mem_zero⟩
    ⟨hne, List.forall_mem_append.2 ⟨isDigit_of_mem_zeros, hd.2⟩⟩ (fun _ => rfl) (fun h => ?_) ?_
  · rw [List.getLast?_append_of_ne_nil _ hd.1] at h
    exact absurd h hlast
  · have hvalue : digitsValue (['0'] ++ (List.replicate k '0' ++ digits)) = digitsValue digits := by
      rw [← List.append_assoc]
      exact digitsValue_zeros_append (k + 1) digits
    have hpower : (-(List.replicate k '0' ++ digits).length : Int) = power := by
      rw [List.length_append, List.length_replicate]
      omega
    rw [hvalue, hpower]

include hd hfirst hlo hhi in
/-- The point stands after the digits, with zeros between them. -/
private theorem isNumeral_after (k : Nat) (hk : (k : Int) = power) :
    IsNumeral (digitsValue digits * 10 ^ power) (digits ++ List.replicate k '0' ++ '.' :: ['0']) := by
  have hwhole : digits ++ List.replicate k '0' ≠ [] := List.append_ne_nil_of_left_ne_nil hd.1 _
  refine .positional hlo hhi ⟨hwhole, List.forall_mem_append.2 ⟨hd.2, isDigit_of_mem_zeros⟩⟩
    ⟨List.cons_ne_nil _ _, isDigit_of_mem_zero⟩ (fun h => ?_) (fun _ => rfl) ?_
  · rw [List.head?_append_of_ne_nil _ hd.1] at h
    exact absurd h hfirst
  · have hzeros : List.replicate k '0' ++ ['0'] = List.replicate (k + 1) '0' := List.replicate_succ'.symm
    rw [List.append_assoc, hzeros, digitsValue_append_zeros, ← hk, zpow_natCast, pow_succ, List.length_singleton]
    push_cast
    ring

include hd hfirst hlast hlo hhi in
/-- The point stands between the digits. -/
private theorem isNumeral_between (k : Nat) (hpos : 0 < k) (hlt : k < digits.length)
    (hk : (k : Int) - digits.length = power) :
    IsNumeral (digitsValue digits * 10 ^ power) (digits.take k ++ '.' :: digits.drop k) := by
  have hwhole : digits.take k ≠ [] := by
    rw [Ne, List.take_eq_nil_iff]
    exact not_or.2 ⟨hpos.ne', hd.1⟩
  have hfraction : digits.drop k ≠ [] := by
    rw [Ne, List.drop_eq_nil_iff]
    exact not_le.2 hlt
  refine .positional hlo hhi ⟨hwhole, fun c hc => hd.2 c (List.mem_of_mem_take hc)⟩
    ⟨hfraction, fun c hc => hd.2 c (List.mem_of_mem_drop hc)⟩ (fun h => ?_) (fun h => ?_) ?_
  · rw [List.head?_take, if_neg hpos.ne'] at h
    exact absurd h hfirst
  · rw [List.getLast?_drop, if_neg (not_le.2 hlt)] at h
    exact absurd h hlast
  · have hpower : (-(digits.drop k).length : Int) = power := by
      rw [List.length_drop]
      omega
    rw [List.take_append_drop, hpower]

include hd hfirst hlast hlo hhi in
private theorem isNumeral_positional (hleast : -5 < (digits.length : Int) - 1 + power) :
    IsNumeral (digitsValue digits * 10 ^ power) (positional digits (digits.length - 1 + power)).toList := by
  have hpos : 0 < digits.length := List.length_pos_iff.2 hd.1
  unfold positional
  split
  · rw [String.toList_ofList]
    exact isNumeral_before hd hlast hlo hhi _ (by omega)
  · generalize hcount : ((digits.length : Int) - 1 + power).toNat + 1 = count
    rw [String.toList_ofList]
    by_cases hlen : digits.length ≤ count
    · have h := isNumeral_after hd hfirst hlo hhi (count - digits.length) (by omega)
      simpa [List.take_of_length_le hlen, List.drop_of_length_le hlen] using h
    · have hlt : count < digits.length := Nat.lt_of_not_le hlen
      have h := isNumeral_between hd hfirst hlast hlo hhi count (by omega) hlt (by omega)
      simpa [hlen, Nat.sub_eq_zero_of_le hlt.le] using h

end Positional

include hd hfirst hlast in
private theorem isNumeral_scientific (hout : (digitsValue digits : ℚ) * 10 ^ power < 10 ^ (-4 : Int) ∨
      10 ^ (16 : Int) ≤ (digitsValue digits : ℚ) * 10 ^ power) :
    IsNumeral (digitsValue digits * 10 ^ power) (scientific digits (digits.length - 1 + power)).toList := by
  obtain ⟨c, cs, rfl⟩ := List.exists_cons_of_ne_nil hd.1
  obtain ⟨hc, hcs⟩ := List.forall_mem_cons.1 hd.2
  have hfraction : cs.getLast? ≠ some '0' := fun hzero => hlast (by rw [List.getLast?_cons, hzero]; rfl)
  have hvalue : (digitsValue (c :: cs) : ℚ) * 10 ^ ((((c :: cs).length : Int) - 1 + power) - cs.length) =
      digitsValue (c :: cs) * 10 ^ power := by
    congr 2
    rw [List.length_cons]
    push_cast
    ring
  have h := IsNumeral.scientific hout hc (fun h => hfirst (congrArg some h)) hcs hfraction
    (isDecimal_toString ((c :: cs).length - 1 + power)) hvalue
  unfold scientific
  cases cs with
  | nil => simpa using h
  | cons c' cs => simpa using h

end Notations

/-- The text of a decimal without zeros at its end is the canonical numeral of its value. -/
private theorem isNumeral_text {d : Decimal} (h : d.digits % 10 ≠ 0) : IsNumeral d.value d.text.toList := by
  have hpos : 0 < d.digits := by omega
  have hd : IsDigits (Nat.toDigits 10 d.digits) := ⟨Nat.toDigits_ne_nil, isDigit_of_mem_toDigits⟩
  have hfirst : (Nat.toDigits 10 d.digits).head? ≠ some '0' := fun hzero => hpos.ne' (head?_toDigits hzero)
  have hlast : (Nat.toDigits 10 d.digits).getLast? ≠ some '0' := fun hzero => h (getLast?_toDigits hzero)
  obtain ⟨hle, hlt⟩ := value_bounds hpos
  have hvalue : d.value = digitsValue (Nat.toDigits 10 d.digits) * 10 ^ d.power := by
    rw [digitsValue_toDigits, Decimal.value]
  have hten {e e' : Int} (h : e ≤ e') : (10 : ℚ) ^ e ≤ 10 ^ e' := zpow_le_zpow_right₀ (by norm_num) h
  unfold Decimal.text
  dsimp only
  generalize he : ((Nat.toDigits 10 d.digits).length : Int) - 1 + d.power = e at hle hlt ⊢
  have hexponents : positionalExponents = (-4, 16) := rfl
  rw [hexponents]
  split
  · next hexp =>
    have hlo : 10 ^ (-4 : Int) ≤ d.value := (hten hexp.1).trans hle
    have hhi : d.value < 10 ^ (16 : Int) := hlt.trans_le (hten (by omega))
    rw [hvalue] at hlo hhi ⊢
    subst he
    exact isNumeral_positional hd hfirst hlast hlo hhi (by omega)
  · next hexp =>
    have hout : d.value < 10 ^ (-4 : Int) ∨ 10 ^ (16 : Int) ≤ d.value := by
      rcases not_and_or.1 hexp with hless | hgreat
      · exact .inl (hlt.trans_le (hten (by omega)))
      · exact .inr ((hten (by omega)).trans hle)
    rw [hvalue] at hout ⊢
    subst he
    exact isNumeral_scientific hd hfirst hlast hout

/-- The text of a double is the sign and the canonical numeral of the shortest decimal that rounds to it. -/
theorem isText_text {x : Double} (hx : x.Canonical) : x.IsText x.text := by
  cases x with
  | nan => exact .nan
  | infinite negative =>
    cases negative with
    | false => exact .infinite
    | true => exact .negInfinite
  | finite negative m q =>
    rcases Nat.eq_zero_or_pos m with rfl | hm
    · cases negative with
      | false => exact .zero q
      | true => exact .negZero q
    · obtain ⟨hshortest, htrim⟩ := shortest_spec hx.normal hm hx.2.2.1
      refine .finite negative hm hshortest (isNumeral_text htrim) ?_
      cases negative <;> simp [text, hm.ne']

/-! ### The text of a double -/

private theorem head?_of_ofNumeral? {cs : List Char} {negative : Bool} {x : Double}
    (h : ofNumeral? negative cs = some x) : ∃ c rest, cs = c :: rest ∧ (c.isDigit = true ∨ c = '.') := by
  unfold ofNumeral? at h
  cases cs with
  | nil => simp at h
  | cons c rest =>
    refine ⟨c, rest, rfl, ?_⟩
    by_contra hc
    obtain ⟨hdigit, hpoint⟩ := not_or.1 hc
    simp [hdigit, hpoint] at h

/-- A numeral with or without a sign is no name of a value. -/
private theorem ofText?_of_ofNumeral? {cs : List Char} {negative : Bool} {x : Double} {s : String}
    (h : ofNumeral? negative cs = some x) (hs : s.toList = (if negative then ['-'] else []) ++ cs) :
    ofText? s = some x := by
  obtain ⟨c, rest, rfl, hc⟩ := head?_of_ofNumeral? h
  have hmagnitude : ofMagnitude? negative (c :: rest) = some x := by
    have hinf : c :: rest ≠ "inf".toList := by
      rintro heq
      cases heq
      revert hc
      decide
    have hnan : c :: rest ≠ "NaN".toList := by
      rintro heq
      cases heq
      revert hc
      decide
    rw [ofMagnitude?, if_neg hinf, if_neg hnan, h]
  unfold ofText?
  rw [hs]
  cases negative with
  | true => exact hmagnitude
  | false =>
    have hminus : c ≠ '-' := by rintro rfl; revert hc; decide
    have hplus : c ≠ '+' := by rintro rfl; revert hc; decide
    simp [hminus, hplus, hmagnitude]

private theorem ofNumeral?_zero (negative : Bool) :
    ofNumeral? negative ['0', '.', '0'] = some (.finite negative 0 minExponent) := by
  have h := ofNumeral?_point negative (List.cons_ne_nil '0' []) isDigit_of_mem_zero isDigit_of_mem_zero isTail_nil
  rw [exponent?, Option.map_some] at h
  exact h

/-- A finite double is read from its text. -/
theorem IsText.ofText?_eq {x : Double} {s : String} (h : x.IsText s) (hx : x.Canonical) (hf : x.isFinite = true) :
    ofText? s = some x := by
  cases h with
  | nan => cases hf
  | infinite => cases hf
  | negInfinite => cases hf
  | zero q =>
    obtain rfl : q = minExponent := hx.normal.full.resolve_left (by rw [twoPow_precision_pred]; omega)
    exact ofText?_of_ofNumeral? (ofNumeral?_zero false) (by simp)
  | negZero q =>
    obtain rfl : q = minExponent := hx.normal.full.resolve_left (by rw [twoPow_precision_pred]; omega)
    exact ofText?_of_ofNumeral? (ofNumeral?_zero true) (by simp)
  | @finite m q d numeral _ negative hm hshortest hnumeral htext =>
    obtain ⟨n, power, hread, hvalue⟩ := hnumeral.reads negative
    have hrounds := hshortest.rounds
    rw [← hvalue] at hrounds
    rw [ofDecimal_of_rounds hx.normal hx.2.2.1 hm hrounds] at hread
    refine ofText?_of_ofNumeral? hread ?_
    cases negative <;> exact htext

/-- A finite double is read as it is written. -/
theorem ofText?_text {x : Double} (hx : x.Canonical) (hf : x.isFinite = true) : ofText? x.text = some x :=
  (isText_text hx).ofText?_eq hx hf

end Scriptlet.Double
