import Scriptlet.Double.Basic

/-!
# Rounding to the nearest double

`Double.nearest num den` is the double nearest to the fraction `num / den`, a tie going to the even mantissa.
Fractions too great for the format become infinite, and fractions below half the least positive value zero.
-/

namespace Scriptlet

/-- The fraction `num / den` times `2 ^ (-q)`, as a fraction. -/
def scaleByTwo (num den : Nat) (q : Int) : Nat × Nat :=
  if 0 ≤ q then (num, den * Double.twoPow q.toNat) else (num * Double.twoPow (-q).toNat, den)

/-- The integer nearest to `num / den`; a half goes to the even neighbour. -/
def roundHalfEven (num den : Nat) : Nat :=
  let k := num / den
  let r := num % den
  if den < 2 * r ∨ (den = 2 * r ∧ k % 2 = 1) then k + 1 else k

namespace Double

/-- The exponent of the doubles around `num / den`: the one that makes the mantissa full, or the least one. -/
def exponentOf (num den : Nat) : Int :=
  let q : Int := (num.log2 : Int) - den.log2 - (precision - 1 : Nat)
  let (n, d) := scaleByTwo num den q
  let q := if n < d * twoPow (precision - 1) then q - 1 else q
  max q minExponent

/-- The mantissa `m` at the exponent `q`, where rounding up may have filled one bit more than fits. -/
def pack (negative : Bool) (m : Nat) (q : Int) : Double :=
  let (m, q) := if m = twoPow precision then (twoPow (precision - 1), q + 1) else (m, q)
  if maxExponent < q then .infinite negative else .finite negative m q

/-- The double nearest to the non-negative fraction `num / den`, with the given sign. -/
def nearest (negative : Bool) (num den : Nat) : Double :=
  if num = 0 then .finite negative 0 minExponent
  else
    let q := exponentOf num den
    let (n, d) := scaleByTwo num den q
    pack negative (roundHalfEven n d) q

/-- The double nearest to `digits * 10 ^ power`.  A magnitude of `10 ^ 309` or more is beyond the format, and
one below `10 ^ (-324)` is nearer to zero than to the least positive value, so that no great power of ten is
ever worked out. -/
def ofDecimal (negative : Bool) (digits : Nat) (power : Int) : Double :=
  let magnitude : Int := (Nat.toDigits 10 digits).length + power
  if digits = 0 ∨ magnitude ≤ -324 then .finite negative 0 minExponent
  else if 310 ≤ magnitude then .infinite negative
  else if 0 ≤ power then nearest negative (digits * tenPow power.toNat) 1
  else nearest negative digits (tenPow (-power).toNat)

end Double

end Scriptlet
