import Scriptlet.Double.Basic

/-!
# The shortest digits of a double

The reals that round to a double form an interval around it.  Its shortest digits are those of the decimal with
the fewest digits in that interval, of two such decimals the nearer one, and of two equally near the greater.
It is enough to try, for one digit, two digits and so on, the two decimals next to the value: if any decimal of
that many digits lies in the interval, one of these does.
-/

namespace Scriptlet.Double

/-- A positive decimal, `digits * 10 ^ power`. -/
structure Decimal where
  digits : Nat
  power : Int
  deriving DecidableEq, Repr

/-- The reals that round to a positive double: `lo`, the double itself and `hi` as multiples of `2 ^ exponent`.
The ends belong to the interval if a tie would go to this double. -/
structure Interval where
  lo : Nat
  value : Nat
  hi : Nat
  exponent : Int
  closed : Bool

/-- The interval of the double `m * 2 ^ q`.  Below a power of two the doubles stand twice as close, unless the
exponent is already the least. -/
def interval (m : Nat) (q : Int) : Interval where
  lo := if m = twoPow (precision - 1) ∧ minExponent < q then 4 * m - 1 else 4 * m - 2
  value := 4 * m
  hi := 4 * m + 2
  exponent := q - 2
  closed := m % 2 == 0

/-- Compares `a * 2 ^ e` with `d * 10 ^ g`, as natural numbers after clearing negative powers. -/
def compareScaled (a : Nat) (e : Int) (d : Nat) (g : Int) : Ordering :=
  let left := a * twoPow e.toNat * tenPow (-g).toNat
  let right := d * tenPow g.toNat * twoPow (-e).toNat
  compare left right

/-- The decimal lies in the interval. -/
def Interval.contains (i : Interval) (d : Nat) (g : Int) : Bool :=
  match compareScaled i.lo i.exponent d g, compareScaled i.hi i.exponent d g with
  | .lt, .gt => true
  | .eq, _ => i.closed
  | _, .eq => i.closed
  | _, _ => false

/-- The greatest `k` with `10 ^ k` at most the value of the interval, which is positive. -/
def Interval.decimalExponent (i : Interval) : Int :=
  let k := (((i.value.log2 : Int) + i.exponent) * 30103) / 100000
  if compareScaled i.value i.exponent 1 (k + 1) != .lt then k + 1
  else if compareScaled i.value i.exponent 1 k == .lt then k - 1
  else k

/-- The greatest multiple of `10 ^ g` at most the value, in units of `10 ^ g`. -/
def Interval.floorAt (i : Interval) (g : Int) : Nat :=
  (i.value * twoPow i.exponent.toNat * tenPow (-g).toNat) / (tenPow g.toNat * twoPow (-i.exponent).toNat)

/-- The decimal in units of `10 ^ g` that lies in the interval and is nearest to its value, if there is one; a
tie goes up. -/
def Interval.nearestAt? (i : Interval) (g : Int) : Option Decimal :=
  let down := i.floorAt g
  let up := down + 1
  match i.contains down g && down != 0, i.contains up g with
  | true, true =>
    if compareScaled (2 * i.value) i.exponent (down + up) g == .lt then some ⟨down, g⟩ else some ⟨up, g⟩
  | true, false => some ⟨down, g⟩
  | false, true => some ⟨up, g⟩
  | false, false => none

/-- The first decimal found on ever finer grids, `g` being the power of ten of the first one. -/
def Interval.firstHit (i : Interval) : (fuel : Nat) → (g : Int) → Decimal
  | 0, g => ⟨i.floorAt g, g⟩
  | fuel + 1, g => (i.nearestAt? g).getD (i.firstHit fuel (g - 1))

/-- The decimal without zeros at its end. -/
def Decimal.trim : (fuel : Nat) → Decimal → Decimal
  | 0, d => d
  | fuel + 1, d => if d.digits % 10 = 0 then Decimal.trim fuel ⟨d.digits / 10, d.power + 1⟩ else d

/-- The shortest decimal that rounds to the positive double `m * 2 ^ q`.  Seventeen digits always suffice. -/
def shortest (m : Nat) (q : Int) : Decimal :=
  let i := interval m q
  (i.firstHit 17 i.decimalExponent).trim 17

end Scriptlet.Double
