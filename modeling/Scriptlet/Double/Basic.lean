import Scriptlet.Double.Powers

/-!
# Double precision numbers

The values of the IEEE 754 format binary64.  A finite value is held as a sign, an integer mantissa and a power
of two, so that equality, rounding and the choice of digits are exact integer arithmetic.
-/

namespace Scriptlet

/-- A double precision value; `finite negative mantissa exponent` is `± mantissa * 2 ^ exponent`. -/
inductive Double where
  | finite (negative : Bool) (mantissa : Nat) (exponent : Int)
  | infinite (negative : Bool)
  | nan
  deriving DecidableEq, Repr, Inhabited

namespace Double

/-- The number of bits of a full mantissa. -/
def precision : Nat := 53

/-- The least exponent: that of the subnormal values and of zero. -/
def minExponent : Int := -1074

/-- The greatest exponent of a full mantissa. -/
def maxExponent : Int := 971

/-- Positive zero. -/
def zero : Double := .finite false 0 minExponent

/-- The one representation of each finite value: the mantissa is full unless the exponent is the least. -/
def Canonical : Double → Prop
  | .finite _ m q =>
    m < twoPow precision ∧ minExponent ≤ q ∧ q ≤ maxExponent ∧ (twoPow (precision - 1) ≤ m ∨ q = minExponent)
  | _ => True

/-- The value with the other sign; zero has two signs. -/
def neg : Double → Double
  | .finite s m q => .finite (!s) m q
  | .infinite s => .infinite (!s)
  | .nan => .nan

def isFinite : Double → Bool
  | .finite .. => true
  | _ => false

end Double

end Scriptlet
