/-!
# Decimal digits

The number that a string of ASCII digits stands for.
-/

namespace Scriptlet.Text

/-- The value of a decimal digit. -/
def digitValue (c : Char) : Nat := c.toNat - '0'.toNat

/-- The number a list of decimal digits stands for, the first digit being the greatest. -/
def digitsValue (digits : List Char) : Nat := digits.foldl (fun n c => 10 * n + digitValue c) 0

@[simp] theorem digitsValue_nil : digitsValue [] = 0 := rfl

end Scriptlet.Text
