import Scriptlet.Double.Rounding
import Scriptlet.Double.Shortest
import Scriptlet.Text.Digits

/-!
# Doubles as text

`Double.text` writes a double by its shortest digits, positionally and always with a fraction from `1e-4` up to
`1e16` and with a power of ten beyond; `Double.ofText?` reads such text, and any other decimal numeral, by
rounding to the nearest double.
-/

namespace Scriptlet.Double

/-! ### Writing -/

/-- The least and the first excluded decimal exponent of the values written positionally. -/
def positionalExponents : Int × Int := (-4, 16)

/-- A decimal numeral with its point after the digit of the units, and at least one digit on either side. -/
def positional (digits : List Char) (exponent : Int) : String :=
  if exponent < 0 then
    String.ofList ("0.".toList ++ List.replicate (-exponent - 1).toNat '0' ++ digits)
  else
    let count := exponent.toNat + 1
    let whole := digits.take count ++ List.replicate (count - digits.length) '0'
    let fraction := digits.drop count
    String.ofList (whole ++ '.' :: (if fraction.isEmpty then ['0'] else fraction))

/-- A decimal numeral with one digit before its point, which is left out if nothing follows, and a power of
ten. -/
def scientific (digits : List Char) (exponent : Int) : String :=
  let fraction := digits.drop 1
  String.ofList (digits.take 1 ++ (if fraction.isEmpty then [] else '.' :: fraction)) ++ "e" ++ toString exponent

/-- The text of a positive decimal. -/
def Decimal.text (d : Decimal) : String :=
  let digits := Nat.toDigits 10 d.digits
  let exponent : Int := digits.length - 1 + d.power
  if positionalExponents.1 ≤ exponent ∧ exponent < positionalExponents.2 then positional digits exponent
  else scientific digits exponent

/-- The text of a double. -/
def text : Double → String
  | .nan => "NaN"
  | .infinite negative => if negative then "-inf" else "inf"
  | .finite negative m q =>
    (if negative then "-" else "") ++ (if m = 0 then "0.0" else (shortest m q).text)

/-! ### Reading -/

/-- The power of ten after a numeral: nothing, or a letter `e`, an optional sign and digits. -/
def exponent? : List Char → Option Int
  | [] => some 0
  | e :: rest =>
    if e ≠ 'e' ∧ e ≠ 'E' then none
    else
      let (negative, digits) := match rest with
        | '-' :: ds => (true, ds)
        | '+' :: ds => (false, ds)
        | ds => (false, ds)
      if digits.isEmpty || !digits.all Char.isDigit then none
      else some (if negative then -(Text.digitsValue digits : Int) else Text.digitsValue digits)

/-- Reads an unsigned numeral: digits, an optional point with digits, an optional power of ten. -/
def ofNumeral? (negative : Bool) (cs : List Char) : Option Double :=
  let whole := cs.takeWhile Char.isDigit
  let rest := cs.dropWhile Char.isDigit
  let (fraction, rest) := match rest with
    | '.' :: ds => (ds.takeWhile Char.isDigit, ds.dropWhile Char.isDigit)
    | ds => ([], ds)
  if whole.isEmpty && fraction.isEmpty then none
  else (exponent? rest).map fun e =>
    ofDecimal negative (Text.digitsValue (whole ++ fraction)) (e - fraction.length)

/-- Reads a magnitude: a numeral, or the name of a value that no numeral stands for. -/
def ofMagnitude? (negative : Bool) (cs : List Char) : Option Double :=
  if cs = "inf".toList then some (.infinite negative)
  else if cs = "NaN".toList then some .nan
  else ofNumeral? negative cs

/-- Reads the text of a double, with an optional sign. -/
def ofText? (s : String) : Option Double :=
  match s.toList with
  | '-' :: cs => ofMagnitude? true cs
  | '+' :: cs => ofMagnitude? false cs
  | cs => ofMagnitude? false cs

end Scriptlet.Double
