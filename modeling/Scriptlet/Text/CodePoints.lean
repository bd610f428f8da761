/-!
# Sets of code points

A set of characters given by an ascending table of inclusive ranges, as the Unicode character database lists
its properties.
-/

namespace Scriptlet.Text

/-- The code points from `first` to `last`, both included. -/
structure CodePointRange where
  first : UInt32
  last : UInt32

/-- A set of code points, as ascending ranges that do not meet. -/
structure CodePoints where
  ranges : Array CodePointRange

/-- The number of the ranges from index `lo` on, `lo + width` excluded, that begin at or before `n`, added to
`lo`; the interval is halved until it is empty, which takes `fuel` steps at most if `width < 2 ^ fuel`. -/
def CodePoints.countFirst (s : CodePoints) (n : UInt32) : (fuel lo width : Nat) → Nat
  | 0, lo, _ => lo
  | fuel + 1, lo, width =>
    if width = 0 then lo
    else
      let half := width / 2
      match s.ranges[lo + half]? with
      | some r =>
        if r.first ≤ n then s.countFirst n fuel (lo + half + 1) (width - half - 1)
        else s.countFirst n fuel lo half
      | none => lo

/-- The character is in the set: the last range that begins at or before it reaches it. -/
def CodePoints.contains (s : CodePoints) (c : Char) : Bool :=
  match s.countFirst c.val (s.ranges.size.log2 + 1) 0 s.ranges.size with
  | 0 => false
  | i + 1 => (s.ranges[i]?).any fun r => c.val ≤ r.last

end Scriptlet.Text
