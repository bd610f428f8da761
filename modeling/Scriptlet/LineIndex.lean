import Scriptlet.Span

/-!
# Lines and columns

An index of the offsets at which lines start, which turns a character offset into a line and a column, both
counted from one.
-/

namespace Scriptlet

/-- Where the lines of a source start.  The first line starts at offset zero; `later` holds the starts of the
others, in ascending order. -/
structure LineIndex where
  later : Array Nat
  deriving DecidableEq, Repr

/-- A place in a source as people count it, line and column from one. -/
structure Location where
  line : Nat
  column : Nat
  deriving DecidableEq, Repr

/-- The line and the column, as in `2,7`. -/
def Location.text (l : Location) : String := toString l.line ++ "," ++ toString l.column

namespace LineIndex

/-- The index of a source of one line. -/
def empty : LineIndex := ⟨#[]⟩

/-- The start of the last line so far. -/
def lastStart (l : LineIndex) : Nat := l.later.back?.getD 0

/-- Records that a line starts at `offset`.  Only an offset after the last start is recorded. -/
def push (l : LineIndex) (offset : Nat) : LineIndex :=
  if l.lastStart < offset then ⟨l.later.push offset⟩ else l

/-- Records the lines of a stretch of text that begins at `offset`: one after every line feed. -/
def pushLines (l : LineIndex) (offset : Nat) : List Char → LineIndex
  | [] => l
  | c :: cs => (if c = '\n' then l.push (offset + 1) else l).pushLines (offset + 1) cs

/-- The index of a whole source. -/
def of (src : String) : LineIndex := empty.pushLines 0 src.toList

/-- The number of lines. -/
def count (l : LineIndex) : Nat := l.later.size + 1

/-- The offsets at which lines start, that of the first line included. -/
def starts (l : LineIndex) : List Nat := 0 :: l.later.toList

/-- The line and the column of an offset, which may lie beyond the end of the source. -/
def locate (l : LineIndex) (offset : Nat) : Location :=
  let before := l.later.toList.takeWhile (· ≤ offset)
  ⟨before.length + 1, offset - before.getLast?.getD 0 + 1⟩

/-- The locations of the first and the last character of a span; of an empty span, its place twice. -/
def spanText (l : LineIndex) (s : Span) : String :=
  let start := l.locate s.lo
  let stop := if s.len = 0 then start else l.locate (s.hi - 1)
  start.text ++ ".." ++ stop.text

end LineIndex

end Scriptlet
