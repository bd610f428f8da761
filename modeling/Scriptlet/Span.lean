/-!
# Spans

Half-open ranges of character offsets, by which tokens, tree nodes and diagnostics point into a source text.
-/

namespace Scriptlet

/-- The characters of a source from offset `lo` on, `len` of them. -/
structure Span where
  lo : Nat
  len : Nat
  deriving DecidableEq, Repr, Inhabited

namespace Span

/-- The greatest length a span can have. -/
def maxLength : Nat := 4294967295

/-- The span from `lo` up to `hi`, cut at the greatest length. -/
def ofBounds (lo hi : Nat) : Span := ⟨lo, min (hi - lo) maxLength⟩

/-- The offset after the last character. -/
def hi (s : Span) : Nat := s.lo + s.len

/-- The empty span at an offset. -/
def empty (offset : Nat) : Span := ⟨offset, 0⟩

/-- The span from the start of `s` to the end of `t`. -/
def through (s t : Span) : Span := ofBounds s.lo (max t.hi s.lo)

/-- The text a span covers, as far as it lies in the source. -/
def substr (s : Span) (src : String) : String :=
  String.ofList ((src.toList.drop s.lo).take s.len)

/-- The bounds, as in `2..5`. -/
def text (s : Span) : String := toString s.lo ++ ".." ++ toString s.hi

/-- The bounds and the length, as in `Span(2..5, len: 3)`. -/
def debug (s : Span) : String := "Span(" ++ s.text ++ ", len: " ++ toString s.len ++ ")"

/-- A span that is not too long ends where it should. -/
theorem hi_ofBounds {lo hi : Nat} (h : lo ≤ hi) (hmax : hi - lo ≤ maxLength) : (ofBounds lo hi).hi = hi := by
  simp only [Span.hi, ofBounds]; omega

@[simp] theorem lo_ofBounds (lo hi : Nat) : (ofBounds lo hi).lo = lo := rfl

@[simp] theorem lo_through (s t : Span) : (s.through t).lo = s.lo := rfl

@[simp] theorem hi_empty (offset : Nat) : (empty offset).hi = offset := rfl

end Span

/-- A value with the place in the source it belongs to. -/
structure Located (α : Type) where
  span : Span
  value : α
  deriving DecidableEq, Repr

end Scriptlet
