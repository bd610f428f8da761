/-!
# Slices by byte offsets

Cutting a text at byte offsets of its UTF-8 form, which is only possible between characters.
-/

namespace Scriptlet.Text

/-- The text from byte `lo` up to byte `hi`, if both lie between characters and in this order. -/
def slice? (src : String) (lo hi : Nat) : Option String :=
  if h : (String.Pos.Raw.mk lo).IsValid src ∧ (String.Pos.Raw.mk hi).IsValid src ∧ lo ≤ hi then
    some (src.extract ⟨⟨lo⟩, h.1⟩ ⟨⟨hi⟩, h.2.1⟩)
  else none

/-- Between what stands before it and what comes after it, a text is found by its offsets. -/
theorem slice?_append (a m z : String) :
    slice? (a ++ (m ++ z)) a.utf8ByteSize (a.utf8ByteSize + m.utf8ByteSize) = some m := by
  have hlo : (String.Pos.Raw.mk a.utf8ByteSize).IsValid (a ++ (m ++ z)) :=
    String.Pos.Raw.isValid_iff_exists_append.2 ⟨a, m ++ z, rfl, rfl⟩
  have hhi : (String.Pos.Raw.mk (a.utf8ByteSize + m.utf8ByteSize)).IsValid (a ++ (m ++ z)) :=
    String.Pos.Raw.isValid_iff_exists_append.2 ⟨a ++ m, z, (String.append_assoc ..).symm, by simp [String.rawEndPos]⟩
  unfold slice?
  rw [dif_pos ⟨hlo, hhi, Nat.le_add_right _ _⟩]
  congr 1
  apply String.toByteArray_inj.1
  simp only [String.extract, String.toByteArray_append]
  have h := ByteArray.extract_append_size_add (a := a.toByteArray) (b := m.toByteArray ++ z.toByteArray) (i := 0)
    (j := m.utf8ByteSize)
  exact h.trans (ByteArray.extract_append_eq_left rfl)

end Scriptlet.Text
