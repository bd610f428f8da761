import Scriptlet.Proofs.Dump.Heads
import Scriptlet.Proofs.Lines.Located

/-!
# Labels of lines

The labels of trees in a dump: a word alone (`body`, `then`, `else`), or the head of a line and a span.
`Label.text_inj`: the text of a label that can be read determines it, as its first word ends at the first space and its
span begins at the last parenthesis.
-/

namespace Scriptlet

/-! ### Spans -/

private theorem Span.toList_text (s : Span) :
    s.text.toList = Nat.toDigits 10 s.lo ++ '.' :: '.' :: Nat.toDigits 10 s.hi := by
  simp [text]

/-- The text of a span is digits and points. -/
private theorem Span.notMem_text (s : Span) {c : Char} (hdigit : c.isDigit = false) (hpoint : c ≠ '.') :
    c ∉ s.text.toList := by
  rw [toList_text]
  simp [Text.notMem_toDigits hdigit, hpoint]

private theorem Span.text_inj {s t : Span} (h : s.text.toList = t.text.toList) : s = t := by
  have hdot (n : Nat) : ∀ c ∈ Nat.toDigits 10 n, ¬c = '.' := by
    rintro c hc rfl
    exact Text.notMem_toDigits (by decide) n hc
  rw [toList_text, toList_text] at h
  obtain ⟨hlo, hafter⟩ := append_inj_of_stop (hdot _) (hdot _) head?_cons_eq head?_cons_eq h
  have hlo : s.lo = t.lo := Text.toDigits_inj hlo
  have hhi : s.hi = t.hi := Text.toDigits_inj (List.tail_eq_of_cons_eq (List.tail_eq_of_cons_eq hafter))
  obtain ⟨lo, len⟩ := s
  obtain ⟨lo', len'⟩ := t
  obtain rfl : lo = lo' := hlo
  obtain rfl : len = len' := Nat.add_left_cancel hhi
  rfl

namespace Dump

/-! ### Labels -/

namespace Head

variable {a b : Head}

/-- After the first word comes a space, or nothing. -/
private def after (h : Head) : List Char := (h.detail?.map fun s => ' ' :: s.toList).getD []

private theorem toList_text (h : Head) : h.text.toList = h.kind.text.toList ++ h.after := by
  rw [text, String.toList_append, after]
  cases h.detail? <;> simp

private theorem detail?_of_after (h : a.after = b.after) : a.detail? = b.detail? := by
  unfold after at h
  cases ha : a.detail? with
  | none =>
    cases hb : b.detail? with
    | none => rfl
    | some t =>
      rw [ha, hb] at h
      cases h
  | some s =>
    cases hb : b.detail? with
    | none =>
      rw [ha, hb] at h
      cases h
    | some t =>
      rw [ha, hb] at h
      rw [String.toList_inj.1 (List.tail_eq_of_cons_eq h)]

end Head

/-- What a line says: one word, or a head and a span. -/
inductive Label where
  | word (kind : Kind)
  | line (head : Head) (span : Span)

namespace Label

def text : Label → String
  | word kind => kind.text
  | line head span => head.text ++ " (" ++ span.text ++ ")"

/-- The label can be read. -/
def Legible : Label → Prop
  | word _ => True
  | line head _ => head.Legible

def kind : Label → Kind
  | word kind => kind
  | line head _ => head.kind

variable {a b : Label}

/-- The text after the first word. -/
private def tail : Label → List Char
  | word _ => []
  | line head span => head.after ++ ' ' :: '(' :: (span.text.toList ++ [')'])

private theorem toList_text (a : Label) : a.text.toList = a.kind.text.toList ++ a.tail := by
  cases a with
  | word kind => exact (List.append_nil _).symm
  | line head span => simp [text, tail, kind, Head.toList_text]

private theorem head?_tail (a : Label) : ∀ c ∈ a.tail.head?, c = ' ' := by
  cases a with
  | word kind => exact fun c hc => nomatch hc
  | line head span =>
    rw [tail, Head.after]
    cases head.detail? with
    | none => exact head?_cons_eq
    | some s => exact head?_cons_eq

/-- The span of a line begins at its last parenthesis. -/
private theorem tail_line_inj {head head' : Head} {span span' : Span}
    (h : (line head span).tail = (line head' span').tail) : head.after = head'.after ∧ span = span' := by
  have hparens (s : Span) : '(' ∉ s.text.toList ++ [')'] := by
    simp [s.notMem_text (c := '(') (by decide) (by decide)]
  have hcut (head : Head) (span : Span) :
      (line head span).tail = (head.after ++ [' ']) ++ '(' :: (span.text.toList ++ [')']) := by
    simp [tail]
  rw [hcut, hcut] at h
  obtain ⟨hafter, hspan⟩ := append_inj_of_last (hparens span) (hparens span') h
  exact ⟨List.append_cancel_right hafter, Span.text_inj (List.append_cancel_right hspan)⟩

/-- The text of a label that can be read determines it. -/
theorem text_inj (ha : a.Legible) (hb : b.Legible) (h : a.text = b.text) : a = b := by
  have hlists := congrArg String.toList h
  rw [toList_text, toList_text] at hlists
  obtain ⟨hkind, htail⟩ := append_inj_of_stop a.kind.text_shape.1 b.kind.text_shape.1 (head?_tail a) (head?_tail b)
    hlists
  have hkind : a.kind = b.kind := Kind.text_inj (String.toList_inj.1 hkind)
  cases a with
  | word k =>
    cases b with
    | word k' => exact congrArg word hkind
    | line head span => exact absurd htail.symm (by simp [tail])
  | line head span =>
    cases b with
    | word k' => exact absurd htail (by simp [tail])
    | line head' span' =>
      obtain ⟨hafter, rfl⟩ := tail_line_inj htail
      rw [Head.eq_of_detail ha hb hkind (Head.detail?_of_after hafter)]

private theorem newline_notMem_tail (h : a.Legible) : '\n' ∉ a.tail := by
  cases a with
  | word kind => exact List.not_mem_nil
  | line head span =>
    have hafter : '\n' ∉ head.after := by
      unfold Head.after
      cases hdetail : head.detail? with
      | none => exact List.not_mem_nil
      | some s =>
        have hs : '\n' ∉ s.toList := Head.newline_notMem_detail h s hdetail
        simpa using hs
    have hspan : '\n' ∉ span.text.toList := span.notMem_text (by decide) (by decide)
    simp [tail, hafter, hspan]

/-- A line of a label that can be read is one line, and begins with its first word. -/
theorem plain (h : a.Legible) (i : Nat) : (⟨i, a.text⟩ : Line).Plain := by
  obtain ⟨hspace, hnewline, c, cs, hword⟩ := a.kind.text_shape
  have hlist := toList_text a
  refine ⟨?_, ?_, ?_⟩
  · rw [hlist]
    exact fun hmem => (List.mem_append.1 hmem).elim hnewline (newline_notMem_tail h)
  · intro hempty
    rw [show a.text = "" from hempty, hword] at hlist
    cases hlist
  · rw [hlist, hword]
    intro hhead
    exact hspace c (hword ▸ List.mem_cons_self) (Option.some.inj hhead)

end Label

end Dump

end Scriptlet
