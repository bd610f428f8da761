import Scriptlet.Dump.Program
import Scriptlet.Proofs.Dump.Quoted
import Scriptlet.Proofs.Lexical.Segment
import Scriptlet.Proofs.Mirror.Inverse

/-!
# Texts of constants can be read back

`Literal.text_append_inj`: the text of a readable constant determines the constant, also where a comma and more comes
after it, so that constants with commas between them can be told apart (`intercalate_inj`).  A text shows its type: a
string begins with a quote, a truth value with its letter, and of the numbers just the doubles have a point or a power
of ten.
-/

namespace Scriptlet

open Lexical

/-! ### Numbers -/

/-- The characters of numbers. -/
def IsNumeric (c : Char) : Prop := c.isDigit = true ∨ c = '-' ∨ c = '.' ∨ c = 'e'

instance : DecidablePred IsNumeric := fun c =>
  inferInstanceAs (Decidable (c.isDigit = true ∨ c = '-' ∨ c = '.' ∨ c = 'e'))

/-- The decimal of an integer has digits and perhaps a minus, and it is not empty. -/
private theorem mem_decimal {n : Int} {text : String} (h : Text.IsDecimal n text) :
    (∀ c ∈ text.toList, c.isDigit = true ∨ c = '-') ∧ text.toList ≠ [] := by
  obtain ⟨digits, hdigits, -, -, htext⟩ := h
  have hall : ∀ c ∈ digits, c.isDigit = true ∨ c = '-' := fun c hc => .inl (hdigits.2 c hc)
  rw [htext]
  split
  · exact ⟨List.forall_mem_cons.2 ⟨.inr rfl, hall⟩, List.cons_ne_nil _ _⟩
  · exact ⟨hall, hdigits.1⟩

theorem mem_toString_int {n : Int} {c : Char} (h : c ∈ (toString n).toList) : c.isDigit = true ∨ c = '-' :=
  (mem_decimal (Text.isDecimal_toString n)).1 c h

private theorem toString_int_ne (n : Int) : toString n ≠ "" :=
  mt String.toList_eq_nil_iff.2 (mem_decimal (Text.isDecimal_toString n)).2

/-- Integers with the same digits and sign are equal. -/
theorem toString_int_inj {m n : Int} (h : (toString m).toList = (toString n).toList) : m = n := by
  rw [← (Text.isDecimal_toString m).integer_eq, h, (Text.isDecimal_toString n).integer_eq]

namespace Double

/-- A canonical numeral has a point or a power of ten. -/
private theorem mem_numeral {v : ℚ} {cs : List Char} (h : IsNumeral v cs) :
    (∀ c ∈ cs, IsNumeric c) ∧ ('.' ∈ cs ∨ 'e' ∈ cs) := by
  have hnumeric {digits : List Char} (hd : ∀ c ∈ digits, IsDigit c) : ∀ c ∈ digits, IsNumeric c :=
    fun c hc => .inl (hd c hc)
  have hpoint : IsNumeric '.' := .inr (.inr (.inl rfl))
  cases h with
  | positional _ _ hwhole hfraction =>
    refine ⟨List.forall_mem_append.2 ⟨hnumeric hwhole.2, ?_⟩, .inl (by simp)⟩
    exact List.forall_mem_cons.2 ⟨hpoint, hnumeric hfraction.2⟩
  | @scientific first fraction power e _ hfirst _ hfraction _ hpower =>
    have hexponent : ∀ c ∈ power.toList, IsNumeric c := fun c hc => ((mem_decimal hpower).1 c hc).imp_right .inl
    have htail : ∀ c ∈ if fraction = [] then [] else '.' :: fraction, IsNumeric c := by
      split
      · exact List.forall_mem_nil _
      · exact List.forall_mem_cons.2 ⟨hpoint, hnumeric hfraction⟩
    refine ⟨List.forall_mem_append.2 ⟨List.forall_mem_cons.2 ⟨.inl hfirst, htail⟩, ?_⟩, .inr (by simp)⟩
    exact List.forall_mem_cons.2 ⟨.inr (.inr (.inr rfl)), hexponent⟩

/-- The text of a finite double is a numeral with a point or a power of ten. -/
private theorem mem_text {x : Double} (hx : x.Canonical) (hf : x.isFinite = true) :
    (∀ c ∈ x.text.toList, IsNumeric c) ∧ ('.' ∈ x.text.toList ∨ 'e' ∈ x.text.toList) := by
  have h := isText_text hx
  generalize x.text = text at h
  cases h with
  | nan | infinite | negInfinite => cases hf
  | zero | negZero => exact ⟨forall_mem_of_all (by decide), .inl (by simp)⟩
  | finite negative _ _ hnumeral htext =>
    obtain ⟨hall, hmark⟩ := mem_numeral hnumeral
    rw [htext]
    split
    · exact ⟨List.forall_mem_cons.2 ⟨.inr (.inl rfl), hall⟩,
        hmark.imp (List.mem_cons_of_mem _) (List.mem_cons_of_mem _)⟩
    · exact ⟨hall, hmark⟩

end Double

/-! ### Constants -/

namespace Literal

variable {a b : Literal}

/-- The text of a constant is not empty, and does not begin like `range`. -/
theorem text_shape (ha : a.Readable) : ∃ c cs, a.text.toList = c :: cs ∧ c ≠ 'r' := by
  have hnumeric {s : String} (hne : s ≠ "") (hs : ∀ c ∈ s.toList, IsNumeric c) :
      ∃ c cs, s.toList = c :: cs ∧ c ≠ 'r' := by
    obtain ⟨c, cs, hlist⟩ := List.exists_cons_of_ne_nil (mt String.toList_eq_nil_iff.1 hne)
    have hc : IsNumeric c := hs c (hlist ▸ List.mem_cons_self)
    refine ⟨c, cs, hlist, ?_⟩
    rintro rfl
    exact absurd hc (by decide)
  cases a with
  | int n => exact hnumeric (toString_int_ne n) fun c hc => (mem_toString_int hc).imp_right .inl
  | double x =>
    obtain ⟨hall, hmark⟩ := Double.mem_text ha.1 ha.2
    refine hnumeric ?_ hall
    rintro (hempty : x.text = "")
    rw [hempty] at hmark
    exact absurd hmark (by decide)
  | string s => exact ⟨_, _, Text.toList_quoted s, by decide⟩
  | bool b => cases b <;> exact ⟨_, _, rfl, by decide⟩

theorem text_ne_empty (ha : a.Readable) : a.text ≠ "" := by
  obtain ⟨c, cs, hlist, -⟩ := text_shape ha
  intro hempty
  rw [hempty] at hlist
  cases hlist

/-- The text of a constant that is no string has neither a quote nor a comma, and is on one line. -/
private theorem mem_text (ha : a.Readable) (hty : a.ty ≠ .string) :
    ∀ c ∈ a.text.toList, c ≠ '"' ∧ c ≠ ',' ∧ c ≠ '\n' := by
  have hnumeric {c : Char} (hc : IsNumeric c) : c ≠ '"' ∧ c ≠ ',' ∧ c ≠ '\n' := by
    refine ⟨?_, ?_, ?_⟩ <;> rintro rfl <;> revert hc <;> decide
  cases a with
  | int n => exact fun c hc => hnumeric ((mem_toString_int hc).imp_right .inl)
  | double x => exact fun c hc => hnumeric ((Double.mem_text ha.1 ha.2).1 c hc)
  | string s => exact absurd rfl hty
  | bool b => cases b <;> exact forall_mem_of_all (by decide)

/-- The type of the constant that a text stands for. -/
def tyOf (cs : List Char) : Ty :=
  match cs.head? with
  | some '"' => .string
  | some 't' | some 'f' => .bool
  | _ => if '.' ∈ cs ∨ 'e' ∈ cs then .double else .int

private theorem tyOf_numeral {cs : List Char} (h : ∀ c ∈ cs, IsNumeric c) :
    tyOf cs = if '.' ∈ cs ∨ 'e' ∈ cs then .double else .int := by
  have hhead : ∀ c ∈ cs.head?, IsNumeric c := fun c hc => h c (List.mem_of_mem_head? hc)
  unfold tyOf
  split
  · next hc => exact absurd (hhead _ hc) (by decide)
  · next hc => exact absurd (hhead _ hc) (by decide)
  · next hc => exact absurd (hhead _ hc) (by decide)
  · rfl

private theorem tyOf_text (ha : a.Readable) : tyOf a.text.toList = a.ty := by
  cases a with
  | int n =>
    have hall : ∀ c ∈ (toString n).toList, c.isDigit = true ∨ c = '-' := fun c => mem_toString_int
    have hmark : ¬('.' ∈ (toString n).toList ∨ 'e' ∈ (toString n).toList) := by
      rintro (hpoint | hletter)
      · exact absurd (hall _ hpoint) (by decide)
      · exact absurd (hall _ hletter) (by decide)
    exact (tyOf_numeral fun c hc => (hall c hc).imp_right .inl).trans (if_neg hmark)
  | double x =>
    obtain ⟨hall, hmark⟩ := Double.mem_text ha.1 ha.2
    exact (tyOf_numeral hall).trans (if_pos hmark)
  | string s =>
    rw [text, Text.toList_quoted]
    rfl
  | bool b => cases b <;> rfl

/-- The text of a constant determines it. -/
theorem text_inj (ha : a.Readable) (hb : b.Readable) (h : a.text = b.text) : a = b := by
  have hty : a.ty = b.ty := by rw [← tyOf_text ha, h, tyOf_text hb]
  cases a with
  | string s =>
    cases b with
    | string t =>
      have hlists : (Text.quoted s).toList ++ [] = (Text.quoted t).toList ++ [] := by
        rw [List.append_nil, List.append_nil]
        exact congrArg String.toList h
      rw [(Text.quoted_append_inj hlists).1]
    | int | double | bool => cases hty
  | int | double | bool =>
    cases b with
    | string t => cases hty
    | int | double | bool =>
      rw [← ofAtom_atomText ha, hty, ← ofAtom_atomText hb]
      exact congrArg _ h

/-- The text of a constant fits on a line. -/
theorem newline_notMem_text (ha : a.Readable) : '\n' ∉ a.text.toList := by
  by_cases hty : a.ty = .string
  · cases a with
    | string s => exact Text.newline_notMem_quoted s
    | int | double | bool => cases hty
  · exact fun h => (mem_text ha hty _ h).2.2 rfl

/-- A text begins with a quote if it is that of a string. -/
private theorem head?_text (ha : a.Readable) (as : List Char) :
    (a.text.toList ++ as).head? = some '"' ↔ a.ty = .string := by
  constructor
  · intro hhead
    by_contra hty
    obtain ⟨c, cs, hlist, -⟩ := text_shape ha
    rw [hlist] at hhead
    exact (mem_text ha hty c (hlist ▸ List.mem_cons_self)).1 (Option.some.inj hhead)
  · intro hty
    cases a with
    | string s =>
      rw [text, Text.toList_quoted]
      rfl
    | int | double | bool => cases hty

/-- The text of a constant determines it, also where a comma and more comes after it. -/
theorem text_append_inj (ha : a.Readable) (hb : b.Readable) {as bs : List Char} (has : ∀ c ∈ as.head?, c = ',')
    (hbs : ∀ c ∈ bs.head?, c = ',') (h : a.text.toList ++ as = b.text.toList ++ bs) : a = b ∧ as = bs := by
  have hstring : a.ty = .string ↔ b.ty = .string := by rw [← head?_text ha as, h, head?_text hb bs]
  by_cases hty : a.ty = .string
  · cases a with
    | string s =>
      cases b with
      | string t =>
        obtain ⟨rfl, hrest⟩ := Text.quoted_append_inj h
        exact ⟨rfl, hrest⟩
      | int | double | bool => cases hstring.1 hty
    | int | double | bool => cases hty
  · have hcomma {l : Literal} (hl : l.Readable) (hty : l.ty ≠ .string) : ∀ c ∈ l.text.toList, ¬c = ',' :=
      fun c hc => (mem_text hl hty c hc).2.1
    obtain ⟨htext, hrest⟩ := append_inj_of_stop (hcomma ha hty) (hcomma hb (mt hstring.2 hty)) has hbs h
    exact ⟨text_inj ha hb (String.toList_inj.1 htext), hrest⟩

end Literal

/-! ### Lists with commas -/

section Joined

variable {α : Type} {p : α → Prop} {text : α → String} {xs ys : List α}

/-- The text of each of these things determines it, also where a comma and more comes after it. -/
def Separable (p : α → Prop) (text : α → String) : Prop :=
  ∀ ⦃x y : α⦄, p x → p y → ∀ ⦃as bs : List Char⦄, (∀ c ∈ as.head?, c = ',') → (∀ c ∈ bs.head?, c = ',') →
    (text x).toList ++ as = (text y).toList ++ bs → x = y ∧ as = bs

/-- The things after the first one, each with a comma and a space in front. -/
def afterFirst (text : α → String) (xs : List α) : List Char := xs.flatMap fun x => ',' :: ' ' :: (text x).toList

/-- A list of texts is its first text and, after a comma each, the others. -/
theorem toList_joined (x : α) (xs : List α) :
    (", ".intercalate ((x :: xs).map text)).toList = (text x).toList ++ afterFirst text xs := by
  induction xs generalizing x with
  | nil => simp [afterFirst]
  | cons y ys ih =>
    have hcomma : ", ".toList = [',', ' '] := rfl
    rw [List.map_cons, List.map_cons, String.intercalate_cons_cons, ← List.map_cons, String.toList_append,
      String.toList_append, ih, hcomma]
    simp [afterFirst]

private theorem head?_afterFirst (xs : List α) : ∀ c ∈ (afterFirst text xs).head?, c = ',' := by
  cases xs with
  | nil => simp [afterFirst]
  | cons x xs =>
    rintro c ⟨⟩
    rfl

private theorem afterFirst_inj (hp : Separable p text) (hxs : ∀ x ∈ xs, p x) (hys : ∀ y ∈ ys, p y)
    (h : afterFirst text xs = afterFirst text ys) : xs = ys := by
  induction xs generalizing ys with
  | nil =>
    cases ys with
    | nil => rfl
    | cons y ys => cases h
  | cons x xs ih =>
    cases ys with
    | nil => cases h
    | cons y ys =>
      rw [List.forall_mem_cons] at hxs hys
      have htexts : (text x).toList ++ afterFirst text xs = (text y).toList ++ afterFirst text ys :=
        List.tail_eq_of_cons_eq (List.tail_eq_of_cons_eq h)
      obtain ⟨rfl, hrest⟩ := hp hxs.1 hys.1 (head?_afterFirst xs) (head?_afterFirst ys) htexts
      rw [ih hxs.2 hys.2 hrest]

/-- A character between commas is one of a thing there. -/
theorem notMem_intercalate {c : Char} (hc : c ∉ ", ".toList) (h : ∀ x ∈ xs, c ∉ (text x).toList) :
    c ∉ (", ".intercalate (xs.map text)).toList := by
  cases xs with
  | nil => simp
  | cons x xs =>
    rw [List.forall_mem_cons] at h
    rw [toList_joined]
    intro hmem
    rcases List.mem_append.1 hmem with hfirst | hafter
    · exact h.1 hfirst
    · obtain ⟨y, hy, hmem⟩ := List.mem_flatMap.1 hafter
      rcases List.mem_append.1 (show c ∈ ", ".toList ++ (text y).toList from hmem) with hmark | htext
      · exact hc hmark
      · exact h.2 y hy htext

/-- Things whose texts are not empty can be told apart where commas stand between them. -/
theorem intercalate_inj (hp : Separable p text) (hne : ∀ x, p x → text x ≠ "") (hxs : ∀ x ∈ xs, p x)
    (hys : ∀ y ∈ ys, p y) (h : ", ".intercalate (xs.map text) = ", ".intercalate (ys.map text)) : xs = ys := by
  have hlists := congrArg String.toList h
  have hnot {z : α} {zs : List α} (hz : p z) : (", ".intercalate ((z :: zs).map text)).toList ≠ [] := by
    rw [toList_joined]
    exact List.append_ne_nil_of_left_ne_nil (mt String.toList_eq_nil_iff.1 (hne z hz)) _
  cases xs with
  | nil =>
    cases ys with
    | nil => rfl
    | cons y ys => exact absurd hlists.symm (hnot (hys y List.mem_cons_self))
  | cons x xs =>
    cases ys with
    | nil => exact absurd hlists (hnot (hxs x List.mem_cons_self))
    | cons y ys =>
      rw [List.forall_mem_cons] at hxs hys
      rw [toList_joined, toList_joined] at hlists
      obtain ⟨rfl, hrest⟩ := hp hxs.1 hys.1 (head?_afterFirst xs) (head?_afterFirst ys) hlists
      rw [afterFirst_inj hp hxs.2 hys.2 hrest]

end Joined

end Scriptlet
