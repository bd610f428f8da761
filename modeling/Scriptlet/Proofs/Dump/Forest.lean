import Scriptlet.Dump.Line

/-!
# Indented lines determine their trees

The lines of trees with labels, two spaces deeper for every level, from which the trees can be read back.

`render_inj`: the text of plain lines determines the lines, because it is cut where they end and every line begins with
its indentation.  `Forest.lines_inj`: the lines determine the trees, because what stands below a label ends at the first
line that is not deeper.
-/

namespace Scriptlet

/-! ### Where lists are cut -/

section Cuts

variable {α : Type} {p : α → Prop} {xs ys as bs : List α}

theorem head?_cons_eq {a : α} {as : List α} : ∀ x ∈ (a :: as).head?, x = a := by
  rintro x ⟨⟩
  rfl

/-- Two lists are cut alike where they both come to the first element that stops them, or to their end. -/
theorem append_inj_of_stop (hxs : ∀ x ∈ xs, ¬p x) (hys : ∀ y ∈ ys, ¬p y) (has : ∀ a ∈ as.head?, p a)
    (hbs : ∀ b ∈ bs.head?, p b) (h : xs ++ as = ys ++ bs) : xs = ys ∧ as = bs := by
  induction xs generalizing ys with
  | nil =>
    cases ys with
    | nil => exact ⟨rfl, h⟩
    | cons y ys =>
      have hstop : p y := has y (by rw [show as = _ from h]; rfl)
      exact absurd hstop (hys y List.mem_cons_self)
  | cons x xs ih =>
    cases ys with
    | nil =>
      have hstop : p x := hbs x (by rw [show bs = _ from h.symm]; rfl)
      exact absurd hstop (hxs x List.mem_cons_self)
    | cons y ys =>
      obtain ⟨rfl, htail⟩ := List.cons.inj h
      rw [List.forall_mem_cons] at hxs hys
      obtain ⟨rfl, hrest⟩ := ih hxs.2 hys.2 htail
      exact ⟨rfl, hrest⟩

/-- Two lists are cut alike at the last place where they have an element. -/
theorem append_inj_of_last {a : α} (hxs : a ∉ xs) (hys : a ∉ ys) (h : as ++ a :: xs = bs ++ a :: ys) :
    as = bs ∧ xs = ys := by
  have hreverse := congrArg List.reverse h
  simp only [List.reverse_append, List.reverse_cons, List.append_assoc, List.singleton_append] at hreverse
  have hnot {zs : List α} (hzs : a ∉ zs) : ∀ z ∈ zs.reverse, ¬z = a := by
    rintro z hz rfl
    exact hzs (List.mem_reverse.1 hz)
  obtain ⟨htails, hheads⟩ := append_inj_of_stop (hnot hxs) (hnot hys) head?_cons_eq head?_cons_eq hreverse
  exact ⟨List.reverse_inj.1 (List.tail_eq_of_cons_eq hheads), List.reverse_inj.1 htails⟩

end Cuts

namespace Dump

/-! ### Lines in a text -/

/-- The text of a line is on one line, and does not begin with a space. -/
def Line.Plain (l : Line) : Prop := '\n' ∉ l.text.toList ∧ l.text ≠ "" ∧ l.text.toList.head? ≠ some ' '

private theorem Line.toList_render (l : Line) :
    l.render.toList = List.replicate (2 * l.level) ' ' ++ l.text.toList ++ ['\n'] := by
  simp [Line.render]

/-- A plain line determines its level. -/
private theorem Line.eq_of_indented {l m : Line} (hl : l.Plain) (hm : m.Plain)
    (h : List.replicate (2 * l.level) ' ' ++ l.text.toList = List.replicate (2 * m.level) ' ' ++ m.text.toList) :
    l = m := by
  have hspaces (n : Nat) : ∀ c ∈ List.replicate n ' ', ¬c ≠ ' ' := fun c hc hne => hne (List.eq_of_mem_replicate hc)
  have hstop {l : Line} (hl : l.Plain) : ∀ c ∈ l.text.toList.head?, c ≠ ' ' := by
    rintro c hc rfl
    exact hl.2.2 hc
  obtain ⟨hlevel, htext⟩ := append_inj_of_stop (hspaces _) (hspaces _) (hstop hl) (hstop hm) h
  have hlevel : l.level = m.level := by
    have hlength := congrArg List.length hlevel
    rw [List.length_replicate, List.length_replicate] at hlength
    omega
  obtain ⟨level, text⟩ := l
  obtain rfl : level = m.level := hlevel
  obtain rfl : text = m.text := String.toList_inj.1 htext
  rfl

/-- A line ends at its first line feed. -/
private theorem Line.eq_of_render {l m : Line} (hl : l.Plain) (hm : m.Plain) {as bs : List Char}
    (h : l.render.toList ++ as = m.render.toList ++ bs) : l = m ∧ as = bs := by
  have hline {l : Line} (hl : l.Plain) : ∀ c ∈ List.replicate (2 * l.level) ' ' ++ l.text.toList, ¬c = '\n' := by
    rintro c hc rfl
    rcases List.mem_append.1 hc with hspace | htext
    · cases List.eq_of_mem_replicate hspace
    · exact hl.1 htext
  rw [toList_render, toList_render, List.append_assoc, List.append_assoc _ _ bs] at h
  obtain ⟨hfirst, hrest⟩ := append_inj_of_stop (hline hl) (hline hm) head?_cons_eq head?_cons_eq h
  exact ⟨eq_of_indented hl hm hfirst, List.tail_eq_of_cons_eq hrest⟩

private theorem render_cons (l : Line) (ls : List Line) :
    (render (l :: ls)).toList = l.render.toList ++ (render ls).toList := by
  simp [render]

private theorem render_cons_ne (l : Line) (ls : List Line) : render (l :: ls) ≠ render [] := by
  intro h
  have hlists := congrArg String.toList h
  rw [render_cons, Line.toList_render] at hlists
  simp [render] at hlists

/-- The text of plain lines determines them. -/
theorem render_inj {ls ms : List Line} (hls : ∀ l ∈ ls, l.Plain) (hms : ∀ m ∈ ms, m.Plain)
    (h : render ls = render ms) : ls = ms := by
  induction ls generalizing ms with
  | nil =>
    cases ms with
    | nil => rfl
    | cons m ms => exact absurd h.symm (render_cons_ne m ms)
  | cons l ls ih =>
    cases ms with
    | nil => exact absurd h (render_cons_ne l ls)
    | cons m ms =>
      rw [List.forall_mem_cons] at hls hms
      have hlists := congrArg String.toList h
      rw [render_cons, render_cons] at hlists
      obtain ⟨rfl, hrest⟩ := Line.eq_of_render hls.1 hms.1 hlists
      rw [ih hls.2 hms.2 (String.toList_inj.1 hrest)]

/-! ### Trees in lines -/

/-- Trees next to one another: a label, the trees below it, and the trees after it. -/
inductive Forest (α : Type) where
  | nil
  | tree (label : α) (below next : Forest α)

namespace Forest

variable {α β : Type}

/-- The lines of trees, the labels of the outermost ones at level `i`. -/
def lines (text : α → String) (i : Nat) : Forest α → List Line
  | nil => []
  | tree a below next => ⟨i, text a⟩ :: (below.lines text (i + 1) ++ next.lines text i)

/-- Every label is so. -/
def All (p : α → Prop) : Forest α → Prop
  | nil => True
  | tree a below next => p a ∧ below.All p ∧ next.All p

/-- The trees with other labels. -/
def map (f : α → β) : Forest α → Forest β
  | nil => nil
  | tree a below next => tree (f a) (below.map f) (next.map f)

theorem all_map {p : β → Prop} {f : α → β} {t : Forest α} : (t.map f).All p ↔ t.All fun a => p (f a) := by
  induction t with
  | nil => exact Iff.rfl
  | tree a below next hbelow hnext => rw [map, All, All, hbelow, hnext]

/-- What follows from a property of all labels holds of all of them. -/
theorem All.mono {p q : α → Prop} {t : Forest α} (h : t.All p) (hpq : ∀ a, p a → q a) : t.All q := by
  induction t with
  | nil => trivial
  | tree a below next hbelow hnext => exact ⟨hpq a h.1, hbelow h.2.1, hnext h.2.2⟩

variable {p : α → Prop} {text : α → String}

private theorem plain_of_mem_lines {t : Forest α} (h : t.All p) (hplain : ∀ i a, p a → (⟨i, text a⟩ : Line).Plain)
    (i : Nat) : ∀ l ∈ t.lines text i, l.Plain := by
  induction t generalizing i with
  | nil => simp [lines]
  | tree a below next hbelow hnext =>
    rw [lines, List.forall_mem_cons, List.forall_mem_append]
    exact ⟨hplain i a h.1, hbelow h.2.1 (i + 1), hnext h.2.2 i⟩

/-- After the lines below a label comes a line that is not as deep, if there is one. -/
private theorem level_le_of_mem_head? {t : Forest α} {i : Nat} {rest : List Line}
    (hrest : ∀ l ∈ rest.head?, l.level < i) : ∀ l ∈ (t.lines text i ++ rest).head?, l.level < i + 1 := by
  cases t with
  | nil => exact fun l hl => Nat.lt_succ_of_lt (hrest l hl)
  | tree a below next =>
    rintro l ⟨⟩
    exact Nat.lt_succ_self i

/-- The level of the first line shows whether there is a tree. -/
private theorem lines_tree_ne {a : α} {below next : Forest α} {i : Nat} {ls rest : List Line}
    (hrest : ∀ l ∈ rest.head?, l.level < i) : (tree a below next).lines text i ++ ls ≠ rest := by
  rintro rfl
  exact Nat.lt_irrefl i (hrest ⟨i, text a⟩ rfl)

/-- The lines of trees determine them, and so do these lines with others after them that are not as deep. -/
theorem lines_inj (htext : ∀ a b, p a → p b → text a = text b → a = b) {s t : Forest α} (hs : s.All p) (ht : t.All p)
    {i : Nat} {rest rest' : List Line} (hrest : ∀ l ∈ rest.head?, l.level < i)
    (hrest' : ∀ l ∈ rest'.head?, l.level < i) (h : s.lines text i ++ rest = t.lines text i ++ rest') :
    s = t ∧ rest = rest' := by
  induction s generalizing t i rest rest' with
  | nil =>
    cases t with
    | nil => exact ⟨rfl, h⟩
    | tree b below' next' => exact absurd h.symm (lines_tree_ne hrest)
  | tree a below next hbelow hnext =>
    cases t with
    | nil => exact absurd h (lines_tree_ne hrest')
    | tree b below' next' =>
      rw [lines, lines, List.cons_append, List.cons_append, List.append_assoc, List.append_assoc] at h
      obtain ⟨hlabel, htail⟩ := List.cons.inj h
      obtain rfl : a = b := htext a b hs.1 ht.1 (congrArg Line.text hlabel)
      obtain ⟨rfl, hafter⟩ :=
        hbelow hs.2.1 ht.2.1 (level_le_of_mem_head? hrest) (level_le_of_mem_head? hrest') htail
      obtain ⟨rfl, hends⟩ := hnext hs.2.2 ht.2.2 hrest hrest' hafter
      exact ⟨rfl, hends⟩

/-- The dump of trees whose labels have texts of their own determines them. -/
theorem render_lines_inj (hplain : ∀ i a, p a → (⟨i, text a⟩ : Line).Plain)
    (htext : ∀ a b, p a → p b → text a = text b → a = b) {s t : Forest α} (hs : s.All p) (ht : t.All p)
    (h : render (s.lines text 0) = render (t.lines text 0)) : s = t := by
  have hlines := render_inj (plain_of_mem_lines hs hplain 0) (plain_of_mem_lines ht hplain 0) h
  have hnone : ∀ l ∈ ([] : List Line).head?, l.level < 0 := by simp
  exact (lines_inj htext hs ht hnone hnone (by rw [hlines])).1

end Forest

end Dump

end Scriptlet
