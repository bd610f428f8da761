import Mathlib.Data.List.DropRight
import Scriptlet.Proofs.Lexical.Joined
import Scriptlet.Proofs.Text.Digits

/-!
# Lines and columns are counted, and lead back

`locate_counted`: the line of an offset is one more than the line feeds before it, and its column one more than the
characters since the last of them.  Of every index made by pushes it holds that the locations are in the order of the
offsets and that the start of the line and the column give the offset back, so that the text of a span with characters
stands for no other such span.

The starts of the lines up to an offset (`upTo`) are a prefix of all of them.  A greater offset has a longer prefix, or
the same and then a greater column; and the prefix for an index of a text consists of the starts in the characters
before the offset (`takeWhile_startsIn`).
-/

namespace Scriptlet

/-! ### Locations -/

/-- The first place comes before the second one, by line and then by column. -/
def Location.Before (p q : Location) : Prop := p.line < q.line ∨ p.line = q.line ∧ p.column < q.column

private theorem Location.Before.asymm {p q : Location} (h : p.Before q) : ¬q.Before p := by
  unfold Location.Before at *
  omega

private theorem Location.toList_text (p : Location) :
    p.text.toList = Nat.toDigits 10 p.line ++ ',' :: Nat.toDigits 10 p.column := by
  simp [Location.text, Nat.toList_repr]

/-- What stands before the first mark, and what comes after it. -/
private theorem append_mark_inj {mark : Char} {xs ys as bs : List Char} (hxs : mark ∉ xs) (hys : mark ∉ ys)
    (h : xs ++ mark :: as = ys ++ mark :: bs) : xs = ys ∧ as = bs := by
  induction xs generalizing ys with
  | nil =>
    cases ys with
    | nil => exact ⟨rfl, List.tail_eq_of_cons_eq h⟩
    | cons y ys =>
      have hmark : mark = y := List.head_eq_of_cons_eq h
      exact absurd List.mem_cons_self (hmark ▸ hys)
  | cons x xs ih =>
    cases ys with
    | nil =>
      have hmark : x = mark := List.head_eq_of_cons_eq h
      exact absurd List.mem_cons_self (hmark ▸ hxs)
    | cons y ys =>
      obtain ⟨hhead, htail⟩ := List.cons.inj h
      obtain ⟨hxs', has⟩ := ih (mt (List.mem_cons_of_mem x) hxs) (mt (List.mem_cons_of_mem y) hys) htail
      exact ⟨congrArg₂ List.cons hhead hxs', has⟩

private theorem Location.text_inj {p q : Location} (h : p.text = q.text) : p = q := by
  have hlists := congrArg String.toList h
  rw [p.toList_text, q.toList_text] at hlists
  have hcomma := Text.notMem_toDigits (c := ',') (by decide)
  obtain ⟨hline, hcolumn⟩ := append_mark_inj (hcomma _) (hcomma _) hlists
  obtain ⟨line, column⟩ := p
  obtain rfl : line = _ := Text.toDigits_inj hline
  obtain rfl : column = _ := Text.toDigits_inj hcolumn
  rfl

/-- The texts of two locations can be told apart where two dots stand between them. -/
private theorem Location.texts_inj {p q p' q' : Location}
    (h : p.text ++ ".." ++ q.text = p'.text ++ ".." ++ q'.text) : p = p' ∧ q = q' := by
  have hdot (p : Location) : '.' ∉ p.text.toList := by
    rw [p.toList_text]
    simp [Text.notMem_toDigits (c := '.') (by decide)]
  have hlists := congrArg String.toList h
  have hdots : "..".toList = ['.', '.'] := rfl
  simp only [String.toList_append, List.append_assoc, hdots, List.cons_append, List.nil_append] at hlists
  obtain ⟨hfirst, hlast⟩ := append_mark_inj (hdot p) (hdot p') hlists
  have hlast : q.text.toList = q'.text.toList := List.tail_eq_of_cons_eq hlast
  exact ⟨text_inj (String.toList_inj.1 hfirst), text_inj (String.toList_inj.1 hlast)⟩

namespace LineIndex

variable {l : LineIndex} {a b offset : Nat}

/-! ### Pushes -/

private theorem push_of_lt (h : l.lastStart < offset) : l.push offset = ⟨l.later.push offset⟩ := if_pos h

theorem starts_push (h : l.lastStart < offset) : (l.push offset).starts = l.starts ++ [offset] := by
  simp [push_of_lt h, starts]

private theorem lastStart_push (h : l.lastStart < offset) : (l.push offset).lastStart = offset := by
  simp [push_of_lt h, lastStart]

/-- Ascending pushes are all recorded, in their order. -/
private theorem starts_foldl_push {offsets : List Nat} (h : (l.lastStart :: offsets).Pairwise (· < ·)) :
    (offsets.foldl push l).starts = l.starts ++ offsets := by
  induction offsets generalizing l with
  | nil => simp
  | cons offset offsets ih =>
    obtain ⟨hfirst, hrest⟩ := List.pairwise_cons.1 h
    have hlast : l.lastStart < offset := hfirst offset List.mem_cons_self
    rw [List.foldl_cons, ih (by rwa [lastStart_push hlast]), starts_push hlast, List.append_assoc]
    rfl

/-! ### The line of an offset -/

/-- The starts of the lines up to the one of the offset. -/
def upTo (l : LineIndex) (offset : Nat) : List Nat := l.starts.takeWhile (· ≤ offset)

/-- The start of the line of the offset. -/
def startOf (l : LineIndex) (offset : Nat) : Nat := (l.upTo offset).getLastD 0

private theorem upTo_eq (l : LineIndex) (offset : Nat) :
    l.upTo offset = 0 :: l.later.toList.takeWhile (· ≤ offset) := by
  simp [upTo, starts]

private theorem getLast?_upTo (l : LineIndex) (offset : Nat) : (l.upTo offset).getLast? = some (l.startOf offset) := by
  rw [startOf, upTo_eq, List.getLastD_eq_getLast?, List.getLast?_cons]
  rfl

private theorem locate_eq (l : LineIndex) (offset : Nat) :
    l.locate offset = ⟨(l.upTo offset).length, offset - l.startOf offset + 1⟩ := by
  have hstart := l.getLast?_upTo offset
  rw [upTo_eq, List.getLast?_cons] at hstart
  rw [← Option.some.inj hstart, upTo_eq]
  rfl

/-- Wherever the starts are divided into those up to an offset and those after it, there is the line of the offset. -/
private theorem line_eq_of_divides {n : Nat} (hn : n ≤ l.starts.length)
    (hbefore : ∀ start ∈ l.starts.take n, start ≤ offset) (hafter : ∀ start ∈ l.starts.drop n, offset < start) :
    (l.locate offset).line = n := by
  have hnone : (l.starts.drop n).takeWhile (· ≤ offset) = [] := by
    refine List.takeWhile_eq_nil_iff.2 fun hpos => ?_
    simpa using hafter _ (List.getElem_mem hpos)
  have hupTo : l.upTo offset = l.starts.take n := by
    rw [upTo, ← List.take_append_drop n l.starts, List.takeWhile_append_of_pos (by simpa using hbefore), hnone,
      List.append_nil, List.take_append_drop]
  rw [locate_eq, hupTo]
  exact List.length_take_of_le hn

private theorem startOf_le (l : LineIndex) (offset : Nat) : l.startOf offset ≤ offset := by
  have hmem := List.mem_of_getLast? (l.getLast?_upTo offset)
  simpa using List.mem_takeWhile_imp hmem

/-- The line of an offset leads to its start. -/
private theorem getElem?_starts (l : LineIndex) (offset : Nat) :
    l.starts[(l.locate offset).line - 1]? = some (l.startOf offset) := by
  have hprefix : l.upTo offset <+: l.starts := List.takeWhile_prefix _
  have hlast := l.getLast?_upTo offset
  rw [List.getLast?_eq_getElem?] at hlast
  obtain ⟨hlt, hstart⟩ := List.getElem?_eq_some_iff.1 hlast
  rw [locate_eq, ← hstart]
  exact List.prefix_iff_getElem?.1 hprefix _ hlt

/-- The offset that a location stands for. -/
def offsetAt (l : LineIndex) (p : Location) : Nat := l.starts[p.line - 1]?.getD 0 + p.column - 1

private theorem offsetAt_locate (l : LineIndex) (offset : Nat) : l.offsetAt (l.locate offset) = offset := by
  have hle := l.startOf_le offset
  rw [offsetAt, getElem?_starts, Option.getD_some, locate_eq]
  simp only
  omega

private theorem upTo_of_le (h : a ≤ b) : l.upTo a = (l.upTo b).takeWhile (· ≤ a) := by
  rw [upTo, upTo, List.takeWhile_takeWhile]
  congr 1
  funext start
  simp only [decide_eq_true_eq, decide_eq_decide]
  omega

/-- A greater offset lies on a later line, or on the same one further to the right. -/
private theorem before_locate (h : a < b) : (l.locate a).Before (l.locate b) := by
  have hprefix : l.upTo a <+: l.upTo b := upTo_of_le (l := l) (Nat.le_of_lt h) ▸ List.takeWhile_prefix _
  rw [locate_eq, locate_eq]
  by_cases hlength : (l.upTo a).length = (l.upTo b).length
  · have hstart : l.startOf a = l.startOf b := by rw [startOf, hprefix.eq_of_length hlength, startOf]
    have hle := l.startOf_le a
    refine .inr ⟨hlength, ?_⟩
    simp only
    omega
  · exact .inl (Nat.lt_of_le_of_ne hprefix.length_le hlength)

private theorem before_locate_iff : (l.locate a).Before (l.locate b) ↔ a < b := by
  refine ⟨fun h => ?_, before_locate⟩
  rcases Nat.lt_trichotomy a b with hlt | rfl | hgt
  · exact hlt
  · exact absurd h h.asymm
  · exact absurd h (before_locate hgt).asymm

/-! ### Spans -/

private theorem spanText_of_ne {s : Span} (h : s.len ≠ 0) :
    l.spanText s = (l.locate s.lo).text ++ ".." ++ (l.locate (s.hi - 1)).text := by
  simp only [spanText, if_neg h]

/-- The span from the character at one location up to the one at another, both included. -/
def spanOf (l : LineIndex) (first last : Location) : Span :=
  ⟨l.offsetAt first, l.offsetAt last + 1 - l.offsetAt first⟩

private theorem spanOf_locate {s : Span} (h : s.len ≠ 0) : l.spanOf (l.locate s.lo) (l.locate (s.hi - 1)) = s := by
  obtain ⟨lo, len⟩ := s
  have hlen : lo + len - 1 + 1 - lo = len := by
    simp only at h
    omega
  simp only [spanOf, offsetAt_locate, Span.hi, hlen]

/-! ### Indices of texts -/

private theorem length_startsIn (offset : Nat) (text : List Char) :
    (startsIn offset text).length = text.count '\n' := by
  induction text generalizing offset with
  | nil => rfl
  | cons c text ih =>
    rw [startsIn, List.count_cons]
    by_cases hc : c = '\n' <;> simp [hc, ih]

/-- A line starts after each line feed. -/
theorem mem_startsIn {start offset : Nat} {text : List Char} :
    start ∈ startsIn offset text ↔ ∃ i, text[i]? = some '\n' ∧ start = offset + i + 1 := by
  induction text generalizing offset with
  | nil => simp [startsIn]
  | cons c text ih =>
    have hshift : (∃ i, (c :: text)[i]? = some '\n' ∧ start = offset + i + 1) ↔
        (c = '\n' ∧ start = offset + 1) ∨ ∃ i, text[i]? = some '\n' ∧ start = offset + 1 + i + 1 := by
      constructor
      · rintro ⟨i, hi, rfl⟩
        cases i with
        | zero => exact .inl ⟨by simpa using hi, rfl⟩
        | succ i => exact .inr ⟨i, by simpa using hi, by omega⟩
      · rintro (⟨rfl, rfl⟩ | ⟨i, hi, rfl⟩)
        · exact ⟨0, rfl, rfl⟩
        · exact ⟨i + 1, by simpa using hi, by omega⟩
    rw [hshift, startsIn, ← ih]
    split
    · next hc => simp [hc]
    · next hc => simp [hc]

/-- Lines begin one after the other. -/
theorem pairwise_startsIn (offset : Nat) (text : List Char) : (offset :: startsIn offset text).Pairwise (· < ·) := by
  induction text generalizing offset with
  | nil => simp [startsIn]
  | cons c text ih =>
    obtain ⟨hfirst, hrest⟩ := List.pairwise_cons.1 (ih (offset + 1))
    have hlater : ∀ start ∈ startsIn offset (c :: text), offset < start := by
      intro start hstart
      obtain ⟨i, -, rfl⟩ := mem_startsIn.1 hstart
      omega
    refine List.pairwise_cons.2 ⟨hlater, ?_⟩
    rw [startsIn]
    split
    · exact ih (offset + 1)
    · exact hrest

/-- The starts up to an offset are those in the characters before it. -/
theorem takeWhile_startsIn (offset n : Nat) (text : List Char) :
    (startsIn offset text).takeWhile (· ≤ offset + n) = startsIn offset (text.take n) := by
  induction text generalizing offset n with
  | nil => simp [startsIn]
  | cons c text ih =>
    cases n with
    | zero =>
      have hlater := (List.pairwise_cons.1 (pairwise_startsIn offset (c :: text))).1
      have hnone : ∀ start ∈ startsIn offset (c :: text), ¬start ≤ offset + 0 := fun start hstart =>
        Nat.not_le.2 (hlater start hstart)
      rw [List.take_zero, startsIn]
      exact List.takeWhile_eq_nil_iff.2 fun hpos => by simpa using hnone _ (List.getElem_mem hpos)
    | succ n =>
      rw [startsIn, List.take_succ_cons, startsIn, Nat.add_comm n 1, ← Nat.add_assoc]
      split
      · rw [List.takeWhile_cons_of_pos (by simp), ih]
      · exact ih (offset + 1) n

/-- The characters since the last start are those since the last line feed. -/
private theorem getLastD_startsIn (text : List Char) :
    (0 :: startsIn 0 text).getLastD 0 + (text.rtakeWhile (· ≠ '\n')).length = text.length := by
  induction text using List.reverseRecOn with
  | nil => rfl
  | append_singleton text c ih =>
    rw [startsIn_append, List.rtakeWhile_concat]
    by_cases hc : c = '\n'
    · have hbreak : startsIn (0 + text.length) [c] = [text.length + 1] := by simp [startsIn, hc]
      rw [hbreak, ← List.cons_append, List.getLastD_concat]
      simp [hc]
    · simpa [hc, startsIn, List.getLastD_eq_getLast?, ← Nat.add_assoc] using ih

private theorem upTo_of (src : String) (offset : Nat) :
    (LineIndex.of src).upTo offset = 0 :: startsIn 0 (src.toList.take offset) := by
  have htake := takeWhile_startsIn 0 offset src.toList
  rw [Nat.zero_add] at htake
  rw [upTo_eq, toList_of, htake]

/-- The line feeds before an offset count its line, and the characters since the last of them its column.  Beyond the
end of the text the column goes on. -/
private theorem locate_of (src : String) (offset : Nat) : (LineIndex.of src).locate offset =
    ⟨1 + (src.toList.take offset).count '\n',
      1 + ((src.toList.take offset).rtakeWhile (· ≠ '\n')).length + (offset - src.length)⟩ := by
  have hcolumn := getLastD_startsIn (src.toList.take offset)
  have hline := length_startsIn 0 (src.toList.take offset)
  rw [List.length_take, String.length_toList] at hcolumn
  rw [locate_eq, startOf, upTo_of, List.length_cons, hline, Nat.add_comm 1]
  congr 1
  omega

end LineIndex

/-! ### All texts and all pushes -/

/-- Lines and columns count the line feeds before an offset and the characters since the last of them.  Of an index made
by pushes, all of which it holds if they ascend, the locations are ordered as the offsets are and lead back to them, and
the line of an offset is where the starts are divided into those up to it and those after it.  The text of a span with
characters consists of the locations of its first and last one, and is that of no other. -/
theorem locate_counted :
    (∀ (src : String) (offset : Nat), (LineIndex.of src).locate offset =
      ⟨1 + (src.toList.take offset).count '\n',
        1 + ((src.toList.take offset).rtakeWhile (· ≠ '\n')).length + (offset - src.length)⟩) ∧
    ∀ (offsets : List Nat) (l : LineIndex), l = offsets.foldl LineIndex.push .empty →
      ((0 :: offsets).Pairwise (· < ·) → l.starts = 0 :: offsets) ∧
      (∀ offset n, n ≤ l.starts.length → (∀ start ∈ l.starts.take n, start ≤ offset) →
        (∀ start ∈ l.starts.drop n, offset < start) → (l.locate offset).line = n) ∧
      (∀ a b, (l.locate a).Before (l.locate b) ↔ a < b) ∧
      (∀ offset, ∃ start, l.starts[(l.locate offset).line - 1]? = some start ∧
        start + (l.locate offset).column - 1 = offset) ∧
      ∀ s : Span, s.len ≠ 0 →
        l.spanText s = (l.locate s.lo).text ++ ".." ++ (l.locate (s.hi - 1)).text ∧
        l.spanOf (l.locate s.lo) (l.locate (s.hi - 1)) = s ∧
        ∀ s' : Span, s'.len ≠ 0 → l.spanText s' = l.spanText s → s' = s := by
  refine ⟨LineIndex.locate_of, fun offsets l hl => ⟨fun hascend => ?_,
    fun offset n => LineIndex.line_eq_of_divides, fun a b => LineIndex.before_locate_iff, fun offset => ?_,
    fun s hs => ⟨LineIndex.spanText_of_ne hs, LineIndex.spanOf_locate hs, fun s' hs' htext => ?_⟩⟩⟩
  · rw [hl]
    exact LineIndex.starts_foldl_push hascend
  · have hback := l.offsetAt_locate offset
    rw [LineIndex.offsetAt, LineIndex.getElem?_starts, Option.getD_some] at hback
    exact ⟨l.startOf offset, l.getElem?_starts offset, hback⟩
  · rw [LineIndex.spanText_of_ne hs', LineIndex.spanText_of_ne hs] at htext
    obtain ⟨hfirst, hlast⟩ := Location.texts_inj htext
    rw [← LineIndex.spanOf_locate hs', hfirst, hlast, LineIndex.spanOf_locate hs]

/-- A span over the end of a line, which is at the offset 1 in the text and in the index. -/
theorem locate_second_line : (LineIndex.of "a\nbc").locate 3 = ⟨2, 2⟩ ∧ ∃ l : LineIndex,
    l = [2, 5].foldl LineIndex.push .empty ∧ [0, 2, 5].Pairwise (· < ·) ∧ l.starts = [0, 2, 5] ∧
      (l.locate 4).line = 2 ∧ (l.locate 1).Before (l.locate 4) ∧
        (∃ start, l.starts[(l.locate 4).line - 1]? = some start ∧ start + (l.locate 4).column - 1 = 4) ∧
          (⟨1, 4⟩ : Span).len ≠ 0 ∧ l.spanText ⟨1, 4⟩ = "1,2..2,3" ∧
            l.spanOf (l.locate 1) (l.locate 4) = ⟨1, 4⟩ := by
  obtain ⟨hcounted, hpushed⟩ := locate_counted
  obtain ⟨hstarts, hline, hbefore, hback, hspan⟩ := hpushed [2, 5] _ rfl
  have hascend : [0, 2, 5].Pairwise (· < ·) := by decide
  have hlen : (⟨1, 4⟩ : Span).len ≠ 0 := by decide
  obtain ⟨htext, hspanOf, -⟩ := hspan ⟨1, 4⟩ hlen
  refine ⟨?_, _, rfl, hascend, hstarts hascend, hline 4 2 (by decide) (by decide) (by decide),
    (hbefore 1 4).2 (by decide), hback 4, hlen, htext.trans (by decide +kernel), hspanOf⟩
  rw [hcounted "a\nbc" 3]
  decide

end Scriptlet
