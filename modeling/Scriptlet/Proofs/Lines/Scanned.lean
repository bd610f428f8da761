import Scriptlet.Proofs.Lexical.Malformed
import Scriptlet.Proofs.Lines.Located

/-!
# The lexer records each line once

`tokenize_records_lines`: the lines that come with the tokens of a text are those of the text, whose starts are its
beginning and the offsets after its line feeds, in ascending order and each of them once.

A step records a line if it takes up a line feed of the text (`Records`), and then the start is greater than all before
it: no push of the lexer is one that the index leaves out (`Tracks.starts_step`).  A line feed that is given back is
recorded when it is taken up again, and the line break that closes the text never.
-/

namespace Scriptlet

namespace LineIndex

/-- The starts in a text are ascending, and so none is there twice; they are its beginning and the offsets after its
line feeds. -/
private theorem starts_of (src : String) : (LineIndex.of src).starts.Pairwise (· < ·) ∧
    ∀ start, start ∈ (LineIndex.of src).starts ↔ start = 0 ∨ ∃ i, src.toList[i]? = some '\n' ∧ start = i + 1 := by
  rw [starts, toList_of]
  refine ⟨pairwise_startsIn 0 src.toList, fun start => ?_⟩
  rw [List.mem_cons, mem_startsIn]
  simp only [Nat.zero_add]

end LineIndex

namespace Scan

variable {src : String} {before ahead : List Char} {s t u : Scan} {g : Glyph}

/-- The step that ends in `u` takes up the character, which is a line feed of the text. -/
structure Records (g : Glyph) (u : Scan) : Prop where
  char_eq : g.char = '\n'
  real : g.isSynthetic = false
  kept : u.pushedBack = none

private theorem lines_trackLine (s : Scan) (g : Glyph) : (s.trackLine g).lines =
    if g.char = '\n' ∧ g.isSynthetic = false then s.lines.push (g.start.char + 1) else s.lines := by
  unfold trackLine
  simp only [Bool.not_eq_true']
  split
  · rfl
  · rfl

/-- When a character has been taken none is given back. -/
theorem pushedBack_of_next? (h : s.next? = some (g, t)) : t.pushedBack = none := by
  unfold next? at h
  split at h
  · cases h
    rfl
  · next hback _ =>
    cases h
    exact hback
  · next hback _ =>
    split at h
    · cases h
    · cases h
      exact hback

/-- The end of a lexeme leaves lines and places alone. -/
private theorem finish_keeps {stop : Place} (h : s.finish src stop = .ok u) :
    u.lines = s.lines ∧ u.pushedBack = s.pushedBack := by
  rcases finish_eq_ok h with rfl | ⟨_, _, rfl⟩
  · exact ⟨rfl, rfl⟩
  · exact ⟨rfl, rfl⟩

/-- A step takes its character up, and records the line if a line begins after it, or gives it back. -/
private theorem step_takes_or_gives (hstep : t.step src g = .ok u) :
    (u.lines = (t.trackLine g).lines ∧ u.pushedBack = t.pushedBack) ∨
      (u.lines = t.lines ∧ u.pushedBack = some g) := by
  have hmoved : ((t.moved g).trackLine g).lines = (t.trackLine g).lines := by
    rw [lines_trackLine, lines_trackLine]
    rfl
  have hback : ((t.moved g).trackLine g).pushedBack = t.pushedBack := pushedBack_trackLine
  rcases step_cases hstep with ⟨-, rfl⟩ | ⟨-, h⟩ | ⟨-, h⟩
  · exact .inl ⟨hmoved, hback⟩
  · obtain ⟨hlines, hback'⟩ := finish_keeps h
    exact .inl ⟨hlines.trans hmoved, hback'.trans hback⟩
  · exact .inr (finish_keeps h)

/-- The last start so far is one of the characters that have been scanned. -/
private theorem Tracks.lastStart_le (hs : Tracks src before ahead s) : s.lines.lastStart ≤ before.length := by
  have hlater : s.lines.later.toList = LineIndex.startsIn 0 before := by
    rw [hs.lines_eq, LineIndex.later_pushLines (Nat.le_refl 0)]
    rfl
  rw [LineIndex.lastStart, ← Array.getLast?_toList, hlater]
  cases hlast : (LineIndex.startsIn 0 before).getLast? with
  | none => exact Nat.zero_le _
  | some start =>
    obtain ⟨i, hi, rfl⟩ := LineIndex.mem_startsIn.1 (List.mem_of_getLast? hlast)
    obtain ⟨hlt, -⟩ := List.getElem?_eq_some_iff.1 hi
    simp only [Option.getD_some]
    omega

/-- What a step records comes after all that has been recorded. -/
theorem Tracks.starts_step (hs : Tracks src before ahead s) (hnext : s.next? = some (g, t))
    (hstep : t.step src g = .ok u) :
    (Records g u → s.lines.lastStart < g.start.char + 1 ∧ u.lines.starts = s.lines.starts ++ [g.start.char + 1]) ∧
      (¬Records g u → u.lines = s.lines) := by
  obtain ⟨before', ahead', htakes⟩ := hs.takes hnext
  have hlines : t.lines = s.lines := htakes.same.2.2
  have hplace : g.start.char = before.length := congrArg Place.char htakes.start_eq
  have hlast : s.lines.lastStart < g.start.char + 1 := by
    have hle := hs.lastStart_le
    omega
  rcases step_takes_or_gives hstep with ⟨htaken, hback⟩ | ⟨hgiven, hback⟩
  · rw [pushedBack_of_next? hnext] at hback
    rw [lines_trackLine, hlines] at htaken
    constructor
    · intro hrecords
      rw [if_pos ⟨hrecords.char_eq, hrecords.real⟩] at htaken
      exact ⟨hlast, htaken ▸ LineIndex.starts_push hlast⟩
    · intro hrecords
      rwa [if_neg fun h => hrecords ⟨h.1, h.2, hback⟩] at htaken
  · constructor
    · intro hrecords
      have hkept := hrecords.kept
      rw [hback] at hkept
      cases hkept
    · exact fun _ => hgiven.trans hlines

/-- A scan of a text has recorded the lines of the characters before its place. -/
theorem Reached.tracks (h : Reached src s) : ∃ before ahead, Tracks src before ahead s := by
  induction h with
  | start => exact ⟨[], src.toList, tracks_start src⟩
  | step _ hnext hstep ih =>
    obtain ⟨before, ahead, hs⟩ := ih
    have hkeeps := hs.step hnext
    rw [hstep] at hkeeps
    exact hkeeps

end Scan

/-- The lines that come with the tokens are those of the text: ascending, from its beginning and after each of its line
feeds, so that every offset and every span is located by them as in the text.  No step of the scan records a line twice,
one at a line feed that it gives back, or one for the line break that closes the text. -/
theorem tokenize_records_lines (src : String) :
    (∀ t, tokenize src = .ok t → t.lines = .of src ∧ t.lines.starts.Pairwise (· < ·) ∧
      (∀ start, start ∈ t.lines.starts ↔ start = 0 ∨ ∃ i, src.toList[i]? = some '\n' ∧ start = i + 1) ∧
      (∀ offset, t.lines.locate offset = (LineIndex.of src).locate offset) ∧
      ∀ s : Span, t.lines.spanText s = (LineIndex.of src).spanText s) ∧
    ∀ s, Scan.Reached src s →
      (∃ before ahead, src.toList = before ++ ahead ∧ s.Faces before ahead ∧
        s.lines = .of (String.ofList before)) ∧
      ∀ g t u, s.next? = some (g, t) → t.step src g = .ok u →
        (Scan.Records g u →
          s.lines.lastStart < g.start.char + 1 ∧ u.lines.starts = s.lines.starts ++ [g.start.char + 1]) ∧
        (¬Scan.Records g u → u.lines = s.lines) := by
  refine ⟨fun t ht => ?_, fun s hs => ?_⟩
  · have hlines := lines_of_tokenize ht
    obtain ⟨hascend, hmem⟩ := LineIndex.starts_of src
    rw [hlines]
    exact ⟨rfl, hascend, hmem, fun _ => rfl, fun _ => rfl⟩
  · obtain ⟨before, ahead, htracks⟩ := hs.tracks
    refine ⟨⟨before, ahead, htracks.source, htracks.faces, ?_⟩, fun g t u hnext hstep =>
      htracks.starts_step hnext hstep⟩
    rw [htracks.lines_eq, LineIndex.of, String.toList_ofList]

/-- A line feed that ends a name is given back and then recorded, once. -/
theorem given_back_recorded : (∃ t, tokenize "a\n" = .ok t ∧ t.lines = .of "a\n") ∧
    ∃ s t g u t' v, Scan.Reached "a\n" s ∧ s.next? = some (g, t) ∧ t.step "a\n" g = .ok u ∧ ¬Scan.Records g u ∧
      u.lines = s.lines ∧ Scan.Reached "a\n" u ∧ u.next? = some (g, t') ∧ t'.step "a\n" g = .ok v ∧
        Scan.Records g v ∧ v.lines.starts = u.lines.starts ++ [2] := by
  obtain ⟨htext, hscan⟩ := tokenize_records_lines "a\n"
  have hword : Lexical.IsSegment (.lexeme (.identifier "a") ['a']) ['\n'] := by
    refine .lexeme (.identifier ⟨'a', [], rfl, by decide, by simp⟩ ?_) ?_
    · rintro ⟨⟩ <;> decide
    · simp only [List.head?_cons, Option.mem_some_iff, forall_eq']
      exact (by decide : ¬ (Lexical.IsLetter '\n' ∨ Lexical.IsDigit '\n'))
  have hcut : Lexical.IsCut "a\n".toList [.lexeme (.identifier "a") ['a'], .lineBreak '\n'] :=
    .cons hword (.cons (.lineBreak (.inl rfl)) .nil)
  obtain ⟨_, htokenize⟩ := tokenize_of_isCut hcut
  -- the scan after the name, after the line feed is given back, and after it is taken up
  let s : Scan := ⟨['\n'], ⟨1, 1⟩, none, .ident, ⟨0, 0⟩, #[], .empty⟩
  let g : Glyph := ⟨'\n', ⟨1, 1⟩, ⟨2, 2⟩⟩
  let u : Scan := ⟨[], ⟨2, 2⟩, some g, .initial, ⟨0, 0⟩, #[⟨.identifier "a", ⟨0, 1⟩⟩], .empty⟩
  let v : Scan := ⟨[], ⟨2, 2⟩, none, .initial, ⟨1, 1⟩, #[⟨.identifier "a", ⟨0, 1⟩⟩], ⟨#[2]⟩⟩
  have hname : Scan.step "a\n" ⟨['\n'], ⟨1, 1⟩, none, .initial, ⟨0, 0⟩, #[], .empty⟩ ⟨'a', ⟨0, 0⟩, ⟨1, 1⟩⟩ = .ok s :=
    rfl
  have hgives : Scan.step "a\n" { s with rest := [], here := ⟨2, 2⟩ } g = .ok u := by decide +kernel
  have htakes : Scan.step "a\n" { u with pushedBack := none } g = .ok v := rfl
  have hs : Scan.Reached "a\n" s := .step .start rfl hname
  have hu : Scan.Reached "a\n" u := .step hs rfl hgives
  have hnot : ¬Scan.Records g u := fun h => by cases h.kept
  have hrecords : Scan.Records g v := ⟨rfl, by decide, rfl⟩
  obtain ⟨-, hstep⟩ := hscan s hs
  obtain ⟨-, hstep'⟩ := hscan u hu
  exact ⟨⟨_, htokenize, (htext _ htokenize).1⟩, s, _, g, u, _, v, hs, rfl, hgives, hnot,
    (hstep g _ u rfl hgives).2 hnot, hu, rfl, htakes, hrecords, ((hstep' g _ v rfl htakes).1 hrecords).2⟩

end Scriptlet
