import Scriptlet.Proofs.Lexical.Equivalence

/-!
# Lines and places that the lexer finds

`lines_of_tokenize`: the lines that come with the tokens are those of the text.  `hi_of_tokenize_error`: what the lexer
cannot read lies in the text.  Both follow from what every step keeps (`Scan.Tracks`): the lines so far are those of the
characters before the present place, and the present lexeme starts at one of them.  A character that is given back
belongs to those ahead, and its line is counted when it is scanned again.
-/

namespace Scriptlet

open Lexical

private theorem LineIndex.pushLines_append (l : LineIndex) (offset : Nat) (text more : List Char) :
    l.pushLines offset (text ++ more) = (l.pushLines offset text).pushLines (offset + text.length) more := by
  induction text generalizing l offset with
  | nil => rfl
  | cons c text ih =>
    rw [List.cons_append, pushLines, pushLines, ih, List.length_cons, Nat.add_assoc, Nat.add_comm 1]

namespace Scan

variable {src : String} {before ahead : List Char} {s t : Scan} {g : Glyph}

/-- The characters `before` have been scanned and the lines are those of them; a lexeme that has been begun starts
among them. -/
structure Tracks (src : String) (before ahead : List Char) (s : Scan) : Prop where
  source : src.toList = before ++ ahead
  faces : s.Faces before ahead
  lines_eq : s.lines = LineIndex.empty.pushLines 0 before
  started : s.state ≠ .initial → s.lexemeStart.char ≤ before.length

/-- The scan has come to a place of the text, or to an error that ends in the text. -/
def Keeps (src : String) : Except (Located LexError) Scan → Prop
  | .ok s => ∃ before ahead, Tracks src before ahead s
  | .error e => e.span.hi ≤ src.length

theorem tracks_start (src : String) : Tracks src [] src.toList (start src) :=
  ⟨rfl, .fresh rfl rfl rfl, rfl, fun h => absurd rfl h⟩

private theorem hi_lexemeSpan_le {stop : Place} (h : s.lexemeStart.char ≤ stop.char) :
    (s.lexemeSpan stop).hi ≤ stop.char := by
  simp only [lexemeSpan, Span.hi, Span.ofBounds]
  omega

private theorem Tracks.length_le (hs : Tracks src before ahead s) : before.length ≤ src.length := by
  rw [← String.length_toList, hs.source, List.length_append]
  exact Nat.le_add_right _ _

/-! ### Steps -/

/-- The next character has been taken up: the text is now cut after it, unless it is the line break that closes the
text. -/
structure Takes (src : String) (before ahead : List Char) (s : Scan) (g : Glyph) (t : Scan)
    (before' ahead' : List Char) : Prop where
  start_eq : g.start = Place.of before
  stop_eq : g.stop = Place.of before'
  length_le : before.length ≤ before'.length
  source : src.toList = before' ++ ahead'
  faces : t.Faces before' ahead'
  given : { t with pushedBack := some g }.Faces before ahead
  lines_eq : (t.trackLine g).lines = LineIndex.empty.pushLines 0 before'
  same : t.state = s.state ∧ t.lexemeStart = s.lexemeStart ∧ t.lines = s.lines

/-- A turn takes up the next character. -/
theorem Tracks.takes (hs : Tracks src before ahead s) (hnext : s.next? = some (g, t)) :
    ∃ before' ahead', Takes src before ahead s g t before' ahead' := by
  cases ahead with
  | cons c rest =>
    rw [hs.faces.next?] at hnext
    cases hnext
    have hnot : (Glyph.mk c (Place.of before) (Place.of (before ++ [c]))).isSynthetic = false := by
      simp [Glyph.isSynthetic, Place.of_inj_append]
    refine ⟨before ++ [c], rest, rfl, rfl, ?_, ?_, .fresh rfl rfl rfl, .again rfl rfl rfl, ?_, rfl, rfl, rfl⟩
    · rw [List.length_append]
      exact Nat.le_add_right _ _
    · rw [hs.source, List.append_assoc]
      rfl
    · rw [LineIndex.pushLines_append, ← hs.lines_eq, Nat.zero_add, trackLine]
      by_cases hc : c = '\n'
      · rw [if_pos ⟨hc, by rw [hnot]; rfl⟩]
        simp [LineIndex.pushLines, hc, Place.of]
      · rw [if_neg fun h => hc h.1]
        simp [LineIndex.pushLines, hc]
  | nil =>
    have hclosing {t : Scan} (hrest : t.rest = []) (hhere : t.here = Place.of before) (hback : t.pushedBack = none)
        (hsame : t.state = s.state ∧ t.lexemeStart = s.lexemeStart ∧ t.lines = s.lines) :
        Takes src before [] s ⟨'\n', Place.of before, Place.of before⟩ t before [] := by
      refine ⟨rfl, rfl, Nat.le_refl _, hs.source, .fresh hback hrest hhere, .closed rfl hrest hhere, ?_, hsame⟩
      simp [trackLine, Glyph.isSynthetic, hsame.2.2, hs.lines_eq]
    cases hs.faces with
    | fresh hback hrest hhere =>
      simp only [Scan.next?, hback, hrest, hhere] at hnext
      split at hnext <;> cases hnext
      exact ⟨before, [], hclosing hrest hhere hback ⟨rfl, rfl, rfl⟩⟩
    | closed hback hrest hhere =>
      simp only [Scan.next?, hback] at hnext
      cases hnext
      exact ⟨before, [], hclosing hrest hhere rfl ⟨rfl, rfl, rfl⟩⟩

/-- The end of a lexeme. -/
private theorem Tracks.finish (hs : Tracks src before ahead s) (hstart : s.lexemeStart.char ≤ before.length) :
    Keeps src (s.finish src (Place.of before)) := by
  have hended (tokens : Array Token) : Keeps src (.ok { s with state := .initial, tokens }) :=
    ⟨before, ahead, hs.source, hs.faces.congr rfl rfl rfl, hs.lines_eq, fun h => absurd rfl h⟩
  unfold Scan.finish
  simp only
  split
  · exact hended _
  · split
    · exact hended _
    · exact Nat.le_trans (hi_lexemeSpan_le hstart) hs.length_le

/-- A turn that does not fail keeps track of the text. -/
theorem Tracks.step (hs : Tracks src before ahead s) (hnext : s.next? = some (g, t)) :
    Keeps src (t.step src g) := by
  obtain ⟨before', ahead', h⟩ := hs.takes hnext
  have hstart : (t.moved g).lexemeStart.char ≤ before.length := by
    simp only [moved]
    split
    · exact Nat.le_of_eq (congrArg Place.char h.start_eq)
    · next hstate =>
      rw [h.same.1] at hstate
      exact h.same.2.1 ▸ hs.started hstate
  have hstart' := Nat.le_trans hstart h.length_le
  -- the character is taken into the lexeme, or ends it
  have htaken : Tracks src before' ahead' ((t.moved g).trackLine g) :=
    ⟨h.source, h.faces.congr (by simp [moved]) (by simp [moved]) (by simp [moved]),
      h.lines_eq ▸ by simp only [trackLine, moved]; split <;> rfl, fun _ => by simpa using hstart'⟩
  -- or is given back
  have hgiven : Tracks src before ahead { t.moved g with pushedBack := some g } :=
    ⟨hs.source, h.given.congr rfl rfl rfl, h.same.2.2.trans hs.lines_eq, fun _ => hstart⟩
  cases herror : (t.moved g).state.error? with
  | some kind =>
    rw [step_of_error herror]
    have hends {stop : Place} (hfrom : before.length ≤ stop.char) (hto : stop.char ≤ src.length) :
        ((t.moved g).lexemeSpan stop).hi ≤ src.length :=
      Nat.le_trans (hi_lexemeSpan_le (Nat.le_trans hstart hfrom)) hto
    unfold fail
    simp only
    split
    · exact hends (h.stop_eq ▸ h.length_le) (h.stop_eq ▸ htaken.length_le)
    · exact hends (h.start_eq ▸ Nat.le_refl _) (h.start_eq ▸ hs.length_le)
  | none =>
    cases haccept : (t.moved g).state.accept? with
    | none =>
      rw [step_of_goes herror haccept]
      exact ⟨before', ahead', htaken⟩
    | some a =>
      cases a with
      | consume =>
        rw [step_of_consume herror haccept, h.stop_eq]
        exact htaken.finish (by simpa using hstart')
      | pushBack =>
        rw [step_of_pushBack herror haccept, h.start_eq]
        exact hgiven.finish hstart

/-! ### Runs -/

private theorem Tracks.run (hs : Tracks src before ahead s) (fuel : Nat) : Keeps src (run src fuel s) := by
  induction fuel generalizing before ahead s with
  | zero => exact ⟨before, ahead, hs⟩
  | succ fuel ih =>
    cases hnext : s.next? with
    | none =>
      rw [Scan.run, hnext]
      exact ⟨before, ahead, hs⟩
    | some gt =>
      have hstep := hs.step hnext
      rw [run_succ hnext]
      cases hresult : gt.2.step src gt.1 with
      | error e =>
        rw [hresult] at hstep
        exact hstep
      | ok s' =>
        rw [hresult] at hstep
        obtain ⟨before', ahead', hs'⟩ := hstep
        exact ih hs'

/-- The scan of a text does not end before the text does. -/
private theorem next?_of_run (h : run src (2 * (src.length + 1)) (start src) = .ok s) : s.next? = none := by
  obtain ⟨gs, hgs⟩ := isCut_of_run (between_start src) (fuel_suffices src) h
  obtain ⟨s', hrun, hend, -⟩ := run_of_isCut hgs _ (between_start src) (fuel_suffices src)
  rw [h] at hrun
  cases hrun
  exact hend

end Scan

/-- The lines that come with the tokens are those of the text. -/
theorem lines_of_tokenize {src : String} {t : Tokenized} (ht : tokenize src = .ok t) : t.lines = .of src := by
  have hkeeps := (Scan.tracks_start src).run (2 * (src.length + 1))
  obtain ⟨s, hrun, rfl⟩ := tokenize_eq_ok.1 ht
  rw [hrun] at hkeeps
  obtain ⟨before, ahead, hs⟩ := hkeeps
  have hend := Scan.next?_of_run hrun
  cases ahead with
  | nil => rw [LineIndex.of, hs.source, List.append_nil, ← hs.lines_eq]
  | cons c rest =>
    rw [hs.faces.next?] at hend
    cases hend

/-- What the lexer cannot read lies in the text. -/
theorem hi_of_tokenize_error {src : String} {e : Located LexError} (he : tokenize src = .error e) :
    e.span.hi ≤ src.length := by
  have hkeeps := (Scan.tracks_start src).run (2 * (src.length + 1))
  rw [tokenize_eq_error.1 he] at hkeeps
  exact hkeeps

end Scriptlet
