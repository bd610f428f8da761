import Scriptlet.Proofs.Lines.Places

/-!
# How often characters are scanned

`tokenize_ends`: the scan of a text ends, after at most two steps for each character and two for the line break that
closes the text.

A step that gives its character back has gained nothing in the text.  But it leaves a scan that begins a lexeme, and
the first character of a lexeme is never given back (`State.accept?_step_initial`).  So a character is taken up at once,
or given back once and then taken up, unless the scan fails at it (`Visits`), and the steps of a scan are such visits,
one character after the other (`Covers`).  A line break ends every lexeme (`State.isFinal_step_newline`), so that the
text need not be closed twice.
-/

namespace Scriptlet

open Lexical

/-! ### The table -/

namespace State

/-- The first character of a lexeme is not given back. -/
theorem accept?_step_initial (c : Char) : (State.initial.step c).accept? ≠ some .pushBack := by
  unfold step
  cases CharClass.of c <;> decide

/-- On a line break no state goes on. -/
theorem isFinal_step_newline (st : State) : (st.step '\n').isFinal = true := by
  cases st <;> decide

end State

/-- The character that stands after the characters `before`. -/
def Glyph.after (before : List Char) (c : Char) : Glyph := ⟨c, .of before, .of (before ++ [c])⟩

/-- The line break that closes a text. -/
def Glyph.closing (text : List Char) : Glyph := ⟨'\n', .of text, .of text⟩

/-- What is scanned before the characters `ahead`: the first of them, or the line break that closes the text. -/
def Glyph.upcoming (before : List Char) : List Char → Glyph
  | c :: _ => .after before c
  | [] => .closing before

namespace Scan

/-- A step of a scan: the character that it scans, and whether it gives it back. -/
structure Turn where
  glyph : Glyph
  given : Bool
  deriving DecidableEq, Repr

/-- By these turns the scan comes to its end: nothing is left to scan, or the last step fails. -/
inductive Finishes (src : String) : Scan → List Turn → Except (Located LexError) Scan → Prop where
  | spent {s : Scan} (h : s.next? = none) : Finishes src s [] (.ok s)
  | fails {s t : Scan} {g : Glyph} {e : Located LexError} (hnext : s.next? = some (g, t))
    (hstep : t.step src g = .error e) : Finishes src s [⟨g, false⟩] (.error e)
  | turn {s t u : Scan} {g : Glyph} {turns : List Turn} {result : Except (Located LexError) Scan}
    (hnext : s.next? = some (g, t)) (hstep : t.step src g = .ok u) (rest : Finishes src u turns result) :
    Finishes src s (⟨g, u.pushedBack.isSome⟩ :: turns) result

/-- The scan stands before the characters `ahead`.  If the first of them has been given back, it begins a lexeme. -/
structure Poised (s : Scan) (before ahead : List Char) : Prop where
  faces : s.Faces before ahead
  state_eq : s.pushedBack ≠ none → s.state = .initial

variable {src : String} {before ahead : List Char} {s t u : Scan} {g : Glyph} {turns : List Turn}
  {result : Except (Located LexError) Scan}

/-! ### Runs without a bound -/

private theorem Finishes.eq_nil (h : Finishes src s turns result) (hover : s.next? = none) : turns = [] := by
  cases h with
  | spent _ => rfl
  | fails hnext _ => rw [hover] at hnext; cases hnext
  | turn hnext _ _ => rw [hover] at hnext; cases hnext

private theorem Finishes.next?_eq_none (h : Finishes src s turns (.ok u)) : u.next? = none := by
  generalize hresult : (Except.ok u : Except (Located LexError) Scan) = result at h
  induction h with
  | spent hover => cases hresult; exact hover
  | fails _ _ => cases hresult
  | turn _ _ _ ih => exact ih hresult

/-- As many rounds as there are turns are enough. -/
private theorem Finishes.run_eq (h : Finishes src s turns result) {fuel : Nat} (hfuel : turns.length ≤ fuel) :
    run src fuel s = result := by
  induction h generalizing fuel with
  | spent hover =>
    cases fuel with
    | zero => rfl
    | succ fuel => rw [run, hover]
  | fails hnext hstep =>
    obtain ⟨fuel, rfl⟩ := Nat.exists_eq_add_of_le' hfuel
    rw [List.length_singleton, run_succ hnext, hstep]
    rfl
  | turn hnext hstep _ ih =>
    obtain ⟨fuel, rfl⟩ := Nat.exists_eq_add_of_le' hfuel
    rw [List.length_cons, ← Nat.add_assoc, run_of_step hnext hstep]
    exact ih (Nat.le_add_left _ _)

private theorem eq_of_over (h : s.next? = none) : s.state = .initial ∧ s.pushedBack = none ∧ s.rest = [] := by
  unfold next? at h
  split at h
  · cases h
  · cases h
  · next hback hrest =>
    split at h
    · next hstate => exact ⟨hstate, hback, hrest⟩
    · cases h

/-! ### Steps -/

/-- The next character is taken from those ahead, or is the line break that closes the text. -/
private theorem Faces.takes (h : s.Faces before ahead) (hnext : s.next? = some (g, t)) :
    g = .upcoming before ahead ∧ t.state = s.state ∧ t.Faces (before ++ ahead.take 1) ahead.tail ∧
      { t with pushedBack := some g }.Faces before ahead := by
  have hstate := state_of_next? hnext
  cases ahead with
  | cons c rest =>
    rw [h.next?] at hnext
    cases hnext
    exact ⟨rfl, hstate, .fresh rfl rfl rfl, .again rfl rfl rfl⟩
  | nil =>
    rw [List.take_nil, List.append_nil]
    cases h with
    | fresh hback hrest hhere =>
      simp only [Scan.next?, hback, hrest, hhere] at hnext
      split at hnext <;> cases hnext
      exact ⟨rfl, hstate, .fresh hback hrest hhere, .closed rfl hrest hhere⟩
    | closed hback hrest hhere =>
      simp only [Scan.next?, hback] at hnext
      cases hnext
      exact ⟨rfl, hstate, .fresh rfl hrest hhere, .closed rfl hrest hhere⟩

/-- A step goes on with the lexeme, ends it with the character or ends it before the character, which is then given
back.  It reads nothing more. -/
private theorem step_moves (hstep : t.step src g = .ok u) : u.rest = t.rest ∧ u.here = t.here ∧
    (u.pushedBack = t.pushedBack ∧ (u.state = .initial ∨
        u.state = t.state.step g.char ∧ (t.state.step g.char).isFinal = false) ∨
      u.pushedBack = some g ∧ u.state = .initial ∧ (t.state.step g.char).accept? = some .pushBack) := by
  rcases step_cases hstep with ⟨hfinal, rfl⟩ | ⟨-, h⟩ | ⟨haccept, h⟩
  · exact ⟨rest_trackLine, here_trackLine, .inl ⟨pushedBack_trackLine, .inr ⟨state_trackLine, hfinal⟩⟩⟩
  · rcases finish_eq_ok h with rfl | ⟨_, _, rfl⟩
    · exact ⟨rest_trackLine, here_trackLine, .inl ⟨pushedBack_trackLine, .inl rfl⟩⟩
    · exact ⟨rest_trackLine, here_trackLine, .inl ⟨pushedBack_trackLine, .inl rfl⟩⟩
  · rcases finish_eq_ok h with rfl | ⟨_, _, rfl⟩
    · exact ⟨rfl, rfl, .inr ⟨rfl, rfl, haccept⟩⟩
    · exact ⟨rfl, rfl, .inr ⟨rfl, rfl, haccept⟩⟩

/-- The step comes to the place after the character. -/
structure Taken (before ahead : List Char) (u : Scan) : Prop where
  kept : u.pushedBack = none
  poised : u.Poised (before ++ ahead.take 1) ahead.tail
  spent : ahead = [] → u.next? = none

/-- The step comes back to the place before the character, for the first time. -/
structure Given (before ahead : List Char) (s : Scan) (g : Glyph) (u : Scan) : Prop where
  fresh : s.pushedBack = none
  given : u.pushedBack = some g
  poised : u.Poised before ahead

private theorem Poised.step (hs : s.Poised before ahead) (hnext : s.next? = some (g, t))
    (hstep : t.step src g = .ok u) : Taken before ahead u ∨ Given before ahead s g u := by
  obtain ⟨hglyph, hstate, hfaces, hback⟩ := hs.faces.takes hnext
  have hnone := pushedBack_of_next? hnext
  obtain ⟨hrest, hhere, ⟨hkept, hends⟩ | ⟨hgiven, hinitial, haccept⟩⟩ := step_moves hstep
  · refine .inl ⟨hkept.trans hnone, ⟨hfaces.congr hkept hrest hhere, ?_⟩, ?_⟩
    · exact fun h => absurd (hkept.trans hnone) h
    · rintro rfl
      -- on the line break that closes the text the lexeme has ended
      have hend : u.state = .initial := by
        rcases hends with hinitial | ⟨-, hfinal⟩
        · exact hinitial
        · rw [hglyph, show (Glyph.upcoming before []).char = '\n' from rfl, State.isFinal_step_newline] at hfinal
          cases hfinal
      have hnil : t.rest = [] := by
        cases hfaces with
        | fresh _ hrest _ => exact hrest
        | closed hback _ _ => rw [hnone] at hback; cases hback
      rw [next?, hkept, hnone, hrest, hnil]
      exact if_pos hend
  · refine .inr ⟨?_, hgiven, ⟨hback.congr hgiven hrest hhere, fun _ => hinitial⟩⟩
    by_contra hsome
    rw [hstate, hs.state_eq hsome] at haccept
    exact State.accept?_step_initial _ haccept

private theorem poised_start (src : String) : (start src).Poised [] src.toList :=
  ⟨.fresh rfl rfl rfl, fun h => absurd rfl h⟩

private theorem Reached.poised (h : Reached src s) :
    ∃ before ahead, src.toList = before ++ ahead ∧ s.Poised before ahead := by
  obtain ⟨before, read, ahead, ⟨tokens, hwithin⟩, -, -⟩ := h.stands
  refine ⟨before ++ read, ahead, by rw [hwithin.source, List.append_assoc], hwithin.faces, fun hback => ?_⟩
  have hstarted := hwithin.started
  split at hstarted
  · assumption
  · exact absurd hstarted.2 hback

/-! ### The end -/

/-- If every scan that a step comes to ends, so does the scan before the step. -/
private theorem finishes_of_step
    (hafter : ∀ g t u, s.next? = some (g, t) → t.step src g = .ok u → ∃ turns result, Finishes src u turns result) :
    ∃ turns result, Finishes src s turns result := by
  cases hnext : s.next? with
  | none => exact ⟨[], _, .spent hnext⟩
  | some gt =>
    cases hstep : gt.2.step src gt.1 with
    | error e => exact ⟨_, _, .fails hnext hstep⟩
    | ok u =>
      obtain ⟨turns, result, h⟩ := hafter gt.1 gt.2 u hnext hstep
      exact ⟨_, _, .turn hnext hstep h⟩

/-- If every scan after the next character ends, so does the one before it: the character is taken up after two steps
at most. -/
private theorem Poised.finishes_of (hs : s.Poised before ahead)
    (hafter : ∀ u : Scan, Taken before ahead u → ∃ turns result, Finishes src u turns result) :
    ∃ turns result, Finishes src s turns result := by
  have hsecond {s : Scan} (hs : s.Poised before ahead) (hback : s.pushedBack ≠ none) :
      ∃ turns result, Finishes src s turns result := by
    refine finishes_of_step fun g t u hnext hstep => ?_
    rcases hs.step hnext hstep with htaken | hgiven
    · exact hafter u htaken
    · exact absurd hgiven.fresh hback
  refine finishes_of_step fun g t u hnext hstep => ?_
  rcases hs.step hnext hstep with htaken | hgiven
  · exact hafter u htaken
  · exact hsecond hgiven.poised (by rw [hgiven.given]; exact Option.some_ne_none _)

/-- A scan of a text ends. -/
private theorem Poised.finishes (hs : s.Poised before ahead) : ∃ turns result, Finishes src s turns result := by
  induction ahead generalizing before s with
  | nil => exact hs.finishes_of fun u hu => ⟨[], _, .spent (hu.spent rfl)⟩
  | cons c ahead ih => exact hs.finishes_of fun u hu => ih hu.poised

/-! ### Visits -/

/-- The steps at one character: one step, or two of which the first gives it back. -/
inductive Visits (g : Glyph) : List Turn → Prop where
  | once : Visits g [⟨g, false⟩]
  | twice : Visits g [⟨g, true⟩, ⟨g, false⟩]

/-- The turns visit the characters ahead in their order, up to the end of the text or to the character at which the scan
fails. -/
inductive Covers : List Char → List Char → List Turn → Prop where
  | spent {before : List Char} : Covers before [] []
  | last {before ahead : List Char} {visit : List Turn} (h : Visits (.upcoming before ahead) visit) :
    Covers before ahead visit
  | char {before ahead : List Char} {c : Char} {visit turns : List Turn} (h : Visits (.after before c) visit)
    (rest : Covers (before ++ [c]) ahead turns) : Covers before (c :: ahead) (visit ++ turns)

/-- The turn that has given back the next character, if one has. -/
def pending (s : Scan) : List Turn := (s.pushedBack.map (Turn.mk · true)).toList

private theorem pending_of_none (h : s.pushedBack = none) : s.pending = [] := by
  rw [pending, h]
  rfl

/-- With the step that has given it back, a step at a character is a visit. -/
private theorem visits_pending (hnext : s.next? = some (g, t)) : Visits g (s.pending ++ [⟨g, false⟩]) := by
  cases hback : s.pushedBack with
  | none =>
    rw [pending_of_none hback]
    exact .once
  | some g' =>
    simp only [next?, hback] at hnext
    cases hnext
    rw [pending, hback]
    exact .twice

private theorem Finishes.covers (h : Finishes src s turns result) (hs : s.Poised before ahead) :
    Covers before ahead (s.pending ++ turns) := by
  induction h generalizing before ahead with
  | spent hover =>
    obtain ⟨-, hback, hrest⟩ := eq_of_over hover
    rw [pending_of_none hback]
    cases hs.faces with
    | fresh _ hrest' _ =>
      rw [hrest] at hrest'
      subst hrest'
      exact .spent
    | again hback' _ _ => rw [hback] at hback'; cases hback'
    | closed hback' _ _ => rw [hback] at hback'; cases hback'
  | fails hnext _ =>
    obtain ⟨rfl, -⟩ := hs.faces.takes hnext
    exact .last (visits_pending hnext)
  | @turn s t u g turns result hnext hstep hrest ih =>
    obtain ⟨hglyph, -⟩ := hs.faces.takes hnext
    rcases hs.step hnext hstep with htaken | hgiven
    · have hvisit := visits_pending hnext
      have hcovers := ih htaken.poised
      rw [pending_of_none htaken.kept, List.nil_append] at hcovers
      rw [htaken.kept, Option.isSome_none, List.append_cons]
      subst hglyph
      cases ahead with
      | cons c rest => exact .char hvisit hcovers
      | nil =>
        rw [hrest.eq_nil (htaken.spent rfl), List.append_nil]
        exact .last hvisit
    · have hcovers := ih hgiven.poised
      rw [pending, hgiven.given] at hcovers
      rw [pending_of_none hgiven.fresh, hgiven.given]
      exact hcovers

/-! ### Counting -/

namespace Visits

variable {visit : List Turn}

private theorem length_le (h : Visits g visit) : visit.length ≤ 2 := by
  cases h <;> simp

private theorem glyph_eq (h : Visits g visit) {turn : Turn} (hturn : turn ∈ visit) : turn.glyph = g := by
  cases h <;> grind

private theorem count_le (h : Visits g visit) (g' : Glyph) :
    (visit.map Turn.glyph).count g' ≤ 2 ∧ visit.count ⟨g', true⟩ ≤ 1 := by
  constructor
  · refine Nat.le_trans List.count_le_length ?_
    rw [List.length_map]
    exact h.length_le
  · cases h with
    | once => simp
    | twice => simp [List.count_cons]; split <;> simp

end Visits

namespace Covers

private theorem length_le (h : Covers before ahead turns) : turns.length ≤ 2 * (ahead.length + 1) := by
  induction h with
  | spent => exact Nat.zero_le _
  | last h =>
    have hvisit := h.length_le
    omega
  | char h _ ih =>
    have hvisit := h.length_le
    rw [List.length_append, List.length_cons]
    omega

/-- What is scanned stands in the text, or is the line break that closes it. -/
private theorem glyph_eq (h : Covers before ahead turns) {turn : Turn} (hturn : turn ∈ turns) :
    turn.glyph = .closing (before ++ ahead) ∨
      ∃ mid c rest, ahead = mid ++ c :: rest ∧ turn.glyph = .after (before ++ mid) c := by
  induction h with
  | spent => cases hturn
  | @last before ahead visit h =>
    rw [h.glyph_eq hturn]
    cases ahead with
    | nil => exact .inl (by rw [List.append_nil]; rfl)
    | cons c rest => exact .inr ⟨[], c, rest, rfl, by rw [List.append_nil]; rfl⟩
  | @char before ahead c visit turns h _ ih =>
    rcases List.mem_append.1 hturn with hvisit | hrest
    · rw [h.glyph_eq hvisit]
      exact .inr ⟨[], c, ahead, rfl, by rw [List.append_nil]⟩
    · rcases ih hrest with hclosing | ⟨mid, d, rest, rfl, hd⟩
      · exact .inl (by rw [hclosing, List.append_assoc]; rfl)
      · exact .inr ⟨c :: mid, d, rest, rfl, by rw [hd, List.append_assoc]; rfl⟩

private theorem start_ge (h : Covers before ahead turns) {turn : Turn} (hturn : turn ∈ turns) :
    before.length ≤ turn.glyph.start.char := by
  rcases h.glyph_eq hturn with hclosing | ⟨mid, c, rest, -, hc⟩
  · rw [hclosing]
    simp [Glyph.closing, Place.of]
  · rw [hc]
    simp [Glyph.after, Place.of]

private theorem count_eq_zero (h : ∀ turn ∈ turns, turn.glyph ≠ g) :
    (turns.map Turn.glyph).count g = 0 ∧ turns.count ⟨g, true⟩ = 0 := by
  constructor
  · refine List.count_eq_zero.2 fun hmem => ?_
    obtain ⟨turn, hturn, heq⟩ := List.mem_map.1 hmem
    exact h turn hturn heq
  · exact List.count_eq_zero.2 fun hmem => h _ hmem rfl

/-- Nothing is scanned more than twice, and nothing is given back more than once. -/
private theorem count_le (h : Covers before ahead turns) (g : Glyph) :
    (turns.map Turn.glyph).count g ≤ 2 ∧ turns.count ⟨g, true⟩ ≤ 1 := by
  induction h with
  | spent => simp
  | last h => exact h.count_le g
  | @char before ahead c visit turns h hrest ih =>
    rw [List.map_append, List.count_append, List.count_append]
    by_cases hg : g = .after before c
    · -- what is scanned later stands further on
      have hlater : ∀ turn ∈ turns, turn.glyph ≠ g := by
        rintro turn hturn rfl
        have hstart := hrest.start_ge hturn
        rw [hg, List.length_append, List.length_singleton] at hstart
        exact Nat.not_succ_le_self _ hstart
      rw [(count_eq_zero hlater).1, (count_eq_zero hlater).2]
      exact h.count_le g
    · have hother : ∀ turn ∈ visit, turn.glyph ≠ g := fun turn hturn heq =>
        hg (heq.symm.trans (h.glyph_eq hturn))
      rw [(count_eq_zero hother).1, (count_eq_zero hother).2, Nat.zero_add, Nat.zero_add]
      exact ih

/-- At the end of the text only the line break that closes it is visited. -/
private theorem of_nil (h : Covers before [] turns) :
    turns.length ≤ 2 ∧ ∀ turn ∈ turns, turn.glyph = .closing before := by
  refine ⟨h.length_le, fun turn hturn => ?_⟩
  rcases h.glyph_eq hturn with hclosing | ⟨mid, c, rest, hnil, -⟩
  · rwa [List.append_nil] at hclosing
  · simp at hnil

end Covers

/-- At the end of the text, where a lexeme may be open, the scan ends after two steps at most. -/
private theorem Finishes.at_end (h : Finishes src s turns result) (hs : Reached src s) (hrest : s.rest = [])
    (hback : s.pushedBack = none) :
    turns.length ≤ 2 ∧ ∀ turn ∈ turns, turn.glyph = ⟨'\n', s.here, s.here⟩ := by
  obtain ⟨before, ahead, -, hposed⟩ := hs.poised
  have hcovers := h.covers hposed
  rw [pending_of_none hback, List.nil_append] at hcovers
  cases hposed.faces with
  | fresh _ hahead hhere =>
    rw [hrest] at hahead
    subst hahead
    rw [hhere]
    exact hcovers.of_nil
  | again hback' _ _ => rw [hback] at hback'; cases hback'
  | closed hback' _ _ => rw [hback] at hback'; cases hback'

end Scan

/-- Without a bound on its steps the scan of a text ends all the same: after two steps at most for each character of the
text, of which only the first may give it back, and two for the line break that closes the text.  At the end of the text
these last two lead to an error or to where no lexeme is open and no character has been given back.  So `Scan.run` has
rounds enough for every text. -/
theorem tokenize_ends (src : String) :
    (∃ turns result, Scan.Finishes src (.start src) turns result) ∧
    (∀ turns result, Scan.Finishes src (.start src) turns result →
      turns.length ≤ 2 * (src.length + 1) ∧
      (∀ g, (turns.map Scan.Turn.glyph).count g ≤ 2 ∧ turns.count ⟨g, true⟩ ≤ 1) ∧
      (∀ turn ∈ turns, turn.glyph = .closing src.toList ∨
        ∃ before c rest, src.toList = before ++ c :: rest ∧ turn.glyph = .after before c) ∧
      (∀ fuel, turns.length ≤ fuel → Scan.run src fuel (.start src) = result) ∧
      tokenize src = result.map fun s => ⟨s.tokens.toList, s.lines⟩) ∧
    ∀ s, Scan.Reached src s → s.rest = [] → s.pushedBack = none →
      (∃ turns result, Scan.Finishes src s turns result) ∧
      ∀ turns result, Scan.Finishes src s turns result →
        turns.length ≤ 2 ∧ (∀ turn ∈ turns, turn.glyph = ⟨'\n', s.here, s.here⟩) ∧
        ∀ u, result = .ok u → u.state = .initial ∧ u.pushedBack = none ∧ u.rest = [] := by
  refine ⟨(Scan.poised_start src).finishes, fun turns result h => ?_, fun s hs hrest hback => ?_⟩
  · have hcovers : Scan.Covers [] src.toList turns := h.covers (Scan.poised_start src)
    have hlength : turns.length ≤ 2 * (src.length + 1) := by
      rw [← String.length_toList]
      exact hcovers.length_le
    refine ⟨hlength, hcovers.count_le, fun turn hturn => hcovers.glyph_eq hturn, fun _ => h.run_eq, ?_⟩
    rw [tokenize, h.run_eq hlength]
    cases result <;> rfl
  · obtain ⟨before, ahead, -, hposed⟩ := hs.poised
    refine ⟨hposed.finishes, fun turns result h => ?_⟩
    obtain ⟨hlength, hglyphs⟩ := h.at_end hs hrest hback
    refine ⟨hlength, hglyphs, ?_⟩
    rintro u rfl
    exact Scan.eq_of_over h.next?_eq_none

/-- A name at the end of a text: the line break that closes the text is given back and then taken up. -/
theorem closing_visited_twice : ∃ s u, Scan.Reached "a" s ∧ s.rest = [] ∧ s.pushedBack = none ∧ s.here = ⟨1, 1⟩ ∧
    Scan.Finishes "a" s [⟨⟨'\n', ⟨1, 1⟩, ⟨1, 1⟩⟩, true⟩, ⟨⟨'\n', ⟨1, 1⟩, ⟨1, 1⟩⟩, false⟩] (.ok u) ∧
    u.state = .initial ∧ u.pushedBack = none ∧ u.rest = [] ∧
    tokenize "a" = .ok ⟨[⟨.identifier "a", ⟨0, 1⟩⟩], .empty⟩ := by
  obtain ⟨-, hwhole, hclosing⟩ := tokenize_ends "a"
  let g : Glyph := ⟨'\n', ⟨1, 1⟩, ⟨1, 1⟩⟩
  -- the scan at the end of the text, after the line break is given back, and after it is taken up
  let s : Scan := ⟨[], ⟨1, 1⟩, none, .ident, ⟨0, 0⟩, #[], .empty⟩
  let t : Scan := ⟨[], ⟨1, 1⟩, some g, .initial, ⟨0, 0⟩, #[⟨.identifier "a", ⟨0, 1⟩⟩], .empty⟩
  let u : Scan := ⟨[], ⟨1, 1⟩, none, .initial, ⟨1, 1⟩, #[⟨.identifier "a", ⟨0, 1⟩⟩], .empty⟩
  have hname : Scan.step "a" ⟨[], ⟨1, 1⟩, none, .initial, ⟨0, 0⟩, #[], .empty⟩ ⟨'a', ⟨0, 0⟩, ⟨1, 1⟩⟩ = .ok s := rfl
  have hgives : Scan.step "a" s g = .ok t := by decide +kernel
  have htakes : Scan.step "a" { t with pushedBack := none } g = .ok u := rfl
  have hs : Scan.Reached "a" s := .step .start rfl hname
  have hfinishes : Scan.Finishes "a" s [⟨g, true⟩, ⟨g, false⟩] (.ok u) :=
    .turn rfl hgives (.turn rfl htakes (.spent rfl))
  obtain ⟨-, -, -, -, htokenize⟩ := hwhole _ _ (.turn rfl hname hfinishes)
  obtain ⟨-, hend⟩ := hclosing s hs rfl rfl
  obtain ⟨-, -, hover⟩ := hend _ _ hfinishes
  obtain ⟨hstate, hback, hrest⟩ := hover u rfl
  exact ⟨s, u, hs, rfl, rfl, rfl, hfinishes, hstate, hback, hrest, htokenize⟩

end Scriptlet
