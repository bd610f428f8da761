import Scriptlet.Proofs.Lexical.Reading

/-!
# Scanning a segment

What `Scan.run` does from the beginning of a segment to its end: it comes to the same segment as `munch`, after one step
for each character and at most one more (`run_segment`), or to the error of the text that `munch` fails on
(`run_failure`).  A character that has been given back is ahead again, and so is nothing if it was the line break that
closes the text (`Scan.Faces`).
-/

namespace Scriptlet

open Lexical

/-- The place after these characters. -/
def Place.of (text : List Char) : Place := ⟨text.length, (String.ofList text).utf8ByteSize⟩

private theorem Place.of_append (text more : List Char) :
    Place.of (text ++ more) =
      ⟨text.length + more.length, (Place.of text).byte + (String.ofList more).utf8ByteSize⟩ := by
  simp [Place.of, String.ofList_append]

private theorem Place.after_of (text : List Char) (c : Char) : (Place.of text).after c = Place.of (text ++ [c]) := by
  rw [Place.of_append]
  simp [Place.after, Place.of]

theorem Place.of_inj_append {text more : List Char} : Place.of text = Place.of (text ++ more) ↔ more = [] := by
  constructor
  · intro h
    have hlen := congrArg Place.char h
    simpa [Place.of] using hlen
  · rintro rfl
    rw [List.append_nil]

/-- The token with its span cut at the greatest length. -/
def Token.cut (t : Token) : Token := ⟨t.kind, .ofBounds t.span.lo t.span.hi⟩

/-- A token that is not too long for a span is left as it is. -/
theorem Token.cut_eq {t : Token} (h : t.span.len ≤ Span.maxLength) : t.cut = t := by
  obtain ⟨kind, lo, len⟩ := t
  have hlen : lo + len - lo = len := Nat.add_sub_cancel_left lo len
  simp only [cut, Span.ofBounds, Span.hi, hlen, Nat.min_eq_left h]

/-- The text between two places of a source. -/
theorem Text.slice?_of {src : String} {before text rest : List Char} (h : src.toList = before ++ (text ++ rest)) :
    Text.slice? src (Place.of before).byte (Place.of (before ++ text)).byte = some (String.ofList text) := by
  have hsrc : src = String.ofList before ++ (String.ofList text ++ String.ofList rest) := by
    rw [← String.ofList_append, ← String.ofList_append, ← h, String.ofList_toList]
  rw [Place.of_append]
  exact hsrc ▸ Text.slice?_append _ _ _

namespace Scan

variable {src : String} {before read ahead text rest : List Char} {tokens : List Token} {s : Scan} {c : Char}
  {g : Glyph}

/-! ### What is ahead -/

/-- The scan stands before the characters `ahead`, with the characters `before` it. -/
inductive Faces (s : Scan) (before : List Char) : List Char → Prop where
  | fresh {ahead : List Char} :
    s.pushedBack = none → s.rest = ahead → s.here = Place.of before → Faces s before ahead
  | again {c : Char} {rest : List Char} : s.pushedBack = some ⟨c, Place.of before, Place.of (before ++ [c])⟩ →
    s.rest = rest → s.here = Place.of (before ++ [c]) → Faces s before (c :: rest)
  | closed : s.pushedBack = some ⟨'\n', Place.of before, Place.of before⟩ → s.rest = [] → s.here = Place.of before →
    Faces s before []

/-- The scan has read `read` of the present segment, which starts after `before`. -/
structure Within (src : String) (before read ahead : List Char) (tokens : List Token) (s : Scan) : Prop where
  source : src.toList = before ++ (read ++ ahead)
  tokens_eq : s.tokens.toList = tokens
  faces : s.Faces (before ++ read) ahead
  started : if s.state = .initial then read = [] else s.lexemeStart = Place.of before ∧ s.pushedBack = none

/-- The scan stands between two segments. -/
structure Between (src : String) (before ahead : List Char) (tokens : List Token) (s : Scan) : Prop where
  within : Within src before [] ahead tokens s
  state_eq : s.state = .initial

/-- At the start nothing of the text has been scanned. -/
theorem between_start (src : String) : Between src [] src.toList [] (start src) :=
  ⟨⟨rfl, rfl, .fresh rfl rfl rfl, rfl⟩, rfl⟩

/-- The next character is the first of those ahead, given back or not. -/
theorem Faces.next? (h : s.Faces before (c :: rest)) :
    s.next? = some (⟨c, Place.of before, Place.of (before ++ [c])⟩,
      { s with pushedBack := none, rest, here := Place.of (before ++ [c]) }) := by
  cases h with
  | fresh hback hrest hhere => simp [Scan.next?, hback, hrest, hhere, Place.after_of]
  | again hback hrest hhere => simp [Scan.next?, hback, ← hrest, ← hhere]

/-- A segment is closed by a line break. -/
theorem Faces.next?_nil (h : s.Faces before []) (hback : s.pushedBack = none) (hstate : s.state ≠ .initial) :
    s.next? = some (⟨'\n', Place.of before, Place.of before⟩, s) := by
  cases h with
  | fresh _ hrest hhere => simp [Scan.next?, hback, hrest, hhere, hstate]
  | closed hback' _ _ => rw [hback] at hback'; cases hback'

/-! ### The end of a segment -/

@[simp] theorem state_trackLine : (s.trackLine g).state = s.state := by unfold trackLine; split <;> rfl

@[simp] theorem rest_trackLine : (s.trackLine g).rest = s.rest := by unfold trackLine; split <;> rfl

@[simp] theorem here_trackLine : (s.trackLine g).here = s.here := by unfold trackLine; split <;> rfl

@[simp] theorem pushedBack_trackLine : (s.trackLine g).pushedBack = s.pushedBack := by
  unfold trackLine; split <;> rfl

@[simp] theorem lexemeStart_trackLine : (s.trackLine g).lexemeStart = s.lexemeStart := by
  unfold trackLine; split <;> rfl

@[simp] theorem tokens_trackLine : (s.trackLine g).tokens = s.tokens := by unfold trackLine; split <;> rfl

/-- The lexeme is the text since its start. -/
theorem lexeme_eq (hsrc : src.toList = before ++ (text ++ rest)) (hstart : s.lexemeStart = Place.of before) :
    s.lexeme src (Place.of (before ++ text)) = String.ofList text := by
  unfold lexeme
  rw [hstart, Text.slice?_of hsrc]
  rfl

private theorem lexemeSpan_eq (hstart : s.lexemeStart = Place.of before) :
    s.lexemeSpan (Place.of (before ++ text)) = .ofBounds before.length (before.length + text.length) := by
  unfold lexemeSpan
  rw [hstart]
  simp only [Place.of, List.length_append]

/-- The end of a segment that is not a blank keeps its token, if it makes one. -/
private theorem finish_eq {g : Segment} (hg : IsSegment g rest) (hstate : s.state = g.endState)
    (hblank : s.state ≠ .initial) (hsrc : src.toList = before ++ (g.text ++ rest))
    (hstart : s.lexemeStart = Place.of before) : s.finish src (Place.of (before ++ g.text)) =
      .ok { s with state := .initial, tokens := s.tokens ++ ((g.tokens before.length).map Token.cut).toArray } := by
  unfold finish
  rw [lexeme_eq hsrc hstart, lexemeSpan_eq hstart]
  cases hg with
  | blank _ => exact absurd hstate hblank
  | lineBreak _ | comment _ _ | lastComment _ => simp [hstate, Segment.endState, State.isTrivia, Segment.tokens]
  | @lexeme kind text _ h _ =>
    have htrivia : kind.endState.isTrivia = false := by
      cases h with
      | symbol s => cases s <;> rfl
      | _ => rfl
    simp only [hstate, Segment.endState, Segment.text, htrivia, h.ofLexeme?, Segment.tokens]
    simp [Token.cut, Span.hi]

theorem finish_eq_ok {stop : Place} {u : Scan} (h : s.finish src stop = .ok u) : u = { s with state := .initial } ∨
    ∃ kind, TokenKind.ofLexeme? s.state (s.lexeme src stop) = some kind ∧
      u = { s with state := .initial, tokens := s.tokens.push ⟨kind, s.lexemeSpan stop⟩ } := by
  unfold finish at h
  simp only at h
  split at h
  · cases h
    exact .inl rfl
  · split at h
    · next kind hkind =>
      cases h
      exact .inr ⟨kind, hkind, rfl⟩
    · cases h

/-! ### Steps -/

/-- The scan after the state of the automaton has changed for this character. -/
def moved (s : Scan) (g : Glyph) : Scan :=
  { s with lexemeStart := if s.state = .initial then g.start else s.lexemeStart, state := s.state.step g.char }

private theorem step_eq (src : String) (s : Scan) (g : Glyph) : s.step src g =
    match (s.moved g).state.error? with
    | some kind => .error ((s.moved g).fail src kind g)
    | none =>
      match (s.moved g).state.accept? with
      | none => .ok ((s.moved g).trackLine g)
      | some .consume => ((s.moved g).trackLine g).finish src g.stop
      | some .pushBack => { s.moved g with pushedBack := some g }.finish src g.start := rfl

/-- A character that no token can go on with ends the scan with an error. -/
theorem step_of_error {kind : LexErrorKind} (h : (s.moved g).state.error? = some kind) :
    s.step src g = .error ((s.moved g).fail src kind g) := by
  rw [step_eq, h]

/-- A character that a token can go on with is only counted. -/
theorem step_of_goes (h : (s.moved g).state.error? = none) (ha : (s.moved g).state.accept? = none) :
    s.step src g = .ok ((s.moved g).trackLine g) := by
  rw [step_eq, h, ha]

/-- The last character of a token belongs to it. -/
theorem step_of_consume (h : (s.moved g).state.error? = none) (ha : (s.moved g).state.accept? = some .consume) :
    s.step src g = ((s.moved g).trackLine g).finish src g.stop := by
  rw [step_eq, h, ha]

/-- A character after the end of a token is given back. -/
theorem step_of_pushBack (h : (s.moved g).state.error? = none) (ha : (s.moved g).state.accept? = some .pushBack) :
    s.step src g = { s.moved g with pushedBack := some g }.finish src g.start := by
  rw [step_eq, h, ha]

/-- A step that succeeds goes on with the lexeme, or ends it after the character, or ends it before the character, which
is then given back. -/
theorem step_cases {u : Scan} (h : s.step src g = .ok u) :
    ((s.moved g).state.isFinal = false ∧ u = (s.moved g).trackLine g) ∨
    ((s.moved g).state.accept? = some .consume ∧ ((s.moved g).trackLine g).finish src g.stop = .ok u) ∨
    ((s.moved g).state.accept? = some .pushBack ∧
      { s.moved g with pushedBack := some g }.finish src g.start = .ok u) := by
  cases herror : (s.moved g).state.error? with
  | some kind =>
    rw [step_of_error herror] at h
    cases h
  | none =>
    cases haccept : (s.moved g).state.accept? with
    | none =>
      rw [step_of_goes herror haccept] at h
      cases h
      have hfinal : (s.moved g).state.isFinal = false := by
        rw [State.isFinal, herror, haccept]
        rfl
      exact .inl ⟨hfinal, rfl⟩
    | some a =>
      cases a with
      | consume => exact .inr (.inl ⟨rfl, step_of_consume herror haccept ▸ h⟩)
      | pushBack => exact .inr (.inr ⟨rfl, step_of_pushBack herror haccept ▸ h⟩)

/-- A run takes the next turn and goes on from there. -/
theorem run_succ {s' : Scan} (h : s.next? = some (g, s')) (fuel : Nat) :
    run src (fuel + 1) s = s'.step src g >>= run src fuel := by
  rw [run, h]

theorem run_of_step {t u : Scan} (hnext : s.next? = some (g, t)) (hstep : t.step src g = .ok u) (fuel : Nat) :
    run src (fuel + 1) s = run src fuel u := by
  rw [run_succ hnext, hstep]
  rfl

theorem lexemeStart_moved (hs : Within src before read ahead tokens s) (hg : g.start = Place.of (before ++ read)) :
    (s.moved g).lexemeStart = Place.of before := by
  have hstarted := hs.started
  unfold moved
  split at hstarted
  · next hinitial =>
    rw [hstarted, List.append_nil] at hg
    simp only [if_pos hinitial, hg]
  · next hinitial => simp only [if_neg hinitial, hstarted.1]

/-- A character that does not end a segment is taken into it, or is a blank. -/
theorem step_goes (hs : Within src before read (c :: rest) tokens s) {t : Scan} (hnext : s.next? = some (g, t))
    (herror : (s.state.step c).error? = none) (haccept : (s.state.step c).accept? = none) :
    ∃ u, t.step src g = .ok u ∧ u.state = s.state.step c ∧
      (u.state ≠ .initial → Within src before (read ++ [c]) rest tokens u) ∧
      (u.state = .initial → Between src (before ++ (read ++ [c])) rest tokens u) := by
  rw [hs.faces.next?] at hnext
  obtain ⟨rfl, rfl⟩ := Prod.mk.inj (Option.some.inj hnext)
  let g : Glyph := ⟨c, Place.of (before ++ read), Place.of (before ++ read ++ [c])⟩
  let u : Scan := (moved { s with pushedBack := none, rest, here := Place.of (before ++ read ++ [c]) } g).trackLine g
  have hstate : u.state = s.state.step c := state_trackLine
  have hfaces : u.Faces (before ++ (read ++ [c])) rest :=
    .fresh pushedBack_trackLine rest_trackLine (by rw [← List.append_assoc]; exact here_trackLine)
  have htokens : u.tokens.toList = tokens := by rw [← hs.tokens_eq]; exact congrArg Array.toList tokens_trackLine
  refine ⟨u, step_of_goes herror haccept, hstate, fun hne => ⟨by simpa using hs.source, htokens, hfaces, ?_⟩,
    fun heq => ⟨⟨by simpa using hs.source, htokens, by rwa [List.append_nil], by rw [if_pos heq]⟩, heq⟩⟩
  rw [if_neg hne]
  refine ⟨lexemeStart_trackLine.trans ?_, pushedBack_trackLine⟩
  exact lexemeStart_moved (s := s) (g := g) hs rfl

/-- What a scan has ahead is known from these three parts of it. -/
theorem Faces.congr {t : Scan} (h : s.Faces before ahead) (hback : t.pushedBack = s.pushedBack)
    (hrest : t.rest = s.rest) (hhere : t.here = s.here) : t.Faces before ahead := by
  cases h with
  | fresh hback' hrest' hhere' => exact .fresh (hback.trans hback') (hrest.trans hrest') (hhere.trans hhere')
  | again hback' hrest' hhere' => exact .again (hback.trans hback') (hrest.trans hrest') (hhere.trans hhere')
  | closed hback' hrest' hhere' => exact .closed (hback.trans hback') (hrest.trans hrest') (hhere.trans hhere')

private theorem between_ended {more : List Token} (hsource : src.toList = before ++ ahead)
    (htokens : s.tokens.toList = tokens) (hfaces : s.Faces before ahead) :
    Between src before ahead (tokens ++ more) { s with state := .initial, tokens := s.tokens ++ more.toArray } := by
  refine ⟨⟨by simpa using hsource, by simp [htokens], ?_, by simp⟩, rfl⟩
  rw [List.append_nil]
  exact hfaces.congr rfl rfl rfl

/-- The last step of a segment: its token is kept, and the character that ended it is given back if it is not part of
the segment. -/
theorem step_end (t : Scan) {seg : Segment} (hseg : IsSegment seg rest) (hstep : t.state.step g.char = seg.endState)
    (hblank : seg.endState ≠ .initial) (hstart : (t.moved g).lexemeStart = Place.of before)
    (hsource : src.toList = before ++ (seg.text ++ rest)) (htokens : t.tokens.toList = tokens)
    (hconsume : seg.endState.accept? = some .consume →
      g.stop = Place.of (before ++ seg.text) ∧ t.Faces (before ++ seg.text) rest)
    (hgive : seg.endState.accept? = some .pushBack →
      g.start = Place.of (before ++ seg.text) ∧ { t with pushedBack := some g }.Faces (before ++ seg.text) rest) :
    ∃ u, t.step src g = .ok u ∧
      Between src (before ++ seg.text) rest (tokens ++ (seg.tokens before.length).map Token.cut) u := by
  obtain ⟨herror, hinitial, -⟩ := hseg.endState_spec
  have hstate : (t.moved g).state = seg.endState := hstep
  have hsource' : src.toList = (before ++ seg.text) ++ rest := by rw [hsource, List.append_assoc]
  rw [← hstate] at herror
  cases haccept : seg.endState.accept? with
  | none => exact absurd (hinitial.1 haccept) hblank
  | some a =>
    cases a with
    | consume =>
      obtain ⟨hstop, hfaces⟩ := hconsume haccept
      rw [← hstate] at haccept
      have hfinish := finish_eq (s := (t.moved g).trackLine g) hseg (by simpa using hstate)
        (by simpa [hstate] using hblank)
        hsource (by simpa using hstart)
      refine ⟨_, ?_, between_ended (s := (t.moved g).trackLine g) hsource' (by simpa [moved] using htokens)
        (hfaces.congr (by simp [moved]) (by simp [moved]) (by simp [moved]))⟩
      rw [step_of_consume herror haccept, hstop, hfinish]
    | pushBack =>
      obtain ⟨hstop, hfaces⟩ := hgive haccept
      rw [← hstate] at haccept
      have hfinish := finish_eq (s := { t.moved g with pushedBack := some g }) hseg hstate
        (by simpa [hstate] using hblank)
        hsource hstart
      refine ⟨_, ?_, between_ended (s := { t.moved g with pushedBack := some g }) hsource' htokens
        (hfaces.congr rfl rfl rfl)⟩
      rw [step_of_pushBack herror haccept, hstop, hfinish]

/-- The line break that closed the text is taken for one that stands in it, and then the scan is over. -/
theorem step_closed (hs : Between src before [] tokens s) {t : Scan} (hnext : s.next? = some (g, t)) :
    ∃ u, t.step src g = .ok u ∧ u.next? = none ∧ Between src before [] tokens u := by
  cases hs.within.faces with
  | fresh hback hrest _ => simp [Scan.next?, hback, hrest, hs.state_eq] at hnext
  | closed hback hrest hhere =>
    simp only [Scan.next?, hback, Option.some.injEq, Prod.mk.injEq] at hnext
    obtain ⟨rfl, rfl⟩ := hnext
    let g : Glyph := ⟨'\n', Place.of (before ++ []), Place.of (before ++ [])⟩
    let u : Scan := { (moved { s with pushedBack := none } g).trackLine g with state := .initial }
    have hstate : (moved { s with pushedBack := none } g).state = .newline := by
      simp only [moved, g, hs.state_eq]
      decide
    have hstep : Scan.step src { s with pushedBack := none } g = .ok u := by
      rw [step_of_consume (by rw [hstate]; rfl) (by rw [hstate]; rfl)]
      simp [finish, hstate, State.isTrivia, u]
    have hback' : u.pushedBack = none := by simp [u, moved]
    have hrest' : u.rest = [] := by simpa [u, moved] using hrest
    have hhere' : u.here = Place.of (before ++ []) := by simpa [u, moved] using hhere
    have htokens : u.tokens.toList = tokens := by simpa [u, moved] using hs.within.tokens_eq
    have hover : u.next? = none := by rw [Scan.next?, hback', hrest']; exact if_pos rfl
    exact ⟨u, hstep, hover, ⟨⟨hs.within.source, htokens, .fresh hback' hrest' hhere', rfl⟩, rfl⟩⟩

/-- From a place in a segment to its end. -/
theorem run_segment {seg : Segment} (hseg : IsSegment seg rest)
    (hs : Within src before read ahead tokens s) (hne : ahead = [] → s.state ≠ .initial)
    (hm : munch s.state read ahead = ⟨seg.endState, seg.text, rest⟩) :
    ∃ k s', k + read.length ≤ seg.text.length + 1 ∧ (∀ fuel, run src (fuel + k) s = run src fuel s') ∧
      Between src (before ++ seg.text) rest (tokens ++ (seg.tokens before.length).map Token.cut) s' := by
  obtain ⟨herror, hinitial, hblank⟩ := hseg.endState_spec
  induction ahead generalizing s read with
  | nil =>
    have hstate := hne rfl
    obtain ⟨hstart, hback⟩ : s.lexemeStart = Place.of before ∧ s.pushedBack = none := by
      simpa [hstate] using hs.started
    injection hm with hend htext hrest
    subst htext hrest
    have hnext := hs.faces.next?_nil hback hstate
    have hfaces : s.Faces (before ++ seg.text) [] := hs.faces
    have hclosed : Faces
        { s with pushedBack := some ⟨'\n', Place.of (before ++ seg.text), Place.of (before ++ seg.text)⟩ }
        (before ++ seg.text) [] := by
      cases hfaces with
      | fresh _ hrest hhere => exact .closed rfl hrest hhere
      | closed _ hrest hhere => exact .closed rfl hrest hhere
    obtain ⟨s', hstep, hs'⟩ := step_end s hseg hend (hend ▸ State.step_newline_ne_initial _)
      (lexemeStart_moved hs rfl) hs.source hs.tokens_eq (fun _ => ⟨rfl, hfaces⟩) fun _ => ⟨rfl, hclosed⟩
    exact ⟨1, s', by omega, run_of_step hnext hstep, hs'⟩
  | cons c ahead ih =>
    let t : Scan := { s with pushedBack := none, rest := ahead, here := Place.of (before ++ read ++ [c]) }
    have hnext : s.next? = some (⟨c, Place.of (before ++ read), Place.of (before ++ read ++ [c])⟩, t) := hs.faces.next?
    have hstart : (moved _ _).lexemeStart = Place.of before := lexemeStart_moved (g := ⟨c, Place.of (before ++ read),
      Place.of (before ++ read ++ [c])⟩) hs rfl
    cases haccept : (s.state.step c).accept? with
    | some a =>
      have hne' : s.state.step c ≠ .initial := by
        intro h
        rw [h] at haccept
        cases haccept
      cases a with
      | consume =>
        rw [munch_consume rfl haccept] at hm
        injection hm with hend htext hrest
        subst hrest
        obtain ⟨s', hstep, hs'⟩ := step_end t hseg hend (hend ▸ hne') hstart
          (by rw [hs.source, ← htext]; simp) hs.tokens_eq
          (fun _ => ⟨by rw [← htext]; simp, .fresh rfl rfl (by rw [← htext, ← List.append_assoc])⟩)
          (fun h => by rw [← hend, haccept] at h; cases h)
        exact ⟨1, s', by rw [← htext]; simp; omega, run_of_step hnext hstep, hs'⟩
      | pushBack =>
        rw [munch_giveBack rfl haccept] at hm
        injection hm with hend htext hrest
        subst hrest
        obtain ⟨s', hstep, hs'⟩ := step_end t hseg hend (hend ▸ hne') hstart
          (by rw [hs.source, ← htext]) hs.tokens_eq (fun h => by rw [← hend, haccept] at h; cases h)
          (fun _ => ⟨by rw [← htext], .again (by rw [← htext]) rfl (by rw [← htext])⟩)
        exact ⟨1, s', by rw [← htext]; omega, run_of_step hnext hstep, hs'⟩
    | none =>
      cases herror' : (s.state.step c).error? with
      | some kind =>
        rw [munch_fail rfl herror'] at hm
        injection hm with hend
        rw [← hend, herror'] at herror
        cases herror
      | none =>
        obtain ⟨t, hstep, hstate, hwithin, hbetween⟩ := step_goes hs hnext herror' haccept
        have hrun := run_of_step hnext hstep
        by_cases hne' : s.state.step c = .initial
        · rw [munch_blank hne'] at hm
          injection hm with hend htext hrest
          subst hrest
          refine ⟨1, t, by rw [← htext]; simp; omega, hrun, ?_⟩
          rw [hblank hend.symm, List.map_nil, List.append_nil, ← htext]
          exact hbetween (hstate.trans hne')
        · rw [munch_goes rfl ⟨hne', haccept, herror'⟩, ← hstate] at hm
          rw [← hstate] at hne'
          obtain ⟨k, s', hk, hrun', hs'⟩ := ih (hwithin hne') (fun _ => hne') hm
          refine ⟨k + 1, s', ?_, fun fuel => ?_, hs'⟩
          · rw [List.length_append, List.length_singleton] at hk
            omega
          · rw [← Nat.add_assoc, hrun, hrun']

/-- The error of a text with which no segment begins, at this offset. -/
def failure (offset : Nat) (m : Munched) (kind : LexErrorKind) : Located LexError :=
  let text := if m.text = [] then m.rest.take 1 else m.text
  ⟨.ofBounds offset (offset + text.length), ⟨m.state, kind, String.ofList text⟩⟩

/-- The error of a lexeme that fails after `text`. -/
theorem fail_eq (hstart : s.lexemeStart = Place.of before) (hsource : src.toList = before ++ (text ++ rest))
    (hstop : (if s.lexemeStart = g.start then g.stop else g.start) = Place.of (before ++ text)) (kind : LexErrorKind) :
    s.fail src kind g =
      ⟨.ofBounds before.length (before.length + text.length), ⟨s.state, kind, String.ofList text⟩⟩ := by
  unfold fail
  simp only [hstop, lexemeSpan_eq hstart, lexeme_eq hsource hstart]

private theorem run_fail {t : Scan} {kind : LexErrorKind}
    (hnext : s.next? = some (g, t)) (hkind : (t.moved g).state.error? = some kind)
    (hstart : (t.moved g).lexemeStart = Place.of before) (hsource : src.toList = before ++ (text ++ rest))
    (hstop : (if (t.moved g).lexemeStart = g.start then g.stop else g.start) = Place.of (before ++ text)) (fuel : Nat) :
    run src (fuel + 1) s =
      .error ⟨.ofBounds before.length (before.length + text.length),
        ⟨(t.moved g).state, kind, String.ofList text⟩⟩ := by
  rw [run_succ hnext, step_of_error hkind, fail_eq hstart hsource hstop]
  rfl

/-- From a place in a text that begins with no segment to its error. -/
theorem run_failure {m : Munched} {kind : LexErrorKind}
    (hs : Within src before read ahead tokens s) (hne : ahead = [] → s.state ≠ .initial)
    (hm : munch s.state read ahead = m) (hkind : m.state.error? = some kind) :
    ∃ k, k + read.length ≤ m.text.length + 1 ∧
      ∀ fuel, run src (fuel + k) s = .error (failure before.length m kind) := by
  induction ahead generalizing s read with
  | nil =>
    have hstate := hne rfl
    obtain ⟨-, hback⟩ : s.lexemeStart = Place.of before ∧ s.pushedBack = none := by
      simpa [hstate] using hs.started
    subst hm
    refine ⟨1, Nat.le_of_eq (Nat.add_comm 1 read.length), fun fuel => ?_⟩
    have htext : (if read = [] then ([] : List Char).take 1 else read) = read := by split <;> simp [*]
    rw [run_fail (hs.faces.next?_nil hback hstate) hkind (lexemeStart_moved hs rfl) hs.source (ite_self _)]
    unfold failure
    rw [munch]
    simp only [htext]
    rfl
  | cons c ahead ih =>
    cases herror : (s.state.step c).error? with
    | some kind' =>
      rw [munch_fail rfl herror] at hm
      subst hm
      rw [herror] at hkind
      cases hkind
      refine ⟨1, by simp; omega, fun fuel => ?_⟩
      have hstart := lexemeStart_moved (g := ⟨c, Place.of (before ++ read), Place.of (before ++ read ++ [c])⟩) hs rfl
      unfold failure
      by_cases hread : read = []
      · subst hread
        have hsource : src.toList = before ++ ([c] ++ ahead) := hs.source
        exact run_fail hs.faces.next? herror hstart hsource
          ((if_pos (hstart.trans (by rw [List.append_nil]))).trans (by rw [List.append_nil])) fuel
      · simp only [if_neg hread]
        exact run_fail hs.faces.next? herror hstart hs.source
          (if_neg fun h => hread (Place.of_inj_append.1 (hstart.symm.trans h))) fuel
    | none =>
      cases haccept : (s.state.step c).accept? with
      | some a =>
        have hstate : m.state = s.state.step c := by
          cases a with
          | consume => rw [← hm, munch_consume rfl haccept]
          | pushBack => rw [← hm, munch_giveBack rfl haccept]
        rw [hstate, herror] at hkind
        cases hkind
      | none =>
        have hnext := hs.faces.next?
        obtain ⟨t, hstep, hstate, hwithin, -⟩ := step_goes hs hnext herror haccept
        have hrun := run_of_step hnext hstep
        by_cases hne' : s.state.step c = .initial
        · rw [munch_blank hne'] at hm
          subst hm
          cases hkind
        · rw [munch_goes rfl ⟨hne', haccept, herror⟩, ← hstate] at hm
          rw [← hstate] at hne'
          obtain ⟨k, hk, hrun'⟩ := ih (hwithin hne') (fun _ => hne') hm
          refine ⟨k + 1, ?_, fun fuel => ?_⟩
          · rw [List.length_append, List.length_singleton] at hk
            omega
          · rw [← Nat.add_assoc, hrun, hrun']

end Scan

end Scriptlet
