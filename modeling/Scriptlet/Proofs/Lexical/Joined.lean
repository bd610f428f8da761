import Scriptlet.Proofs.Lexical.Lines
import Scriptlet.Proofs.Lexical.Printing

/-!
# The end of a text is a line break

`tokenize_lineFeed`: two texts with a line feed between them are tokenized as each of them alone, the tokens and the
lines of the second further on; an error of the first is the same error.

A text is cut into segments as far as that is possible (`exists_cuts`).  A line feed after the text ends its last
segment as the end of the text does, and is itself a segment or, after a comment, the last character of one
(`Cuts.lineFeed`); and where no segment begins, it fails the automaton in the same state (`munch_lineFeed`).
-/

namespace Scriptlet

open Lexical

/-! ### Further on -/

/-- The span `n` characters further on. -/
def Span.shift (n : Nat) (s : Span) : Span := ⟨n + s.lo, s.len⟩

/-- The token `n` characters further on. -/
def Token.shift (n : Nat) (t : Token) : Token := ⟨t.kind, t.span.shift n⟩

/-- What is located, `n` characters further on. -/
def Located.shift {α : Type} (n : Nat) (x : Located α) : Located α := ⟨x.span.shift n, x.value⟩

/-- The tokens and the lines of a text that goes on with another one, which begins a line at the offset `n`. -/
def Tokenized.followedBy (n : Nat) (t u : Tokenized) : Tokenized :=
  ⟨t.tokens ++ u.tokens.map (Token.shift n), ⟨t.lines.later ++ #[n] ++ u.lines.later.map (n + ·)⟩⟩

namespace Lexical

variable {text before rest more : List Char} {gs gs' : List Segment}

/-! ### The beginning of a text -/

/-- The text is cut into these segments where the rest comes after it. -/
inductive Cuts (rest : List Char) : List Char → List Segment → Prop where
  | nil : Cuts rest [] []
  | cons {g : Segment} {text : List Char} {gs : List Segment} :
    IsSegment g (text ++ rest) → Cuts rest text gs → Cuts rest (g.text ++ text) (g :: gs)

private theorem Cuts.eq_nil (h : Cuts rest [] gs) : gs = [] := by
  generalize htext : ([] : List Char) = text at h
  cases h with
  | nil => rfl
  | cons hg _ => exact absurd (List.append_eq_nil_iff.1 htext.symm).1 hg.text_ne_nil

private theorem Cuts.isCut (h : Cuts rest text gs) (hrest : IsCut rest gs') : IsCut (text ++ rest) (gs ++ gs') := by
  induction h with
  | nil => exact hrest
  | cons hg _ ih =>
    rw [List.append_assoc]
    exact .cons hg ih

private theorem Cuts.append (h : Cuts (text ++ rest) before gs) (h' : Cuts rest text gs') :
    Cuts rest (before ++ text) (gs ++ gs') := by
  induction h with
  | nil => exact h'
  | @cons g _ _ hg _ ih =>
    rw [List.append_assoc]
    exact .cons (by rwa [List.append_assoc]) ih

private theorem tokensFrom_append (h : Cuts rest text gs) (offset : Nat) (gs' : List Segment) :
    tokensFrom offset (gs ++ gs') = tokensFrom offset gs ++ tokensFrom (offset + text.length) gs' := by
  induction h generalizing offset with
  | nil => rfl
  | cons _ _ ih =>
    rw [List.cons_append, tokensFrom, ih, tokensFrom, List.append_assoc, List.length_append, Nat.add_assoc]

private theorem tokensFrom_shift (n offset : Nat) (gs : List Segment) :
    tokensFrom (n + offset) gs = (tokensFrom offset gs).map (Token.shift n) := by
  induction gs generalizing offset with
  | nil => rfl
  | cons g gs ih =>
    have htokens : g.tokens (n + offset) = (g.tokens offset).map (Token.shift n) := by cases g <;> rfl
    rw [tokensFrom, tokensFrom, List.map_append, Nat.add_assoc, ih, htokens]

private theorem cut_shift (n : Nat) (t : Token) : (t.shift n).cut = t.cut.shift n := by
  have hlen : n + t.span.lo + t.span.len - (n + t.span.lo) = t.span.lo + t.span.len - t.span.lo := by omega
  simp only [Token.cut, Token.shift, Span.shift, Span.ofBounds, Span.hi, hlen]

/-- No segment begins where the automaton fails. -/
def Fails (rest : List Char) : Prop := rest ≠ [] ∧ (munch .initial [] rest).state.error?.isSome = true

/-- Every text is cut into segments up to its end, or up to where no segment begins. -/
theorem exists_cuts (ahead : List Char) :
    ∃ before rest gs, ahead = before ++ rest ∧ Cuts rest before gs ∧ (rest = [] ∨ Fails rest) := by
  by_cases hahead : ahead = []
  · exact ⟨[], [], [], hahead, .nil, .inl rfl⟩
  obtain ⟨htext, hsegment | hfail⟩ := munch_spec .initial (fun h => absurd h hahead) rfl
  · obtain ⟨g, hg, -, hseg⟩ := hsegment
    rw [List.nil_append, ← hg] at htext
    have hpos := List.length_pos_iff.2 hseg.text_ne_nil
    have hlength := congrArg List.length htext
    rw [List.length_append] at hlength
    have hshorter : (munch .initial [] ahead).rest.length < ahead.length := by omega
    obtain ⟨before, rest, gs, heq, hcuts, hend⟩ := exists_cuts (munch .initial [] ahead).rest
    refine ⟨g.text ++ before, rest, g :: gs, ?_, .cons (heq ▸ hseg) hcuts, hend⟩
    rw [htext, heq, List.append_assoc]
  · exact ⟨[], ahead, [], rfl, .nil, .inr ⟨hahead, hfail⟩⟩
termination_by ahead.length

end Lexical

/-! ### The scan of a text that fails -/

namespace Scan

variable {src : String} {before text rest : List Char} {tokens : List Token} {s : Scan} {gs : List Segment}

/-- The scan of a text that is cut comes to its end in two steps or less for each character. -/
private theorem run_of_cuts (h : Cuts rest text gs) (hs : Between src before (text ++ rest) tokens s) :
    ∃ k s' tokens', k ≤ 2 * text.length ∧ (∀ fuel, run src (fuel + k) s = run src fuel s') ∧
      Between src (before ++ text) rest tokens' s' := by
  induction h generalizing before tokens s with
  | nil =>
    rw [List.nil_append] at hs
    exact ⟨0, s, tokens, Nat.le_refl _, fun _ => rfl, by rwa [List.append_nil]⟩
  | @cons g text gs hg _ ih =>
    rw [List.append_assoc] at hs
    have hne : g.text ++ (text ++ rest) = [] → s.state ≠ .initial := fun h =>
      absurd (List.append_eq_nil_iff.1 h).1 hg.text_ne_nil
    obtain ⟨k, s', hk, hrun, hs'⟩ := run_segment hg hs.within hne (by rw [hs.state_eq]; exact munch_of_isSegment hg)
    obtain ⟨k', s'', tokens', hk', hrun', hs''⟩ := ih hs'
    have hpos := List.length_pos_iff.2 hg.text_ne_nil
    rw [List.length_nil] at hk
    refine ⟨k' + k, s'', tokens', ?_, fun fuel => ?_, by rwa [← List.append_assoc]⟩
    · rw [List.length_append]
      omega
    · rw [← Nat.add_assoc, hrun, hrun']

end Scan

/-- The error of a text with the rest, before which it is cut. -/
private theorem tokenize_of_fails {src : String} {before rest : List Char} {gs : List Segment} {kind : LexErrorKind}
    (h : Cuts rest before gs) (hsrc : src.toList = before ++ rest) (hne : rest ≠ [])
    (hkind : (munch .initial [] rest).state.error? = some kind) :
    tokenize src = .error (Scan.failure before.length (munch .initial [] rest) kind) := by
  have hstart := Scan.between_start src
  rw [hsrc] at hstart
  obtain ⟨k, s, tokens, hk, hrun, hs⟩ := Scan.run_of_cuts h hstart
  obtain ⟨k', hk', hrun'⟩ := Scan.run_failure hs.within (fun h => absurd h hne) (by rw [hs.state_eq]) hkind
  obtain ⟨htext, -⟩ := munch_spec .initial (fun h => absurd h hne) (rfl : munch .initial [] rest = _)
  -- the steps of both runs together are no more than the fuel
  have hlength := congrArg List.length htext
  rw [List.nil_append, List.length_append] at hlength
  have hfuel := fuel_suffices src
  rw [hsrc, List.length_append] at hfuel
  rw [List.length_nil] at hk'
  have hpos := List.length_pos_iff.2 hne
  obtain ⟨fuel, hsteps⟩ : ∃ n, 2 * (src.length + 1) = n + k' + k :=
    ⟨2 * (src.length + 1) - (k' + k), by omega⟩
  rw [tokenize_eq_error, hsteps, hrun, hrun', List.nil_append]

/-! ### A line feed -/

namespace Lexical

variable {text before rest more : List Char} {gs : List Segment} {st : State} {read : List Char} {kind : LexErrorKind}

/-- What comes after a text that is not at its end makes no difference to the segments before it. -/
private theorem IsSegment.append {g : Segment} (h : IsSegment g rest) (hne : rest ≠ []) (more : List Char) :
    IsSegment g (rest ++ more) := by
  cases h with
  | blank h => exact .blank h
  | lineBreak h => exact .lineBreak h
  | comment h hc => exact .comment h hc
  | lastComment h => exact absurd rfl hne
  | lexeme h hrest =>
    obtain ⟨c, rest, rfl⟩ := List.exists_cons_of_ne_nil hne
    exact .lexeme h hrest

private theorem Cuts.prolong (h : Cuts rest text gs) (hne : rest ≠ []) (more : List Char) :
    Cuts (rest ++ more) text gs := by
  induction h with
  | nil => exact .nil
  | @cons g text gs hg _ ih =>
    refine .cons ?_ ih
    rw [← List.append_assoc]
    exact hg.append (fun h => hne (List.append_eq_nil_iff.1 h).2) more

/-- A segment at the end of a text is one before a line feed, or a comment that a line feed ends. -/
private theorem IsSegment.lineFeed {g : Segment} (h : IsSegment g []) (more : List Char) :
    IsSegment g ('\n' :: more) ∨
      ∃ text, g = .comment text ∧ IsSegment (.comment (text ++ ['\n'])) more := by
  cases h with
  | blank h => exact .inl (.blank h)
  | lineBreak h => exact .inl (.lineBreak h)
  | comment h hc => exact .inl (.comment h hc)
  | lastComment h => exact .inr ⟨_, rfl, .comment h (.inl rfl)⟩
  | lexeme h _ =>
    refine .inl (.lexeme h fun c hc => ?_)
    obtain rfl : '\n' = c := by simpa using hc
    exact h.endsBefore (.inr (.inl rfl))

/-- A text that is cut is cut together with a line feed after it, into segments that make the same tokens. -/
theorem Cuts.lineFeed (h : Cuts [] text gs) (rest : List Char) :
    ∃ gs', Cuts rest (text ++ ['\n']) gs' ∧ ∀ offset, tokensFrom offset gs' = tokensFrom offset gs := by
  have hbreak : Cuts rest ['\n'] [.lineBreak '\n'] := .cons (.lineBreak (.inl rfl)) .nil
  induction h with
  | nil => exact ⟨_, hbreak, fun _ => rfl⟩
  | @cons g text gs hg htail ih =>
    rw [List.append_nil] at hg
    by_cases hnil : text = []
    · -- the last segment, which the line feed ends or extends
      subst hnil
      obtain rfl := htail.eq_nil
      rw [List.append_nil]
      rcases hg.lineFeed rest with hg | ⟨comment, rfl, hcomment⟩
      · exact ⟨[g, .lineBreak '\n'], .cons hg hbreak, fun offset => by simp [tokensFrom, Segment.tokens]⟩
      · have hcuts : Cuts rest (comment ++ ['\n'] ++ []) [.comment (comment ++ ['\n'])] := .cons hcomment .nil
        rw [List.append_nil] at hcuts
        exact ⟨_, hcuts, fun offset => rfl⟩
    · obtain ⟨gs', hcuts, htokens⟩ := ih
      have hg' : IsSegment g (text ++ ['\n'] ++ rest) := by
        rw [List.append_assoc]
        exact hg.append hnil _
      refine ⟨g :: gs', ?_, fun offset => by rw [tokensFrom, tokensFrom, htokens]⟩
      rw [List.append_assoc]
      exact .cons hg' hcuts

/-- Where the automaton fails before the end of a text or at it, it fails in the same way if a line feed comes next. -/
theorem munch_lineFeed (hst : rest = [] → st ≠ .initial) (herror : (munch st read rest).state.error? = some kind)
    (more : List Char) : munch st read (rest ++ '\n' :: more) =
      ⟨(munch st read rest).state, (munch st read rest).text, (munch st read rest).rest ++ '\n' :: more⟩ := by
  induction rest generalizing st read with
  | nil => exact munch_fail rfl herror
  | cons c rest ih =>
    rw [List.cons_append]
    cases haccept : (st.step c).accept? with
    | some a =>
      cases a with
      | consume => rw [munch_consume rfl haccept, munch_consume rfl haccept]
      | pushBack =>
        rw [munch_giveBack rfl haccept, munch_giveBack rfl haccept]
        rfl
    | none =>
      by_cases hinitial : st.step c = .initial
      · rw [munch_blank hinitial, munch_blank hinitial]
      · cases hfail : (st.step c).error? with
        | some _ =>
          rw [munch_fail rfl hfail, munch_fail rfl hfail]
          rfl
        | none =>
          rw [munch_goes rfl ⟨hinitial, haccept, hfail⟩] at herror
          rw [munch_goes rfl ⟨hinitial, haccept, hfail⟩, munch_goes rfl ⟨hinitial, haccept, hfail⟩]
          exact ih (fun _ => hinitial) herror

end Lexical

/-! ### Lines -/

namespace LineIndex

/-- The offsets after the line feeds of a stretch of text that begins at `offset`. -/
def startsIn (offset : Nat) : List Char → List Nat
  | [] => []
  | c :: text => if c = '\n' then (offset + 1) :: startsIn (offset + 1) text else startsIn (offset + 1) text

/-- The lines of a text are those of its two parts, one after the other. -/
theorem startsIn_append (offset : Nat) (text more : List Char) :
    startsIn offset (text ++ more) = startsIn offset text ++ startsIn (offset + text.length) more := by
  induction text generalizing offset with
  | nil => rfl
  | cons c text ih =>
    rw [List.cons_append, startsIn, startsIn, ih, List.length_cons, Nat.add_assoc, Nat.add_comm 1]
    split
    · rfl
    · rfl

private theorem startsIn_shift (n offset : Nat) (text : List Char) :
    startsIn (n + offset) text = (startsIn offset text).map (n + ·) := by
  induction text generalizing offset with
  | nil => rfl
  | cons c text ih =>
    rw [startsIn, startsIn, Nat.add_assoc, ih]
    split
    · rfl
    · rfl

/-- Lines are recorded in order, none before the last one. -/
theorem later_pushLines {l : LineIndex} {offset : Nat} (h : l.lastStart ≤ offset) (text : List Char) :
    (l.pushLines offset text).later.toList = l.later.toList ++ startsIn offset text := by
  induction text generalizing l offset with
  | nil => simp [pushLines, startsIn]
  | cons c text ih =>
    rw [pushLines, startsIn]
    by_cases hc : c = '\n'
    · have hpush : l.push (offset + 1) = ⟨l.later.push (offset + 1)⟩ := if_pos (by omega)
      have hlast : (⟨l.later.push (offset + 1)⟩ : LineIndex).lastStart ≤ offset + 1 := by simp [lastStart]
      rw [if_pos hc, if_pos hc, hpush, ih hlast, Array.toList_push, List.append_assoc]
      rfl
    · rw [if_neg hc, if_neg hc]
      exact ih (by omega)

theorem toList_of (src : String) : (LineIndex.of src).later.toList = startsIn 0 src.toList := by
  rw [LineIndex.of, later_pushLines (Nat.le_refl 0)]
  rfl

/-- A line feed begins a line, and the lines of what comes after it are further on. -/
private theorem of_lineFeed (a b : String) : LineIndex.of (a ++ "\n" ++ b) =
    ⟨(LineIndex.of a).later ++ #[a.length + 1] ++ (LineIndex.of b).later.map (a.length + 1 + ·)⟩ := by
  have hlater : (LineIndex.of (a ++ "\n" ++ b)).later.toList =
      ((LineIndex.of a).later ++ #[a.length + 1] ++ (LineIndex.of b).later.map (a.length + 1 + ·)).toList := by
    have hbreak : startsIn a.length ['\n'] = [a.length + 1] := rfl
    have htext : (a ++ "\n" ++ b).toList = a.toList ++ ['\n'] ++ b.toList := by simp
    rw [toList_of, htext, startsIn_append, startsIn_append, Nat.zero_add, String.length_toList, hbreak,
      List.length_append, String.length_toList, List.length_singleton]
    simp only [Array.toList_append, Array.toList_map, toList_of]
    rw [← startsIn_shift, Nat.zero_add, Nat.add_zero]
  exact congrArg LineIndex.mk (Array.toList_inj.1 hlater)

end LineIndex

/-! ### Joined texts -/

/-- The error of what comes after a text, further on. -/
private theorem failure_shift (n offset : Nat) (m : Munched) (kind : LexErrorKind) :
    Scan.failure (n + offset) m kind = (Scan.failure offset m kind).shift n := by
  unfold Scan.failure
  simp only [Located.shift, Span.shift, Span.ofBounds, Nat.add_assoc, Nat.add_sub_add_left]

/-- What comes later has no part in an error. -/
private theorem failure_append {m : Munched} (h : m.text = [] → m.rest ≠ []) (more : List Char) (offset : Nat)
    (kind : LexErrorKind) :
    Scan.failure offset ⟨m.state, m.text, m.rest ++ more⟩ kind = Scan.failure offset m kind := by
  unfold Scan.failure
  by_cases htext : m.text = []
  · obtain ⟨c, rest, hrest⟩ := List.exists_cons_of_ne_nil (h htext)
    simp only [htext, if_true, hrest, List.cons_append, List.take_succ_cons, List.take_zero]
  · simp only [htext, if_false]

/-- The tokens and lines of a text that is cut up to its end. -/
private theorem tokenize_of_cuts {src : String} {gs : List Segment} (h : Cuts [] src.toList gs) :
    tokenize src = .ok ⟨(tokensFrom 0 gs).map Token.cut, .of src⟩ := by
  have hcut := h.isCut .nil
  rw [List.append_nil, List.append_nil] at hcut
  obtain ⟨lines, htokenize⟩ := tokenize_of_isCut hcut
  have hlines : lines = .of src := lines_of_tokenize htokenize
  rw [htokenize, hlines]

section

variable {a b : String} {before rest : List Char} {gs gs' : List Segment}

/-- A text that fails does so in the same way if a line feed and more come after it. -/
private theorem tokenize_lineFeed_of_fails (ha : a.toList = before ++ rest) (hcuts : Cuts rest before gs)
    (hfails : Fails rest) (b : String) : ∃ e, tokenize a = .error e ∧ tokenize (a ++ "\n" ++ b) = .error e := by
  obtain ⟨hne, herror⟩ := hfails
  obtain ⟨kind, hkind⟩ := Option.isSome_iff_exists.1 herror
  have hmunch := munch_lineFeed (fun h => absurd h hne) hkind b.toList
  have hsrc : (a ++ "\n" ++ b).toList = before ++ (rest ++ '\n' :: b.toList) := by simp [ha]
  have hjoined := tokenize_of_fails (hcuts.prolong hne ('\n' :: b.toList)) hsrc (by simp) (by rwa [hmunch])
  -- a lexeme of which nothing could be read is shown by the next character, which is one of the first text
  obtain ⟨htext, -⟩ := munch_spec .initial (fun h => absurd h hne) (rfl : munch .initial [] rest = _)
  have hrest : (munch .initial [] rest).text = [] → (munch .initial [] rest).rest ≠ [] := by
    intro hnil
    rw [hnil] at htext
    rwa [show (munch .initial [] rest).rest = rest from htext.symm]
  rw [hmunch, failure_append hrest] at hjoined
  exact ⟨_, tokenize_of_fails hcuts ha hne hkind, hjoined⟩

/-- The tokens of two texts that are cut up to their ends. -/
private theorem tokenize_lineFeed_of_cuts (ha : Cuts [] a.toList gs) (hb : Cuts [] b.toList gs') :
    tokenize (a ++ "\n" ++ b) = .ok (Tokenized.followedBy (a.length + 1)
      ⟨(tokensFrom 0 gs).map Token.cut, .of a⟩ ⟨(tokensFrom 0 gs').map Token.cut, .of b⟩) := by
  obtain ⟨hs, hcuts, htokens⟩ := ha.lineFeed b.toList
  have hsrc : (a ++ "\n" ++ b).toList = a.toList ++ ['\n'] ++ b.toList := by simp
  have hlength : (a.toList ++ ['\n']).length = a.length + 1 := by
    rw [List.length_append, String.length_toList, List.length_singleton]
  have hjoined : Cuts [] (a ++ "\n" ++ b).toList (hs ++ gs') := by
    rw [hsrc]
    exact Cuts.append (by rwa [List.append_nil]) hb
  have hshift : tokensFrom (a.length + 1) gs' = (tokensFrom 0 gs').map (Token.shift (a.length + 1)) :=
    tokensFrom_shift (a.length + 1) 0 gs'
  have hcut : Token.cut ∘ Token.shift (a.length + 1) = Token.shift (a.length + 1) ∘ Token.cut :=
    funext (cut_shift (a.length + 1))
  rw [tokenize_of_cuts hjoined, tokensFrom_append hcuts, htokens, Nat.zero_add, hlength, hshift, LineIndex.of_lineFeed,
    List.map_append, List.map_map, hcut, ← List.map_map]
  rfl

/-- The error of a text that comes after one that is cut up to its end. -/
private theorem tokenize_lineFeed_of_cuts_of_fails (ha : Cuts [] a.toList gs) (hb : b.toList = before ++ rest)
    (hcuts : Cuts rest before gs') (hfails : Fails rest) :
    ∃ e, tokenize b = .error e ∧ tokenize (a ++ "\n" ++ b) = .error (e.shift (a.length + 1)) := by
  obtain ⟨hne, herror⟩ := hfails
  obtain ⟨kind, hkind⟩ := Option.isSome_iff_exists.1 herror
  obtain ⟨hs, hlineFeed, -⟩ := ha.lineFeed (before ++ rest)
  have hsrc : (a ++ "\n" ++ b).toList = a.toList ++ ['\n'] ++ before ++ rest := by simp [hb]
  have hjoined := tokenize_of_fails (hlineFeed.append hcuts) hsrc hne hkind
  have hlength : (a.toList ++ ['\n'] ++ before).length = a.length + 1 + before.length := by
    rw [List.length_append, List.length_append, String.length_toList, List.length_singleton]
  rw [hlength, failure_shift] at hjoined
  exact ⟨_, tokenize_of_fails hcuts hb hne hkind, hjoined⟩

end

/-- A line feed between two texts ends the first of them as its own end does. -/
theorem tokenize_lineFeed (a b : String) : tokenize (a ++ "\n" ++ b) =
    match tokenize a, tokenize b with
    | .error e, _ => .error e
    | .ok t, .ok u => .ok (t.followedBy (a.length + 1) u)
    | .ok _, .error e => .error (e.shift (a.length + 1)) := by
  obtain ⟨before, rest, gs, ha, hcuts, rfl | hfails⟩ := exists_cuts a.toList
  · rw [List.append_nil] at ha
    have hcutsA : Cuts [] a.toList gs := ha ▸ hcuts
    obtain ⟨before', rest', gs', hb, hcuts', rfl | hfails'⟩ := exists_cuts b.toList
    · rw [List.append_nil] at hb
      have hcutsB : Cuts [] b.toList gs' := hb ▸ hcuts'
      rw [tokenize_of_cuts hcutsA, tokenize_of_cuts hcutsB]
      exact tokenize_lineFeed_of_cuts hcutsA hcutsB
    · obtain ⟨e, heb, hjoined⟩ := tokenize_lineFeed_of_cuts_of_fails hcutsA hb hcuts' hfails'
      rw [tokenize_of_cuts hcutsA, heb]
      exact hjoined
  · obtain ⟨e, hea, hjoined⟩ := tokenize_lineFeed_of_fails ha hcuts hfails b
    rw [hea]
    exact hjoined

end Scriptlet
