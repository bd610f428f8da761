import Scriptlet.Proofs.Lines.Scanned

/-!
# Characters and bytes

A scan counts its places twice, in characters and in bytes.  `Scan.Reached.placed`: the two counts never drift apart,
whatever the widths of the characters.  Every place that a scan holds is one of the source (`Place.IsIn`), and the
present lexeme does not start after the character that is scanned next.

So the texts of lexemes are cut out between characters, and what is cut out is what their spans cover
(`tokenize_places`).
-/

namespace Scriptlet

open Lexical

/-! ### Places of a source -/

/-- The place is one of the source: so many characters stand before it, and they take so many bytes in UTF-8. -/
structure Place.IsIn (src : String) (p : Place) : Prop where
  char_le : p.char ≤ src.length
  byte_eq : p.byte = (String.ofList (src.toList.take p.char)).utf8ByteSize

namespace Place

variable {src : String} {p q : Place} {before rest : List Char}

private theorem isIn_of (h : src.toList = before ++ rest) : (Place.of before).IsIn src where
  char_le := by
    rw [← String.length_toList, h, List.length_append]
    exact Nat.le_add_right _ _
  byte_eq := by
    rw [h]
    exact congrArg (fun text => (String.ofList text).utf8ByteSize) List.take_left.symm

private theorem IsIn.eq_of (h : p.IsIn src) : p = Place.of (src.toList.take p.char) := by
  obtain ⟨char, byte⟩ := p
  have hchar : (src.toList.take char).length = char :=
    List.length_take_of_le (Nat.le_trans h.char_le (Nat.le_of_eq String.length_toList.symm))
  rw [Place.of, hchar]
  exact congrArg (Place.mk char) h.byte_eq

/-- What stands before the second of two places: what stands before the first, and what is between them. -/
private theorem take_eq (src : List Char) {i j : Nat} (h : i ≤ j) :
    src.take j = src.take i ++ (src.drop i).take (j - i) := by
  have hj : j = i + (j - i) := (Nat.add_sub_cancel' h).symm
  rw [hj, List.take_add, Nat.add_sub_cancel_left]

/-- Of two places of a source, the one with more characters before it has no fewer bytes before it. -/
private theorem IsIn.byte_le (hp : p.IsIn src) (hq : q.IsIn src) (h : p.char ≤ q.char) : p.byte ≤ q.byte := by
  rw [hp.byte_eq, hq.byte_eq, take_eq src.toList h, String.ofList_append, String.utf8ByteSize_append]
  exact Nat.le_add_right _ _

/-- The text between two places of a source is found by their bytes. -/
private theorem IsIn.slice?_eq (hp : p.IsIn src) (hq : q.IsIn src) (h : p.char ≤ q.char) :
    Text.slice? src p.byte q.byte =
      some (String.ofList ((src.toList.drop p.char).take (q.char - p.char))) := by
  have hsrc : src.toList = src.toList.take p.char ++
      ((src.toList.drop p.char).take (q.char - p.char) ++ src.toList.drop q.char) := by
    rw [← List.append_assoc, ← take_eq src.toList h, List.take_append_drop]
  have hslice := Text.slice?_of hsrc
  rwa [← take_eq src.toList h, ← hp.eq_of, ← hq.eq_of] at hslice

end Place

namespace Scan

variable {src : String} {before ahead : List Char} {s t u : Scan} {g : Glyph} {stop : Place} {e : Located LexError}

/-! ### What a step does to a lexeme -/

private theorem finish_eq_error (h : s.finish src stop = .error e) :
    e.span = s.lexemeSpan stop ∧ e.value.lexeme = s.lexeme src stop := by
  unfold finish at h
  simp only at h
  split at h
  · cases h
  · split at h
    · cases h
    · cases h
      exact ⟨rfl, rfl⟩

/-- A step that fails blames the lexeme up to one of the sides of its character. -/
private theorem step_eq_error (h : t.step src g = .error e) : ∃ stop, (stop = g.start ∨ stop = g.stop) ∧
    e.span = (t.moved g).lexemeSpan stop ∧ e.value.lexeme = (t.moved g).lexeme src stop := by
  cases herror : (t.moved g).state.error? with
  | some kind =>
    rw [step_of_error herror] at h
    cases h
    unfold fail
    simp only
    split
    · exact ⟨g.stop, .inr rfl, rfl, rfl⟩
    · exact ⟨g.start, .inl rfl, rfl, rfl⟩
  | none =>
    cases haccept : (t.moved g).state.accept? with
    | none =>
      rw [step_of_goes herror haccept] at h
      cases h
    | some a =>
      cases a with
      | consume =>
        rw [step_of_consume herror haccept] at h
        obtain ⟨hspan, hlexeme⟩ := finish_eq_error h
        unfold lexemeSpan at hspan
        unfold lexeme at hlexeme
        rw [lexemeStart_trackLine] at hspan hlexeme
        exact ⟨g.stop, .inr rfl, hspan, hlexeme⟩
      | pushBack =>
        rw [step_of_pushBack herror haccept] at h
        obtain ⟨hspan, hlexeme⟩ := finish_eq_error h
        exact ⟨g.start, .inl rfl, hspan, hlexeme⟩

/-- The scan after a step: the token it keeps, if it keeps one, is that of the lexeme up to one of the sides of its
character, which it may give back. -/
structure Continues (src : String) (t : Scan) (g : Glyph) (u : Scan) : Prop where
  here : u.here = t.here
  lexemeStart : u.lexemeStart = (t.moved g).lexemeStart
  pushedBack : u.pushedBack = t.pushedBack ∨ u.pushedBack = some g
  tokens : u.tokens = t.tokens ∨ ∃ stop kind, (stop = g.start ∨ stop = g.stop) ∧
    TokenKind.ofLexeme? (t.moved g).state ((t.moved g).lexeme src stop) = some kind ∧
    u.tokens = t.tokens.push ⟨kind, (t.moved g).lexemeSpan stop⟩

private theorem step_eq_ok (h : t.step src g = .ok u) : Continues src t g u := by
  have htracked : ((t.moved g).trackLine g).lexemeSpan = (t.moved g).lexemeSpan ∧
      ((t.moved g).trackLine g).lexeme src = (t.moved g).lexeme src := by
    unfold lexemeSpan lexeme
    rw [lexemeStart_trackLine]
    exact ⟨rfl, rfl⟩
  rcases step_cases h with ⟨-, rfl⟩ | ⟨-, h⟩ | ⟨-, h⟩
  · exact ⟨here_trackLine, lexemeStart_trackLine, .inl pushedBack_trackLine, .inl tokens_trackLine⟩
  · rcases finish_eq_ok h with rfl | ⟨kind, hkind, rfl⟩
    · exact ⟨here_trackLine, lexemeStart_trackLine, .inl pushedBack_trackLine, .inl tokens_trackLine⟩
    · rw [state_trackLine, htracked.2] at hkind
      refine ⟨here_trackLine, lexemeStart_trackLine, .inl pushedBack_trackLine, .inr ?_⟩
      refine ⟨g.stop, kind, .inr rfl, hkind, ?_⟩
      simp only [tokens_trackLine, htracked.1]
      rfl
  · rcases finish_eq_ok h with rfl | ⟨kind, hkind, rfl⟩
    · exact ⟨rfl, rfl, .inr rfl, .inl rfl⟩
    · exact ⟨rfl, rfl, .inr rfl, .inr ⟨g.start, kind, .inl rfl, hkind, rfl⟩⟩

/-! ### The places that a scan holds -/

/-- The place before the character that is scanned next. -/
def next (s : Scan) : Place := (s.pushedBack.map Glyph.start).getD s.here

private theorem Faces.next_eq (h : s.Faces before ahead) : s.next = Place.of before := by
  cases h with
  | fresh hback _ hhere => simp [next, hback, hhere]
  | again hback _ _ => simp [next, hback]
  | closed hback _ _ => simp [next, hback]

/-- Between two steps: all places are places of the source, and the last lexeme started at or before the character
that is scanned next. -/
structure Placed (src : String) (s : Scan) : Prop where
  here : s.here.IsIn src
  pushedBack : ∀ g, s.pushedBack = some g → g.start.IsIn src ∧ g.stop.IsIn src
  lexemeStart : s.lexemeStart.IsIn src
  start_le : s.lexemeStart.char ≤ s.next.char

private theorem placed_start (src : String) : Placed src (start src) :=
  have hstart : (Place.of []).IsIn src := Place.isIn_of (List.nil_append _).symm
  ⟨hstart, (fun _ hback => nomatch hback), hstart, Nat.le_refl 0⟩

/-- A lexeme of the scan that ends at `stop` can be cut out: it starts and ends at places of the source, the second
not before the first; its text is that of its span, which has not been shortened. -/
structure Cuts (src : String) (s : Scan) (stop : Place) : Prop where
  startIn : s.lexemeStart.IsIn src
  stopIn : stop.IsIn src
  char_le : s.lexemeStart.char ≤ stop.char
  byte_le : s.lexemeStart.byte ≤ stop.byte
  slice : Text.slice? src s.lexemeStart.byte stop.byte = some ((s.lexemeSpan stop).substr src)
  hi : (s.lexemeSpan stop).hi = stop.char

private theorem cuts_of_le (hlen : src.length < 2 ^ 32) (hstart : s.lexemeStart.IsIn src) (hstop : stop.IsIn src)
    (hle : s.lexemeStart.char ≤ stop.char) : Cuts src s stop := by
  -- no span of the source is longer than spans can be
  have hlength : stop.char - s.lexemeStart.char ≤ Span.maxLength := by
    have hchar := hstop.char_le
    unfold Span.maxLength
    omega
  refine ⟨hstart, hstop, hle, hstart.byte_le hstop hle, ?_, Span.hi_ofBounds hle hlength⟩
  rw [hstart.slice?_eq hstop hle]
  unfold lexemeSpan Span.substr Span.ofBounds
  rw [Nat.min_eq_left hlength]

private theorem Cuts.lexeme_eq (h : Cuts src s stop) : s.lexeme src stop = (s.lexemeSpan stop).substr src := by
  unfold lexeme
  rw [h.slice]
  rfl

/-- The character that is scanned next, and the places around it. -/
private structure Upcoming (src : String) (s : Scan) (g : Glyph) (t : Scan) : Prop where
  start : g.start.IsIn src
  stop : g.stop.IsIn src
  le : g.start.char ≤ g.stop.char
  here : t.here.IsIn src
  start_eq : g.start = s.next
  next_le : s.next.char ≤ t.here.char
  same : t.state = s.state ∧ t.lexemeStart = s.lexemeStart

private theorem Tracks.upcoming (hs : Tracks src before ahead s) (hnext : s.next? = some (g, t)) :
    Upcoming src s g t := by
  obtain ⟨before', ahead', h⟩ := hs.takes hnext
  have hback := pushedBack_of_next? hnext
  have hhere : t.here = Place.of before' := by
    have hplace := h.faces.next_eq
    simpa [next, hback] using hplace
  have hplace := hs.faces.next_eq
  refine ⟨?_, ?_, ?_, ?_, h.start_eq.trans hplace.symm, ?_, h.same.1, h.same.2.1⟩
  · rw [h.start_eq]
    exact Place.isIn_of hs.source
  · rw [h.stop_eq]
    exact Place.isIn_of h.source
  · rw [h.start_eq, h.stop_eq]
    exact h.length_le
  · rw [hhere]
    exact Place.isIn_of h.source
  · rw [hplace, hhere]
    exact h.length_le

/-- The present lexeme starts at a place of the source, at or before the character being scanned. -/
private theorem Placed.moved (hp : Placed src s) (h : Upcoming src s g t) :
    (t.moved g).lexemeStart.IsIn src ∧ (t.moved g).lexemeStart.char ≤ g.start.char := by
  simp only [Scan.moved]
  split
  · exact ⟨h.start, Nat.le_refl _⟩
  · rw [h.same.2, h.start_eq]
    exact ⟨hp.lexemeStart, hp.start_le⟩

private theorem Placed.step (hp : Placed src s) (hs : Tracks src before ahead s) (hnext : s.next? = some (g, t))
    (hstep : t.step src g = .ok u) : Placed src u := by
  have h := hs.upcoming hnext
  have hcontinues := step_eq_ok hstep
  obtain ⟨hstart, hle⟩ := hp.moved h
  refine ⟨hcontinues.here ▸ h.here, fun g' hg' => ?_, hcontinues.lexemeStart ▸ hstart, ?_⟩
  · rcases hcontinues.pushedBack with hback | hback
    · rw [hback, pushedBack_of_next? hnext] at hg'
      cases hg'
    · rw [hback] at hg'
      cases hg'
      exact ⟨h.start, h.stop⟩
  · rw [hcontinues.lexemeStart]
    rcases hcontinues.pushedBack with hback | hback
    · have hplace : u.next = t.here := by
        rw [next, hback, pushedBack_of_next? hnext, hcontinues.here]
        rfl
      rw [hplace]
      exact Nat.le_trans (h.start_eq ▸ hle) h.next_le
    · have hplace : u.next = g.start := by
        rw [next, hback]
        rfl
      rw [hplace]
      exact hle

/-- The scans of a text hold places of the text only. -/
theorem Reached.placed (h : Reached src s) : Placed src s := by
  induction h with
  | start => exact placed_start src
  | step hs hnext hstep ih =>
    obtain ⟨before, ahead, htracks⟩ := hs.tracks
    exact ih.step htracks hnext hstep

/-! ### Lexemes -/

/-- The present lexeme can be cut out up to the character being scanned, and with this character. -/
private theorem Reached.cuts (hlen : src.length < 2 ^ 32) (h : Reached src s) (hnext : s.next? = some (g, t)) :
    Cuts src (t.moved g) g.start ∧ Cuts src (t.moved g) g.stop := by
  obtain ⟨before, ahead, htracks⟩ := h.tracks
  have hupcoming := htracks.upcoming hnext
  obtain ⟨hstart, hle⟩ := h.placed.moved hupcoming
  constructor
  · exact cuts_of_le hlen hstart hupcoming.start hle
  · exact cuts_of_le hlen hstart hupcoming.stop (Nat.le_trans hle hupcoming.le)

private theorem step_eq_stringEnd {st : State} {c : Char} (h : st.step c = .stringEnd) : st = .string ∧ c = '"' := by
  have hclass : st = .string ∧ CharClass.of c = .quote := by
    unfold State.step at h
    cases st <;> cases hc : CharClass.of c <;> simp [hc, State.next?] at h ⊢
  exact ⟨hclass.1, (CharClass.of_eq_of_char? rfl).1 hclass.2⟩

/-- The lexeme of a string has its two quotes, and what is between them can be cut out. -/
private theorem Reached.quotes (hlen : src.length < 2 ^ 32) (h : Reached src s) (hnext : s.next? = some (g, t))
    (hend : (t.moved g).state = .stringEnd) : ∃ text : String,
      ((t.moved g).lexemeSpan g.stop).substr src = "\"" ++ (text ++ "\"") ∧
        Text.slice? ("\"" ++ (text ++ "\"")) 1 (("\"" ++ (text ++ "\"")).utf8ByteSize - 1) = some text := by
  obtain ⟨-, hcuts⟩ := h.cuts hlen hnext
  obtain ⟨before, read, ahead, ⟨tokens, hwithin⟩, hreading, -⟩ := h.stands
  have hstep : s.state.step g.char = .stringEnd := state_of_next? hnext ▸ hend
  obtain ⟨hstate, hchar⟩ := step_eq_stringEnd hstep
  rw [hstate] at hreading
  cases hreading with
  | @string text _ =>
    cases ahead with
    | nil =>
      -- the line break that closes the source is no quote
      have hne : s.state ≠ .initial := by simp [hstate]
      have hstarted := hwithin.started
      rw [if_neg hne] at hstarted
      rw [hwithin.faces.next?_nil hstarted.2 hne] at hnext
      cases hnext
      simp at hchar
    | cons c ahead =>
      have hnext' := hnext
      rw [hwithin.faces.next?] at hnext'
      cases hnext'
      obtain rfl : c = '"' := hchar
      have hsource : src.toList = before ++ (('"' :: text) ++ ['"'] ++ ahead) := by
        rw [hwithin.source, List.append_assoc, List.singleton_append]
      have hstart := lexemeStart_moved
        (g := ⟨'"', Place.of (before ++ '"' :: text), Place.of (before ++ '"' :: text ++ ['"'])⟩) hwithin rfl
      have hlexeme := lexeme_eq hsource hstart
      have htext : String.ofList ('"' :: text ++ ['"']) = "\"" ++ (String.ofList text ++ "\"") := by
        rw [← List.singleton_append, List.append_assoc, String.ofList_append, String.ofList_append]
      have hslice := Text.slice?_append "\"" (String.ofList text) "\""
      refine ⟨String.ofList text, ?_, ?_⟩
      · rw [← hcuts.lexeme_eq, ← htext, ← hlexeme, List.append_assoc]
        rfl
      · rw [← hslice]
        have hsize : ("\"" ++ (String.ofList text ++ "\"")).utf8ByteSize - 1 =
            "\"".utf8ByteSize + (String.ofList text).utf8ByteSize := by
          simp only [String.utf8ByteSize_append]
          exact Nat.add_sub_cancel _ 1
        rw [hsize]
        rfl

/-- The next step of a scan, on a character.  The present lexeme can be cut out on both sides of the character; if it
is a string, its quotes can be removed.  The error of the step, or the token that it keeps, is for the text cut out at
one of these sides. -/
structure Slices (src : String) (t : Scan) (g : Glyph) : Prop where
  start : Cuts src (t.moved g) g.start
  stop : Cuts src (t.moved g) g.stop
  quotes : (t.moved g).state = .stringEnd → ∃ text : String,
    ((t.moved g).lexemeSpan g.stop).substr src = "\"" ++ (text ++ "\"") ∧
      Text.slice? ("\"" ++ (text ++ "\"")) 1 (("\"" ++ (text ++ "\"")).utf8ByteSize - 1) = some text
  error : ∀ e, t.step src g = .error e → ∃ stop, (stop = g.start ∨ stop = g.stop) ∧
    e.span = (t.moved g).lexemeSpan stop ∧ e.value.lexeme = e.span.substr src
  token : ∀ u, t.step src g = .ok u → u.tokens = t.tokens ∨ ∃ stop kind, (stop = g.start ∨ stop = g.stop) ∧
    TokenKind.ofLexeme? (t.moved g).state (((t.moved g).lexemeSpan stop).substr src) = some kind ∧
    u.tokens = t.tokens.push ⟨kind, (t.moved g).lexemeSpan stop⟩

private theorem Reached.slices (hlen : src.length < 2 ^ 32) (h : Reached src s) (hnext : s.next? = some (g, t)) :
    Slices src t g := by
  obtain ⟨hstart, hstop⟩ := h.cuts hlen hnext
  have hlexeme {stop : Place} (hside : stop = g.start ∨ stop = g.stop) :
      (t.moved g).lexeme src stop = ((t.moved g).lexemeSpan stop).substr src := by
    rcases hside with rfl | rfl
    · exact hstart.lexeme_eq
    · exact hstop.lexeme_eq
  refine ⟨hstart, hstop, h.quotes hlen hnext, fun e he => ?_, fun u hu => ?_⟩
  · obtain ⟨stop, hside, hspan, htext⟩ := step_eq_error he
    refine ⟨stop, hside, hspan, ?_⟩
    rw [htext, hspan, hlexeme hside]
  · rcases (step_eq_ok hu).tokens with hsame | ⟨stop, kind, hside, hkind, htokens⟩
    · exact .inl hsame
    · rw [hlexeme hside] at hkind
      exact .inr ⟨stop, kind, hside, hkind, htokens⟩

/-! ### Runs -/

/-- A run from a scan of the text ends in one, or at a step from one that fails. -/
private theorem Reached.run (h : Reached src s) (fuel : Nat) :
    (∀ u, run src fuel s = .ok u → Reached src u) ∧
      ∀ e, run src fuel s = .error e → ∃ s t g, Reached src s ∧ s.next? = some (g, t) ∧ t.step src g = .error e := by
  induction fuel generalizing s with
  | zero =>
    refine ⟨fun u hu => ?_, fun e he => ?_⟩
    · cases hu
      exact h
    · cases he
  | succ fuel ih =>
    cases hnext : s.next? with
    | none =>
      rw [Scan.run, hnext]
      refine ⟨fun u hu => ?_, fun e he => ?_⟩
      · cases hu
        exact h
      · cases he
    | some gt =>
      obtain ⟨g, t⟩ := gt
      rw [run_succ hnext]
      cases hstep : t.step src g with
      | ok v => exact ih (.step h hnext hstep)
      | error e =>
        refine ⟨fun u hu => ?_, fun e' he => ?_⟩
        · cases hu
        · cases he
          exact ⟨s, t, g, h, hnext, hstep⟩

end Scan

/-- In a source shorter than the greatest span, characters and bytes are counted alike.  Every scan of the source holds
places of it only, and each step cuts lexemes out at places of it, in order, so that the texts that are cut out are
those that the spans cover.  The scans of the source are all that `tokenize` goes through. -/
theorem tokenize_places (src : String) (hlen : src.length < 2 ^ 32) :
    (∀ s, Scan.Reached src s →
      Scan.Placed src s ∧ ∀ g t, s.next? = some (g, t) → Scan.Slices src t g) ∧
    (∀ t, tokenize src = .ok t → ∃ s, Scan.Reached src s ∧ t = ⟨s.tokens.toList, s.lines⟩) ∧
    ∀ e, tokenize src = .error e → ∃ s t g, Scan.Reached src s ∧ s.next? = some (g, t) ∧ t.step src g = .error e := by
  obtain ⟨hok, herror⟩ := (Scan.Reached.start : Scan.Reached src (.start src)).run (2 * (src.length + 1))
  refine ⟨fun s hs => ⟨hs.placed, fun g t hnext => hs.slices hlen hnext⟩, fun t ht => ?_, fun e he => ?_⟩
  · obtain ⟨s, hrun, rfl⟩ := tokenize_eq_ok.1 ht
    exact ⟨s, hok s hrun, rfl⟩
  · exact herror e (tokenize_eq_error.1 he)

/-- A letter of two bytes in a name, which the next character ends. -/
theorem wide_name_places : ∃ s g t, Scan.Reached "é+" s ∧ s.next? = some (g, t) ∧
    (t.moved g).lexemeStart = ⟨0, 0⟩ ∧ g.start = ⟨1, 2⟩ ∧ g.stop = ⟨2, 3⟩ ∧ Scan.Cuts "é+" (t.moved g) ⟨1, 2⟩ ∧
      Text.slice? "é+" 0 2 = some (Span.substr ⟨0, 1⟩ "é+") := by
  obtain ⟨hscan, -⟩ := tokenize_places "é+" (by decide)
  let s : Scan := ⟨['+'], ⟨1, 2⟩, none, .ident, ⟨0, 0⟩, #[], .empty⟩
  have hstep : Scan.step "é+" ⟨['+'], ⟨1, 2⟩, none, .initial, ⟨0, 0⟩, #[], .empty⟩ ⟨'é', ⟨0, 0⟩, ⟨1, 2⟩⟩ = .ok s := by
    decide +kernel
  have hs : Scan.Reached "é+" s := .step .start rfl hstep
  have hcuts := ((hscan s hs).2 ⟨'+', ⟨1, 2⟩, ⟨2, 3⟩⟩ _ rfl).start
  exact ⟨s, _, _, hs, rfl, rfl, rfl, rfl, hcuts, hcuts.slice⟩

end Scriptlet
