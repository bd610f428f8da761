import Scriptlet.Proofs.Lexical.Equivalence

/-!
# Malformed lexemes

`tokenize_error_spec`: where a text cannot be cut any further, the error has the kind, the text and the place of what
stands there, which is malformed in one way only (`IsMalformed`), and what is before can be cut.

It follows a scan step by step.  A scan that has been reached stands in a lexeme whose beginning is known from its
state (`Scan.Stands`), and a step leads to another such place unless the automaton comes to an error state.  So neither
of the two errors that `Scan.step` keeps in reserve, for a state without a rule and for a symbol of no known text, is
ever made.
-/

namespace Scriptlet

namespace Lexical

/-! ### Classification -/

/-- The characters of symbols. -/
def IsPunctuation (c : Char) : Prop := ∃ s : Symbol, c ∈ s.text.toList

/-- What stands before the rest of the text is no beginning of a lexeme, or one that cannot be completed. -/
inductive IsMalformed : LexErrorKind → List Char → List Char → Prop where
  | unexpectedChar {c : Char} {rest : List Char} :
    c = '.' ∨ ¬ IsLetter c ∧ ¬ IsDigit c ∧ ¬ IsBlank c ∧ ¬ IsLineBreak c ∧ c ≠ '"' ∧ ¬ IsPunctuation c →
      IsMalformed .unexpectedChar [c] rest
  | number {digits rest : List Char} :
    IsDigits digits → (∀ c ∈ rest.head?, ¬ IsDigit c) → IsMalformed .malformedNumber (digits ++ ['.']) rest
  | string {text rest : List Char} : (∀ x ∈ text, x ≠ '"' ∧ ¬ IsLineBreak x) →
    (∀ c ∈ rest.head?, IsLineBreak c) → IsMalformed .unterminatedString ('"' :: text) rest
  | logicalOperator {c : Char} {rest : List Char} :
    c = '&' ∨ c = '|' → (∀ d ∈ rest.head?, d ≠ c) → IsMalformed .malformedLogicalOperator [c] rest

variable {kind kind' : LexErrorKind} {st : State} {read text rest : List Char} {c : Char}

private theorem IsMalformed.text_ne_nil (h : IsMalformed kind text rest) : text ≠ [] := by
  cases h <;> simp

/-- What no character can complete is not completed by the end of the text either. -/
private theorem IsMalformed.at_end (h : IsMalformed kind text rest) : IsMalformed kind text [] := by
  cases h with
  | unexpectedChar h => exact .unexpectedChar h
  | number h _ => exact .number h (by simp)
  | string h _ => exact .string h (by simp)
  | logicalOperator h _ => exact .logicalOperator h (by simp)

/-- The only way in which a lexeme with this text can be malformed, found by its first character. -/
private def kindOf : List Char → LexErrorKind
  | [] => .unexpectedChar
  | c :: _ =>
    if c = '"' then .unterminatedString
    else if c = '&' ∨ c = '|' then .malformedLogicalOperator
    else if c.isDigit = true then .malformedNumber
    else .unexpectedChar

private theorem isPunctuation_logical (h : c = '&' ∨ c = '|') : IsPunctuation c := by
  rcases h with rfl | rfl
  · exact ⟨.andAnd, by decide⟩
  · exact ⟨.orOr, by decide⟩

private theorem IsMalformed.eq_kindOf (h : IsMalformed kind text rest) : kind = kindOf text := by
  cases h with
  | @unexpectedChar c _ h =>
    rcases h with rfl | ⟨-, hdigit, -, -, hquote, hpunctuation⟩
    · rfl
    · have hlogical : ¬ (c = '&' ∨ c = '|') := fun h => hpunctuation (isPunctuation_logical h)
      unfold IsDigit at hdigit
      simp [kindOf, hquote, hlogical, hdigit]
  | number h _ =>
    obtain ⟨hne, hdigits⟩ := h
    obtain ⟨d, ds, rfl⟩ := List.exists_cons_of_ne_nil hne
    have hd : IsDigit d := hdigits d List.mem_cons_self
    have hquote : d ≠ '"' := by
      rintro rfl
      exact absurd hd (by decide)
    have hlogical : ¬ (d = '&' ∨ d = '|') := by
      rintro (rfl | rfl)
      · exact absurd hd (by decide)
      · exact absurd hd (by decide)
    unfold IsDigit at hd
    simp [kindOf, hquote, hlogical, hd]
  | string _ _ => rfl
  | logicalOperator h _ => rcases h with rfl | rfl <;> rfl

/-- A text is malformed in one way only. -/
private theorem IsMalformed.unique (h : IsMalformed kind text rest) (h' : IsMalformed kind' text rest) : kind = kind' :=
  h.eq_kindOf.trans h'.eq_kindOf.symm

/-! ### Failing states -/

/-- Symbols have no characters outside the alphabet. -/
private theorem IsPunctuation.of_ne_outside (h : IsPunctuation c) : CharClass.of c ≠ .outside := by
  obtain ⟨s, hs⟩ := h
  have hall : s.text.toList.all (CharClass.of · ≠ .outside) = true := by cases s <;> rfl
  simpa using List.all_eq_true.1 hall c hs

/-- A character that begins no lexeme is a dot or stands outside the alphabet. -/
private theorem unexpected_of_class (h : CharClass.of c = .dot ∨ CharClass.of c = .outside) :
    c = '.' ∨ ¬ IsLetter c ∧ ¬ IsDigit c ∧ ¬ IsBlank c ∧ ¬ IsLineBreak c ∧ c ≠ '"' ∧ ¬ IsPunctuation c := by
  rcases h with h | h
  · exact .inl ((CharClass.of_eq_of_char? rfl).1 h)
  · refine .inr ⟨fun hc => ?_, fun hc => ?_, fun hc => ?_, fun hc => ?_, fun hc => ?_, fun hc => hc.of_ne_outside h⟩
    · cases h.symm.trans (CharClass.of_eq_letter.2 hc)
    · cases h.symm.trans (CharClass.of_eq_digit.2 hc)
    · cases h.symm.trans (CharClass.of_eq_blank.2 hc)
    · cases h.symm.trans (CharClass.of_eq_newline.2 hc)
    · cases h.symm.trans ((CharClass.of_eq_of_char? (k := .quote) rfl).2 hc)

/-- Every character has a class with a meaning of its own. -/
private theorem of_ne_other : CharClass.of c ≠ .other := by
  unfold CharClass.of
  split
  · simp
  · split
    · simp
    · split <;> simp

/-- The states in which a lexeme has not ended have a rule for every class of characters. -/
private theorem Reading.next?_isSome (h : Reading st read) (k : CharClass) : (st.next? k).isSome = true := by
  cases h <;> cases k <;> rfl

private theorem Reading.read_ne_nil (h : Reading st read) (hst : st ≠ .initial) : read ≠ [] := by
  cases h with
  | initial => exact absurd rfl hst
  | ident h =>
    obtain ⟨c, cs, rfl, -⟩ := h
    simp
  | int h => exact h.1
  | relation h => rcases h with rfl | rfl | rfl <;> decide
  | _ => simp

/-- A state of failure says what is wrong with what has been read, or with the first character. -/
private theorem Reading.isMalformed (h : Reading st read) (herror : (st.step c).error? = some kind) (rest : List Char) :
    read = [] ∧ IsMalformed kind [c] rest ∨ read ≠ [] ∧ IsMalformed kind read (c :: rest) := by
  cases h with
  | initial =>
    rw [State.step] at herror
    refine .inl ⟨rfl, ?_⟩
    cases hc : CharClass.of c with
    | dot =>
      rw [hc] at herror
      cases herror
      exact .unexpectedChar (unexpected_of_class (.inl hc))
    | outside =>
      rw [hc] at herror
      cases herror
      exact .unexpectedChar (unexpected_of_class (.inr hc))
    | other => exact absurd hc of_ne_other
    | _ => simp [hc, State.next?, State.error?] at herror
  | dot h =>
    rw [State.step_dot] at herror
    split at herror
    · cases herror
    · next hc =>
      cases herror
      exact .inr ⟨by simp, .number h (by simpa using hc)⟩
  | string h =>
    rw [State.step_string] at herror
    split at herror
    · cases herror
    · split at herror
      · next hc =>
        cases herror
        exact .inr ⟨by simp, .string h (by simpa using hc)⟩
      · cases herror
  | ampersand =>
    rw [State.step_ampersand] at herror
    split at herror
    · cases herror
    · next hc =>
      cases herror
      exact .inr ⟨by simp, .logicalOperator (.inl rfl) (by simpa using hc)⟩
  | pipe =>
    rw [State.step_pipe] at herror
    split at herror
    · cases herror
    · next hc =>
      cases herror
      exact .inr ⟨by simp, .logicalOperator (.inr rfl) (by simpa using hc)⟩
  | ident _ =>
    rw [State.step_ident] at herror
    split at herror <;> cases herror
  | int _ =>
    rw [State.step_int] at herror
    split at herror
    · cases herror
    · split at herror <;> cases herror
  | fraction _ _ =>
    rw [State.step_fraction] at herror
    split at herror <;> cases herror
  | slash =>
    rw [State.step_slash] at herror
    split at herror <;> cases herror
  | comment _ =>
    rw [State.step_comment] at herror
    split at herror <;> cases herror
  | star =>
    rw [State.step_star] at herror
    split at herror <;> cases herror
  | equals =>
    rw [State.step_equals] at herror
    split at herror <;> cases herror
  | relation _ =>
    rw [State.step_relation] at herror
    split at herror <;> cases herror
  | minus =>
    rw [State.step_minus] at herror
    split at herror <;> cases herror

/-! ### What is before -/

/-- What is before is cut together with any beginning of what is ahead that is cut. -/
def Splits (before ahead : List Char) : Prop :=
  ∀ text, text <+: ahead → (∃ gs, IsCut text gs) → ∃ gs, IsCut (before ++ text) gs

/-- A segment stands before any part of the rest. -/
private theorem IsSegment.of_prefix {g : Segment} (h : IsSegment g rest) (ht : text <+: rest) : IsSegment g text := by
  cases h with
  | blank h => exact .blank h
  | lineBreak h => exact .lineBreak h
  | comment h hc => exact .comment h hc
  | lastComment h =>
    obtain rfl := List.prefix_nil.1 ht
    exact .lastComment h
  | lexeme h hrest =>
    refine .lexeme h fun c hc => hrest c ?_
    obtain ⟨more, rfl⟩ := ht
    cases text with
    | nil => cases hc
    | cons d text => exact hc

private theorem splits_nil (ahead : List Char) : Splits [] ahead := fun _ _ h => h

private theorem Splits.segment {before : List Char} {g : Segment} (h : Splits before (g.text ++ rest))
    (hg : IsSegment g rest) : Splits (before ++ g.text) rest := by
  rintro text ht ⟨gs, hgs⟩
  have hcut := h (g.text ++ text) ((List.prefix_append_right_inj g.text).2 ht) ⟨_, .cons (hg.of_prefix ht) hgs⟩
  rwa [← List.append_assoc] at hcut

private theorem Splits.isCut {before ahead : List Char} (h : Splits before ahead) : ∃ gs, IsCut before gs := by
  have hcut := h [] List.nil_prefix ⟨[], .nil⟩
  rwa [List.append_nil] at hcut

end Lexical

open Lexical

namespace Scan

/-! ### Steps -/

/-- The scan has read `read` of a segment, and what is before it has been cut. -/
structure Stands (src : String) (s : Scan) (before read ahead : List Char) : Prop where
  within : ∃ tokens, Within src before read ahead tokens s
  reading : Reading s.state read
  splits : Splits before (read ++ ahead)

/-- The error is that of the malformed lexeme with this text, which stands between these parts of the source. -/
structure Blames (src : String) (e : Located LexError) (before text rest : List Char) : Prop where
  source : src.toList = before ++ (text ++ rest)
  isCut : ∃ gs, IsCut before gs
  malformed : IsMalformed e.value.kind text rest
  state_error : e.value.state.error? = some e.value.kind
  lexeme_eq : e.value.lexeme = String.ofList text
  span_eq : e.span = .ofBounds before.length (before.length + text.length)

variable {src : String} {before read ahead text rest : List Char} {tokens : List Token} {s t : Scan} {g : Glyph}
  {kind : LexErrorKind}

private theorem stands_start (src : String) : Stands src (start src) [] [] src.toList :=
  ⟨⟨[], (between_start src).within⟩, .initial, splits_nil _⟩

private theorem Between.stands (hs : Between src before ahead tokens s) (h : Splits before ahead) :
    Stands src s before [] ahead :=
  ⟨⟨tokens, hs.within⟩, hs.state_eq ▸ .initial, h⟩

/-- Taking a character does not change the state of the automaton. -/
theorem state_of_next? (hnext : s.next? = some (g, t)) : t.state = s.state := by
  unfold next? at hnext
  split at hnext
  · cases hnext
    rfl
  · cases hnext
    rfl
  · split at hnext
    · cases hnext
    · cases hnext
      rfl

/-- The error of a scan that has failed on a lexeme. -/
private theorem blames_fail (hcut : ∃ gs, IsCut before gs) (hsource : src.toList = before ++ (text ++ rest))
    (hstart : t.lexemeStart = Place.of before) (hkind : t.state.error? = some kind)
    (hstop : (if t.lexemeStart = g.start then g.stop else g.start) = Place.of (before ++ text))
    (hmalformed : IsMalformed kind text rest) : Blames src (t.fail src kind g) before text rest := by
  rw [fail_eq hstart hsource hstop]
  exact ⟨hsource, hcut, hmalformed, hkind, rfl, rfl⟩

/-- A step comes to the next place of the text, or fails on a malformed lexeme. -/
def Proceeds (src : String) (t : Scan) (g : Glyph) : Prop :=
  (∃ u before read ahead, t.step src g = .ok u ∧ Stands src u before read ahead) ∨
    ∃ kind before text rest, (t.moved g).state.error? = some kind ∧
      Blames src ((t.moved g).fail src kind g) before text rest

/-- The step on a character of the text. -/
private theorem Stands.step_cons {c : Char} {ahead : List Char} (hs : Stands src s before read (c :: ahead))
    (hnext : s.next? = some (g, t)) : Proceeds src t g := by
  obtain ⟨⟨tokens, hwithin⟩, hreading, hsplits⟩ := hs
  have hnext' := hnext
  rw [hwithin.faces.next?] at hnext'
  obtain ⟨rfl, rfl⟩ := Prod.mk.inj (Option.some.inj hnext')
  have hstart := lexemeStart_moved (g := ⟨c, Place.of (before ++ read), Place.of (before ++ read ++ [c])⟩) hwithin rfl
  cases herror : (s.state.step c).error? with
  | some kind =>
    refine .inr ⟨kind, before, ?_⟩
    rcases hreading.isMalformed herror ahead with ⟨rfl, hmalformed⟩ | ⟨hread, hmalformed⟩
    · refine ⟨[c], ahead, herror, ?_⟩
      exact blames_fail hsplits.isCut hwithin.source hstart herror
        ((if_pos (hstart.trans (by rw [List.append_nil]))).trans (by rw [List.append_nil])) hmalformed
    · refine ⟨read, c :: ahead, herror, ?_⟩
      exact blames_fail hsplits.isCut hwithin.source hstart herror
        (if_neg fun h => hread (Place.of_inj_append.1 (hstart.symm.trans h))) hmalformed
  | none =>
    refine .inl ?_
    cases haccept : (s.state.step c).accept? with
    | none =>
      obtain ⟨u, hstep, hstate, hwithin', hbetween⟩ := step_goes hwithin hnext herror haccept
      by_cases hinitial : s.state.step c = .initial
      · obtain ⟨rfl, hc⟩ := hreading.isBlank hinitial
        have hblank : Splits (before ++ [c]) ahead := hsplits.segment (g := .blank c) (.blank hc)
        exact ⟨u, before ++ [c], [], ahead, hstep, (hbetween (hstate.trans hinitial)).stands hblank⟩
      · have hne : u.state ≠ .initial := hstate ▸ hinitial
        refine ⟨u, before, read ++ [c], ahead, hstep, ⟨tokens, hwithin' hne⟩, ?_, by simpa using hsplits⟩
        exact hstate ▸ hreading.step hinitial haccept herror
    | some a =>
      have hne : s.state.step c ≠ .initial := by
        intro h
        rw [h] at haccept
        cases haccept
      cases a with
      | consume =>
        obtain ⟨seg, htext, hend, hseg⟩ := hreading.isSegment haccept
        have hsource : src.toList = before ++ (seg.text ++ ahead) := by
          rw [hwithin.source, htext, List.append_assoc, List.singleton_append]
        have hstop : Place.of (before ++ read ++ [c]) = Place.of (before ++ seg.text) := by
          rw [htext, List.append_assoc]
        obtain ⟨u, hstep, hbetween⟩ := step_end
          { s with pushedBack := none, rest := ahead, here := Place.of (before ++ read ++ [c]) } (hseg ahead) hend.symm
          (hend ▸ hne) hstart hsource hwithin.tokens_eq (fun _ => ⟨hstop, .fresh rfl rfl hstop⟩)
          (fun h => by rw [hend, haccept] at h; cases h)
        refine ⟨u, before ++ seg.text, [], ahead, hstep, hbetween.stands (Splits.segment ?_ (hseg ahead))⟩
        rw [htext, List.append_assoc]
        exact hsplits
      | pushBack =>
        obtain ⟨k, hlexeme, hend, hbefore⟩ := hreading.isLexeme haccept
        have hseg : IsSegment (.lexeme k read) (c :: ahead) := .lexeme hlexeme (by simpa using hbefore)
        have hend : (Segment.lexeme k read).endState = s.state.step c := hend
        obtain ⟨u, hstep, hbetween⟩ := step_end
          { s with pushedBack := none, rest := ahead, here := Place.of (before ++ read ++ [c]) } hseg hend.symm
          (hend ▸ hne) hstart hwithin.source hwithin.tokens_eq
          (fun h => by rw [hend, haccept] at h; cases h)
          (fun _ => ⟨rfl, .again rfl rfl rfl⟩)
        exact ⟨u, before ++ read, [], c :: ahead, hstep, hbetween.stands (hsplits.segment hseg)⟩

/-- The step on the line break that closes the text. -/
private theorem Stands.step_nil (hs : Stands src s before read []) (hnext : s.next? = some (g, t)) :
    Proceeds src t g := by
  obtain ⟨⟨tokens, hwithin⟩, hreading, hsplits⟩ := hs
  by_cases hinitial : s.state = .initial
  · have hread : read = [] := by simpa [hinitial] using hwithin.started
    subst hread
    obtain ⟨u, hstep, -, hbetween⟩ := step_closed ⟨hwithin, hinitial⟩ hnext
    exact .inl ⟨u, before, [], [], hstep, hbetween.stands hsplits⟩
  · obtain ⟨hstart', hback⟩ : s.lexemeStart = Place.of before ∧ s.pushedBack = none := by
      simpa [hinitial] using hwithin.started
    rw [hwithin.faces.next?_nil hback hinitial] at hnext
    obtain ⟨rfl, rfl⟩ := Prod.mk.inj (Option.some.inj hnext)
    have hstart := lexemeStart_moved (g := ⟨'\n', Place.of (before ++ read), Place.of (before ++ read)⟩) hwithin rfl
    rcases hreading.end hinitial with ⟨seg, rfl, hend, hseg⟩ | herror
    · have hclosed : Faces
          { s with pushedBack := some ⟨'\n', Place.of (before ++ seg.text), Place.of (before ++ seg.text)⟩ }
          (before ++ seg.text) [] := by
        cases hwithin.faces with
        | fresh _ hrest hhere => exact .closed rfl hrest hhere
        | closed _ hrest hhere => exact .closed rfl hrest hhere
      obtain ⟨u, hstep, hbetween⟩ := step_end s hseg hend.symm (hend ▸ State.step_newline_ne_initial _) hstart
        hwithin.source hwithin.tokens_eq (fun _ => ⟨rfl, hwithin.faces⟩) (fun _ => ⟨rfl, hclosed⟩)
      exact .inl ⟨u, before ++ seg.text, [], [], hstep, hbetween.stands (hsplits.segment hseg)⟩
    · obtain ⟨kind, hkind⟩ := Option.isSome_iff_exists.1 herror
      have hread := hreading.read_ne_nil hinitial
      rcases hreading.isMalformed hkind [] with ⟨hnil, -⟩ | ⟨-, hmalformed⟩
      · exact absurd hnil hread
      · refine .inr ⟨kind, before, read, [], hkind, ?_⟩
        exact blames_fail hsplits.isCut hwithin.source hstart hkind (ite_self _) hmalformed.at_end

private theorem Stands.step (hs : Stands src s before read ahead) (hnext : s.next? = some (g, t)) :
    Proceeds src t g := by
  cases ahead with
  | cons c ahead => exact hs.step_cons hnext
  | nil => exact hs.step_nil hnext

/-! ### Runs -/

/-- The scan is one that the source is scanned with. -/
inductive Reached (src : String) : Scan → Prop where
  | start : Reached src (start src)
  | step {s t u : Scan} {g : Glyph} : Reached src s → s.next? = some (g, t) → t.step src g = .ok u → Reached src u

/-- Every scan that is reached stands inside a lexeme of the text. -/
theorem Reached.stands (h : Reached src s) : ∃ before read ahead, Stands src s before read ahead := by
  induction h with
  | start => exact ⟨[], [], src.toList, stands_start src⟩
  | step _ hnext hstep ih =>
    obtain ⟨before, read, ahead, hs⟩ := ih
    rcases hs.step hnext with ⟨u, before', read', ahead', hok, hu⟩ | ⟨kind, _, _, _, hkind, -⟩
    · rw [hok] at hstep
      cases hstep
      exact ⟨before', read', ahead', hu⟩
    · rw [step_of_error hkind] at hstep
      cases hstep

private theorem Stands.run_error (hs : Stands src s before read ahead) {fuel : Nat} {e : Located LexError}
    (hrun : run src fuel s = .error e) : ∃ before text rest, Blames src e before text rest := by
  induction fuel generalizing s before read ahead with
  | zero => cases hrun
  | succ fuel ih =>
    cases hnext : s.next? with
    | none =>
      rw [run, hnext] at hrun
      cases hrun
    | some gt =>
      rcases hs.step hnext with ⟨u, before', read', ahead', hstep, hu⟩ | ⟨kind, before', text, rest, hkind, hblames⟩
      · rw [run_of_step hnext hstep] at hrun
        exact ih hu hrun
      · rw [run_succ hnext, step_of_error hkind] at hrun
        cases hrun
        exact ⟨before', text, rest, hblames⟩

end Scan

/-- What cannot be cut is blamed for it. -/
private theorem blames_of_tokenize_error {src : String} {e : Located LexError} (he : tokenize src = .error e) :
    ∃ before text rest, Scan.Blames src e before text rest :=
  (Scan.stands_start src).run_error (tokenize_eq_error.1 he)

/-- An error of the lexer is for a malformed lexeme of the text: its kind is the only one that fits this lexeme and
what comes after it, its span and its text are those of the lexeme, and what is before the lexeme is tokenized.  And
no scan of a text comes to a state without a rule for the next character, or to an error without an error state. -/
theorem tokenize_error_spec (src : String) :
    (∀ e, src.length ≤ Span.maxLength → tokenize src = .error e → ∃ before text rest : List Char,
      src.toList = before ++ (text ++ rest) ∧ (∃ t, tokenize (String.ofList before) = .ok t) ∧ text ≠ [] ∧
        e.span = ⟨before.length, text.length⟩ ∧ e.value.lexeme = String.ofList text ∧
          e.value.lexeme = e.span.substr src ∧ e.value.state.error? = some e.value.kind ∧
            ∀ kind, IsMalformed kind text rest ↔ kind = e.value.kind) ∧
    ∀ s t g, Scan.Reached src s → s.next? = some (g, t) → (t.state.next? (.of g.char)).isSome = true ∧
      ∀ e, t.step src g = .error e →
        ∃ kind, (t.moved g).state.error? = some kind ∧ e = (t.moved g).fail src kind g := by
  refine ⟨fun e hlen he => ?_, fun s t g hs hnext => ?_⟩
  · obtain ⟨before, text, rest, h⟩ := blames_of_tokenize_error he
    obtain ⟨gs, hgs⟩ := h.isCut
    rw [← String.toList_ofList (l := before)] at hgs
    obtain ⟨lines, ht⟩ := tokenize_of_isCut hgs
    have htotal : before.length + (text.length + rest.length) = src.length := by
      rw [← String.length_toList, h.source, List.length_append, List.length_append]
    have hspan : e.span = ⟨before.length, text.length⟩ := by
      rw [h.span_eq, Span.ofBounds, Nat.add_sub_cancel_left, Nat.min_eq_left (by omega)]
    have hsubstr : e.span.substr src = String.ofList text := by
      rw [hspan]
      simp [Span.substr, h.source]
    refine ⟨before, text, rest, h.source, ⟨_, ht⟩, h.malformed.text_ne_nil, hspan, h.lexeme_eq, ?_, h.state_error, ?_⟩
    · rw [h.lexeme_eq, hsubstr]
    · intro kind
      constructor
      · exact fun hkind => hkind.unique h.malformed
      · rintro rfl
        exact h.malformed
  · obtain ⟨before, read, ahead, hstands⟩ := hs.stands
    have hstate := Scan.state_of_next? hnext
    refine ⟨hstate ▸ hstands.reading.next?_isSome _, fun e he => ?_⟩
    rcases hstands.step hnext with ⟨u, _, _, _, hok, -⟩ | ⟨kind, _, _, _, hkind, -⟩
    · rw [hok] at he
      cases he
    · rw [Scan.step_of_error hkind] at he
      cases he
      exact ⟨kind, hkind, rfl⟩

/-- A number that ends with its dot. -/
theorem dot_malformed : "1.".length ≤ Span.maxLength ∧ ∃ e, tokenize "1." = .error e ∧
    ∃ before text rest : List Char, "1.".toList = before ++ (text ++ rest) ∧ e.span = ⟨before.length, text.length⟩ ∧
      IsMalformed .malformedNumber text rest := by
  have hlen : "1.".length ≤ Span.maxLength := by decide
  have hmunch : munch (Scan.start "1.").state [] "1.".toList = ⟨.malformedNumber, ['1', '.'], []⟩ := by decide
  obtain ⟨k, hk, hrun⟩ := Scan.run_failure (Scan.between_start "1.").within (by decide) hmunch rfl
  have hfuel : 2 * ("1.".length + 1) = 2 * ("1.".length + 1) - k + k := by
    have hlength : "1.".length = 2 := by decide
    simp only [List.length_nil, List.length_cons] at hk
    omega
  have he : tokenize "1." = .error (Scan.failure 0 ⟨.malformedNumber, ['1', '.'], []⟩ .malformedNumber) := by
    unfold tokenize
    rw [hfuel, hrun]
    rfl
  obtain ⟨before, text, rest, hsource, -, -, hspan, -, -, -, hkind⟩ := (tokenize_error_spec "1.").1 _ hlen he
  exact ⟨hlen, _, he, before, text, rest, hsource, hspan, (hkind _).2 rfl⟩

end Scriptlet
