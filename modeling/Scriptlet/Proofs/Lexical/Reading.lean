import Scriptlet.Proofs.Lexical.Munch

/-!
# What the states of the automaton say

In each state that does not end a segment, what has been read is known up to the characters themselves (`Reading`): one
lemma says so for the next character, and one for each way in which a segment ends.  With these, whatever `munch` finds
is a segment, and where it fails the text does not begin with one (`munch_spec`).
-/

namespace Scriptlet.Lexical

private theorem IsDigits.append_singleton {text : List Char} {c : Char} (h : IsDigits text) (hc : IsDigit c) :
    IsDigits (text ++ [c]) :=
  ⟨by simp, List.forall_mem_append.2 ⟨h.2, List.forall_mem_singleton.2 hc⟩⟩

/-- What may have been read in a state in which a segment has not ended. -/
inductive Reading : State → List Char → Prop where
  | initial : Reading .initial []
  | ident {text : List Char} : IsWord text → Reading .ident text
  | int {text : List Char} : IsDigits text → Reading .int text
  | dot {text : List Char} : IsDigits text → Reading .dot (text ++ ['.'])
  | fraction {whole text : List Char} : IsDigits whole → IsDigits text → Reading .fraction (whole ++ '.' :: text)
  | slash : Reading .slash ['/']
  | comment {text : List Char} : (∀ x ∈ text, ¬ IsLineBreak x) → Reading .comment ('/' :: '/' :: text)
  | string {text : List Char} : (∀ x ∈ text, x ≠ '"' ∧ ¬ IsLineBreak x) → Reading .string ('"' :: text)
  | star : Reading .star ['*']
  | ampersand : Reading .ampersand ['&']
  | pipe : Reading .pipe ['|']
  | equals : Reading .equals ['=']
  | relation {s : Symbol} : s = .less ∨ s = .greater ∨ s = .not → Reading .relation s.text.toList
  | minus : Reading .minus ['-']

/-- A word is the lexeme of a keyword or of an identifier. -/
private theorem IsWord.isLexeme {text : List Char} (h : IsWord text) :
    ∃ kind, IsLexeme kind text ∧ kind.endState = .identEnd ∧ ∀ c, EndsBefore kind c ↔ ¬ (IsLetter c ∨ IsDigit c) := by
  by_cases hk : ∃ k : Keyword, k.text = String.ofList text
  · obtain ⟨k, hk⟩ := hk
    exact ⟨.keyword k, .keyword h hk, rfl, fun _ => Iff.rfl⟩
  · exact ⟨.identifier (String.ofList text), .identifier h fun k h' => hk ⟨k, h'⟩, rfl, fun _ => Iff.rfl⟩

section Reading

variable {st : State} {read : List Char} {c : Char}

/-- A symbol that one more character could make longer ends before any other. -/
private theorem Reading.isLexeme_symbol (s : Symbol) {p : Prop} [Decidable p] {longer : State}
    (hstep : st.step c = if p then longer else s.endState) (hlonger : longer.accept? ≠ some .pushBack)
    (hend : (st.step c).accept? = some .pushBack) (hbefore : ¬ p → EndsBefore (.symbol s) c) :
    ∃ kind, IsLexeme kind s.text.toList ∧ kind.endState = st.step c ∧ EndsBefore kind c := by
  by_cases hp : p
  · rw [hstep, if_pos hp] at hend
    exact absurd hend hlonger
  · rw [hstep, if_neg hp]
    exact ⟨.symbol s, .symbol s, rfl, hbefore hp⟩

/-- A state that gives the next character back has read a lexeme that ends before it. -/
theorem Reading.isLexeme (h : Reading st read) (hend : (st.step c).accept? = some .pushBack) :
    ∃ kind, IsLexeme kind read ∧ kind.endState = st.step c ∧ EndsBefore kind c := by
  cases h with
  | initial =>
    rw [State.step] at hend
    cases hc : CharClass.of c <;> simp [hc, State.next?, State.accept?] at hend
  | ident h =>
    obtain ⟨kind, hkind, hstate, hbefore⟩ := h.isLexeme
    rw [State.step_ident] at hend ⊢
    split at hend
    · cases hend
    · next hc => exact ⟨kind, hkind, by rw [if_neg hc, hstate], (hbefore c).2 hc⟩
  | int h =>
    rw [State.step_int] at hend ⊢
    split at hend
    · cases hend
    · split at hend
      · cases hend
      · next hdigit hdot => exact ⟨_, .int h, by rw [if_neg hdigit, if_neg hdot]; rfl, hdigit, hdot⟩
  | fraction hwhole h =>
    rw [State.step_fraction] at hend ⊢
    split at hend
    · cases hend
    · next hc => exact ⟨_, .float hwhole h, by rw [if_neg hc]; rfl, hc⟩
  | slash => exact isLexeme_symbol .slash (State.step_slash c) (by decide) hend id
  | star => exact isLexeme_symbol .star (State.step_star c) (by decide) hend id
  | equals => exact isLexeme_symbol .assign (State.step_equals c) (by decide) hend id
  | minus => exact isLexeme_symbol .minus (State.step_minus c) (by decide) hend id
  | relation hs =>
    rcases hs with rfl | rfl | rfl <;> exact isLexeme_symbol _ (State.step_relation c) (by decide) hend id
  | dot _ =>
    rw [State.step_dot] at hend
    split at hend <;> cases hend
  | comment _ =>
    rw [State.step_comment] at hend
    split at hend <;> cases hend
  | string _ =>
    rw [State.step_string] at hend
    split at hend
    · cases hend
    · split at hend <;> cases hend
  | ampersand =>
    rw [State.step_ampersand] at hend
    split at hend <;> cases hend
  | pipe =>
    rw [State.step_pipe] at hend
    split at hend <;> cases hend

/-- A symbol that ends with this character may stand before anything. -/
private theorem isSegment_symbol (s : Symbol) (hs : ∀ c, EndsBefore (.symbol s) c) (rest : List Char) :
    IsSegment (.lexeme (.symbol s) s.text.toList) rest := .lexeme (.symbol s) fun c _ => hs c

private theorem Reading.isSegment_symbol (s : Symbol) {p : Prop} [Decidable p] {shorter : State}
    (hstep : st.step c = if p then s.endState else shorter) (hshorter : shorter.accept? ≠ some .consume)
    (hend : (st.step c).accept? = some .consume) (htext : p → s.text.toList = read ++ [c])
    (hs : ∀ c, EndsBefore (.symbol s) c) :
    ∃ g : Segment, g.text = read ++ [c] ∧ g.endState = st.step c ∧ ∀ rest, IsSegment g rest := by
  by_cases hp : p
  · rw [hstep, if_pos hp]
    exact ⟨.lexeme (.symbol s) s.text.toList, htext hp, rfl, Lexical.isSegment_symbol s hs⟩
  · rw [hstep, if_neg hp] at hend
    exact absurd hend hshorter

/-- A state that takes the next character into the lexeme has then read a segment. -/
theorem Reading.isSegment (h : Reading st read) (hend : (st.step c).accept? = some .consume) :
    ∃ g : Segment, g.text = read ++ [c] ∧ g.endState = st.step c ∧ ∀ rest, IsSegment g rest := by
  cases h with
  | initial =>
    have hsymbol (s : Symbol) {k : CharClass} {d : Char} (hk : k.char? = some d) (hc : CharClass.of c = k)
        (htext : s.text.toList = [d]) (hstate : State.initial.next? k = some s.endState)
        (hs : ∀ c, EndsBefore (.symbol s) c) :
        ∃ g : Segment, g.text = [c] ∧ g.endState = State.initial.step c ∧ ∀ rest, IsSegment g rest := by
      refine ⟨.lexeme (.symbol s) s.text.toList, ?_, ?_, Lexical.isSegment_symbol s hs⟩
      · rw [(CharClass.of_eq_of_char? hk).1 hc]
        exact htext
      · rw [State.step, hc, hstate]
        rfl
    rw [State.step] at hend
    cases hc : CharClass.of c with
    | newline =>
      exact ⟨.lineBreak c, rfl, by rw [State.step, hc]; rfl, fun _ => .lineBreak (CharClass.of_eq_newline.1 hc)⟩
    | plus => exact hsymbol .plus rfl hc rfl rfl fun _ => trivial
    | comma => exact hsymbol .comma rfl hc rfl rfl fun _ => trivial
    | colon => exact hsymbol .colon rfl hc rfl rfl fun _ => trivial
    | semicolon => exact hsymbol .semicolon rfl hc rfl rfl fun _ => trivial
    | lparen => exact hsymbol .lparen rfl hc rfl rfl fun _ => trivial
    | rparen => exact hsymbol .rparen rfl hc rfl rfl fun _ => trivial
    | lbrace => exact hsymbol .lbrace rfl hc rfl rfl fun _ => trivial
    | rbrace => exact hsymbol .rbrace rfl hc rfl rfl fun _ => trivial
    | _ => simp [hc, State.next?, State.accept?] at hend
  | comment h =>
    rw [State.step_comment] at hend ⊢
    split at hend
    · next hc => exact ⟨.comment _, rfl, by rw [if_pos hc]; rfl, fun _ => .comment h hc⟩
    · cases hend
  | string h =>
    rw [State.step_string] at hend ⊢
    split at hend
    · next hc =>
      subst hc
      exact ⟨.lexeme _ _, rfl, rfl, fun _ => .lexeme (.string h) fun _ _ => trivial⟩
    · split at hend <;> cases hend
  | star => exact isSegment_symbol .starStar (State.step_star c) (by decide) hend (by rintro rfl; rfl) fun _ => trivial
  | ampersand =>
    exact isSegment_symbol .andAnd (State.step_ampersand c) (by decide) hend (by rintro rfl; rfl) fun _ => trivial
  | pipe => exact isSegment_symbol .orOr (State.step_pipe c) (by decide) hend (by rintro rfl; rfl) fun _ => trivial
  | equals => exact isSegment_symbol .eqEq (State.step_equals c) (by decide) hend (by rintro rfl; rfl) fun _ => trivial
  | minus => exact isSegment_symbol .arrow (State.step_minus c) (by decide) hend (by rintro rfl; rfl) fun _ => trivial
  | relation hs =>
    rcases hs with rfl | rfl | rfl
    · exact isSegment_symbol .lessEq (State.step_relation c) (by decide) hend (by rintro rfl; rfl) fun _ => trivial
    · exact isSegment_symbol .greaterEq (State.step_relation c) (by decide) hend (by rintro rfl; rfl) fun _ => trivial
    · exact isSegment_symbol .notEq (State.step_relation c) (by decide) hend (by rintro rfl; rfl) fun _ => trivial
  | ident _ =>
    rw [State.step_ident] at hend
    split at hend <;> cases hend
  | int _ =>
    rw [State.step_int] at hend
    split at hend
    · cases hend
    · split at hend <;> cases hend
  | dot _ =>
    rw [State.step_dot] at hend
    split at hend <;> cases hend
  | fraction _ _ =>
    rw [State.step_fraction] at hend
    split at hend <;> cases hend
  | slash =>
    rw [State.step_slash] at hend
    split at hend <;> cases hend

/-- Only blanks lead to the state in which segments begin, and they are segments. -/
theorem Reading.isBlank (h : Reading st read) (hinitial : st.step c = .initial) : read = [] ∧ IsBlank c := by
  cases h with
  | initial =>
    rw [State.step] at hinitial
    cases hc : CharClass.of c with
    | blank => exact ⟨rfl, CharClass.of_eq_blank.1 hc⟩
    | _ => simp [hc, State.next?] at hinitial
  | _ =>
    rw [State.step] at hinitial
    cases hc : CharClass.of c <;> simp [hc, State.next?] at hinitial

/-- A state that is not the last one of a segment says what has been read. -/
theorem Reading.step (h : Reading st read) (hinitial : st.step c ≠ .initial) (haccept : (st.step c).accept? = none)
    (herror : (st.step c).error? = none) : Reading (st.step c) (read ++ [c]) := by
  cases h with
  | initial =>
    rw [State.step] at hinitial haccept herror ⊢
    cases hc : CharClass.of c with
    | letter => exact .ident ⟨c, [], rfl, CharClass.of_eq_letter.1 hc, by simp⟩
    | digit => exact .int ⟨by simp, by simpa using CharClass.of_eq_digit.1 hc⟩
    | quote =>
      obtain rfl := (CharClass.of_eq_of_char? rfl).1 hc
      exact .string (by simp)
    | minus =>
      obtain rfl := (CharClass.of_eq_of_char? rfl).1 hc
      exact .minus
    | star =>
      obtain rfl := (CharClass.of_eq_of_char? rfl).1 hc
      exact .star
    | slash =>
      obtain rfl := (CharClass.of_eq_of_char? rfl).1 hc
      exact .slash
    | equals =>
      obtain rfl := (CharClass.of_eq_of_char? rfl).1 hc
      exact .equals
    | less =>
      obtain rfl := (CharClass.of_eq_of_char? rfl).1 hc
      exact Reading.relation (.inl rfl)
    | greater =>
      obtain rfl := (CharClass.of_eq_of_char? rfl).1 hc
      exact Reading.relation (.inr (.inl rfl))
    | not =>
      obtain rfl := (CharClass.of_eq_of_char? rfl).1 hc
      exact Reading.relation (.inr (.inr rfl))
    | ampersand =>
      obtain rfl := (CharClass.of_eq_of_char? rfl).1 hc
      exact .ampersand
    | pipe =>
      obtain rfl := (CharClass.of_eq_of_char? rfl).1 hc
      exact .pipe
    | _ => simp [hc, State.next?, State.accept?, State.error?] at hinitial haccept herror
  | ident h =>
    rw [State.step_ident] at haccept ⊢
    split at haccept
    · next hc =>
      obtain ⟨d, ds, rfl, hd, hds⟩ := h
      rw [if_pos hc]
      exact .ident ⟨d, ds ++ [c], rfl, hd, List.forall_mem_append.2 ⟨hds, List.forall_mem_singleton.2 hc⟩⟩
    · cases haccept
  | int h =>
    rw [State.step_int] at haccept ⊢
    split at haccept
    · next hc =>
      rw [if_pos hc]
      exact .int (h.append_singleton hc)
    · next hc =>
      split at haccept
      · next hdot =>
        subst hdot
        rw [if_neg hc, if_pos rfl]
        exact .dot h
      · cases haccept
  | dot h =>
    rw [State.step_dot] at herror ⊢
    split at herror
    · next hc =>
      rw [if_pos hc, List.append_assoc]
      exact .fraction h ⟨by simp, by simpa using hc⟩
    · cases herror
  | fraction hwhole h =>
    rw [State.step_fraction] at haccept ⊢
    split at haccept
    · next hc =>
      rw [if_pos hc, List.append_assoc]
      exact .fraction hwhole (h.append_singleton hc)
    · cases haccept
  | slash =>
    rw [State.step_slash] at haccept ⊢
    split at haccept
    · next hc =>
      subst hc
      have hempty : Reading .comment ('/' :: '/' :: []) := .comment (by simp)
      exact hempty
    · cases haccept
  | comment h =>
    rw [State.step_comment] at haccept ⊢
    split at haccept
    · cases haccept
    · next hc =>
      rw [if_neg hc]
      exact .comment (List.forall_mem_append.2 ⟨h, List.forall_mem_singleton.2 hc⟩)
  | string h =>
    rw [State.step_string] at haccept herror ⊢
    split at haccept
    · cases haccept
    · next hquote =>
      split at haccept
      · next hbreak =>
        rw [if_neg hquote, if_pos hbreak] at herror
        cases herror
      · next hbreak =>
        rw [if_neg hquote, if_neg hbreak]
        exact .string (List.forall_mem_append.2 ⟨h, List.forall_mem_singleton.2 ⟨hquote, hbreak⟩⟩)
  | star =>
    rw [State.step_star] at haccept
    split at haccept <;> cases haccept
  | ampersand =>
    rw [State.step_ampersand] at haccept herror
    split at haccept
    · cases haccept
    · next hc =>
      rw [if_neg hc] at herror
      cases herror
  | pipe =>
    rw [State.step_pipe] at haccept herror
    split at haccept
    · cases haccept
    · next hc =>
      rw [if_neg hc] at herror
      cases herror
  | equals =>
    rw [State.step_equals] at haccept
    split at haccept <;> cases haccept
  | relation _ =>
    rw [State.step_relation] at haccept
    split at haccept <;> cases haccept
  | minus =>
    rw [State.step_minus] at haccept
    split at haccept <;> cases haccept

/-- At the end of the text a segment ends, or fails, as before a line break. -/
theorem Reading.end (h : Reading st read) (hst : st ≠ .initial) :
    (∃ g : Segment, g.text = read ∧ g.endState = st.step '\n' ∧ IsSegment g []) ∨ (st.step '\n').error?.isSome := by
  cases haccept : (st.step '\n').accept? with
  | none =>
    refine .inr ?_
    cases h with
    | initial => exact absurd rfl hst
    | dot _ | string _ | ampersand | pipe => decide
    | _ => exact absurd haccept (by decide)
  | some a =>
    refine .inl ?_
    cases a with
    | pushBack =>
      obtain ⟨kind, hkind, hstate, -⟩ := h.isLexeme haccept
      exact ⟨.lexeme kind read, rfl, hstate, .lexeme hkind (by simp)⟩
    | consume =>
      cases h with
      | initial => exact absurd rfl hst
      | comment h =>
        exact ⟨.comment _, rfl, show State.commentEnd = State.comment.step '\n' by decide, .lastComment h⟩
      | _ => exact absurd haccept (by decide)

end Reading

/-- What the automaton finds is a segment, or a text that it fails on after a beginning that is none. -/
theorem munch_spec {ahead : List Char} : ∀ {st : State} {read : List Char}, Reading st read →
    (ahead = [] → st ≠ .initial) → ∀ {m : Munched}, munch st read ahead = m →
    read ++ ahead = m.text ++ m.rest ∧
      ((∃ g : Segment, g.text = m.text ∧ g.endState = m.state ∧ IsSegment g m.rest) ∨ m.state.error?.isSome) := by
  induction ahead with
  | nil =>
    rintro st read h hst m rfl
    exact ⟨rfl, h.end (hst rfl)⟩
  | cons c rest ih =>
    rintro st read h - m rfl
    cases haccept : (st.step c).accept? with
    | some a =>
      cases a with
      | consume =>
        obtain ⟨g, htext, hstate, hg⟩ := h.isSegment haccept
        rw [munch_consume rfl haccept]
        exact ⟨by simp, .inl ⟨g, htext, hstate, hg rest⟩⟩
      | pushBack =>
        obtain ⟨kind, hkind, hstate, hbefore⟩ := h.isLexeme haccept
        rw [munch_giveBack rfl haccept]
        exact ⟨rfl, .inl ⟨.lexeme kind read, rfl, hstate, .lexeme hkind (by simpa using hbefore)⟩⟩
    | none =>
      by_cases hinitial : st.step c = .initial
      · obtain ⟨rfl, hc⟩ := h.isBlank hinitial
        rw [munch_blank hinitial]
        exact ⟨rfl, .inl ⟨.blank c, rfl, rfl, .blank hc⟩⟩
      · cases herror : (st.step c).error? with
        | some kind =>
          rw [munch_fail rfl herror]
          exact ⟨rfl, .inr (Option.isSome_of_eq_some herror)⟩
        | none =>
          rw [munch_goes rfl ⟨hinitial, haccept, herror⟩]
          obtain ⟨htext, hm⟩ := ih (h.step hinitial haccept herror) (fun _ => hinitial) rfl
          exact ⟨by rw [← htext]; simp, hm⟩

end Scriptlet.Lexical
