import Scriptlet.Proofs.Lexical.Segment

/-!
# Segments by the automaton

`munch` runs the automaton over the characters ahead until a segment ends or fails, without places, without giving
characters back and without a bound on the steps.  If the text begins with a segment, it finds that segment
(`munch_of_isSegment`).  So no text begins with two segments (`IsSegment.unique`), and none is cut in two ways
(`IsCut.unique`).
-/

namespace Scriptlet

open Lexical

/-! ### Classes -/

namespace Lexical

instance : DecidablePred IsLetter := fun c => inferInstanceAs (Decidable (Text.isAlphabetic c = true))

instance : DecidablePred IsDigit := fun c => inferInstanceAs (Decidable (c.isDigit = true))

instance : DecidablePred IsLineBreak := fun c => inferInstanceAs (Decidable (c = '\n' ∨ c = '\r'))

private theorem IsDigit.not_isLetter {c : Char} (h : IsDigit c) : ¬ IsLetter c := by
  unfold IsDigit at h
  unfold IsLetter
  simp only [Char.isDigit, Bool.and_eq_true, decide_eq_true_eq, UInt32.le_iff_toNat_le] at h
  obtain ⟨hlo, hhi⟩ := h
  have hlo' : 48 ≤ c.val.toNat := hlo
  have hhi' : c.val.toNat ≤ 57 := hhi
  rw [Text.isAlphabetic_of_lt (show c.val.toNat < 0x80 by omega)]
  intro halpha
  rcases Bool.or_eq_true_iff.1 (show (c.isUpper || c.isLower) = true from halpha) with hupper | hlower
  · have hl : 65 ≤ c.val.toNat := (of_decide_eq_true hupper).1
    omega
  · have hl : 97 ≤ c.val.toNat := of_decide_eq_true (Bool.and_eq_true_iff.1 hlower).1
    omega

end Lexical

namespace CharClass

variable {c : Char}

/-- The character of a class that has only one. -/
def char? : CharClass → Option Char
  | dot => some '.'
  | quote => some '"'
  | plus => some '+'
  | minus => some '-'
  | comma => some ','
  | colon => some ':'
  | semicolon => some ';'
  | lparen => some '('
  | rparen => some ')'
  | lbrace => some '{'
  | rbrace => some '}'
  | equals => some '='
  | less => some '<'
  | greater => some '>'
  | not => some '!'
  | ampersand => some '&'
  | pipe => some '|'
  | star => some '*'
  | slash => some '/'
  | _ => none

theorem of_eq_letter : of c = letter ↔ IsLetter c := by
  unfold of IsLetter
  split
  · simp [*]
  · split
    · simp [*]
    · split <;> simp [*]

theorem of_eq_digit : of c = digit ↔ IsDigit c := by
  constructor
  · unfold of IsDigit
    split
    · simp
    · split
      · simp [*]
      · split <;> simp
  · intro h
    have hl := h.not_isLetter
    unfold IsLetter at hl
    unfold IsDigit at h
    simp [of, hl, h]

/-- A class that stands for one character has no other. -/
theorem of_eq_of_char? {k : CharClass} {d : Char} (hk : k.char? = some d) : of c = k ↔ c = d := by
  constructor
  · intro h
    unfold of at h
    split at h
    · subst h; cases hk
    · split at h
      · subst h; cases hk
      · split at h <;> subst h <;> first | (cases hk; rfl) | cases hk
  · rintro rfl
    cases k <;> cases hk <;> decide

/-- The class `newline` has the line breaks. -/
theorem of_eq_newline : of c = newline ↔ IsLineBreak c := by
  constructor
  · intro h
    unfold of at h
    split at h
    · cases h
    · split at h
      · cases h
      · split at h <;> first | exact .inl rfl | exact .inr rfl | cases h
  · rintro (rfl | rfl) <;> decide

theorem of_eq_blank : of c = blank ↔ IsBlank c := by
  constructor
  · intro h
    unfold of at h
    split at h
    · cases h
    · split at h
      · cases h
      · split at h <;> first | exact .inl rfl | exact .inr rfl | cases h
  · rintro (rfl | rfl) <;> decide

end CharClass

/-! ### Steps of the automaton -/

namespace State

/-- The state after one more character. -/
def step (st : State) (c : Char) : State := (st.next? (.of c)).getD .unexpectedChar

/-- Only blanks lead to the state in which segments begin. -/
theorem step_newline_ne_initial (st : State) : st.step '\n' ≠ .initial := by cases st <;> decide

variable (c : Char)

/-- A name goes on with letters and digits. -/
theorem step_ident : ident.step c = if IsLetter c ∨ IsDigit c then ident else identEnd := by
  simp only [← CharClass.of_eq_letter, ← CharClass.of_eq_digit, step]
  cases CharClass.of c <;> rfl

/-- An integer goes on with digits, and a point makes it a number with a fraction. -/
theorem step_int : int.step c = if IsDigit c then int else if c = '.' then dot else intEnd := by
  simp only [← CharClass.of_eq_of_char? (show CharClass.dot.char? = _ from rfl), ← CharClass.of_eq_digit, step]
  cases CharClass.of c <;> rfl

/-- After the point there must be a digit. -/
theorem step_dot : dot.step c = if IsDigit c then fraction else malformedNumber := by
  simp only [← CharClass.of_eq_digit, step]
  cases CharClass.of c <;> rfl

theorem step_fraction : fraction.step c = if IsDigit c then fraction else floatEnd := by
  simp only [← CharClass.of_eq_digit, step]
  cases CharClass.of c <;> rfl

/-- A string goes on to its closing quote, and must not come to the end of the line. -/
theorem step_string :
    string.step c = if c = '"' then stringEnd else if IsLineBreak c then unterminatedString else string := by
  simp only [← CharClass.of_eq_of_char? (show CharClass.quote.char? = _ from rfl), ← CharClass.of_eq_newline, step]
  cases CharClass.of c <;> rfl

/-- A comment goes on to the end of the line. -/
theorem step_comment : comment.step c = if IsLineBreak c then commentEnd else comment := by
  simp only [← CharClass.of_eq_newline, step]
  cases CharClass.of c <;> rfl

theorem step_minus : minus.step c = if c = '>' then arrowEnd else minusEnd := by
  simp only [← CharClass.of_eq_of_char? (show CharClass.greater.char? = _ from rfl), step]
  cases CharClass.of c <;> rfl

theorem step_star : star.step c = if c = '*' then starStarEnd else starEnd := by
  simp only [← CharClass.of_eq_of_char? (show CharClass.star.char? = _ from rfl), step]
  cases CharClass.of c <;> rfl

/-- A second slash makes a comment. -/
theorem step_slash : slash.step c = if c = '/' then comment else slashEnd := by
  simp only [← CharClass.of_eq_of_char? (show CharClass.slash.char? = _ from rfl), step]
  cases CharClass.of c <;> rfl

theorem step_equals : equals.step c = if c = '=' then relationEqEnd else assignEnd := by
  simp only [← CharClass.of_eq_of_char? (show CharClass.equals.char? = _ from rfl), step]
  cases CharClass.of c <;> rfl

theorem step_relation : relation.step c = if c = '=' then relationEqEnd else relationEnd := by
  simp only [← CharClass.of_eq_of_char? (show CharClass.equals.char? = _ from rfl), step]
  cases CharClass.of c <;> rfl

/-- One ampersand alone is no symbol. -/
theorem step_ampersand : ampersand.step c = if c = '&' then logicalEnd else malformedLogical := by
  simp only [← CharClass.of_eq_of_char? (show CharClass.ampersand.char? = _ from rfl), step]
  cases CharClass.of c <;> rfl

/-- One bar alone is no symbol. -/
theorem step_pipe : pipe.step c = if c = '|' then logicalEnd else malformedLogical := by
  simp only [← CharClass.of_eq_of_char? (show CharClass.pipe.char? = _ from rfl), step]
  cases CharClass.of c <;> rfl

end State

/-! ### One segment -/

/-- The state of the automaton at the end of a symbol. -/
def Symbol.endState : Symbol → State
  | .starStar => .starStarEnd
  | .andAnd | .orOr => .logicalEnd
  | .eqEq | .notEq | .lessEq | .greaterEq => .relationEqEnd
  | .arrow => .arrowEnd
  | .minus => .minusEnd
  | .star => .starEnd
  | .slash => .slashEnd
  | .assign => .assignEnd
  | .less | .greater | .not => .relationEnd
  | .plus | .comma | .colon | .semicolon | .lparen | .rparen | .lbrace | .rbrace => .punctuationEnd

/-- The state of the automaton at the end of a lexeme of this kind. -/
def TokenKind.endState : TokenKind → State
  | .keyword _ | .identifier _ => .identEnd
  | .intLiteral _ => .intEnd
  | .floatLiteral _ => .floatEnd
  | .stringLiteral _ => .stringEnd
  | .symbol s => s.endState
  | .malformed _ => .unexpectedChar

namespace Lexical

/-- The state of the automaton at the end of a segment. -/
def Segment.endState : Segment → State
  | blank _ => .initial
  | lineBreak _ => .newline
  | comment _ => .commentEnd
  | lexeme kind _ => kind.endState

/-- How the automaton came to an end: the last state, what it has read, and what is ahead. -/
structure Munched where
  state : State
  text : List Char
  rest : List Char
  deriving DecidableEq, Repr

/-- Runs the automaton to the end of a segment, or to where it fails.  The end of the text is a line break. -/
def munch (st : State) (read : List Char) : List Char → Munched
  | [] => ⟨st.step '\n', read, []⟩
  | c :: rest =>
    let next := st.step c
    match next.accept? with
    | some .consume => ⟨next, read ++ [c], rest⟩
    | some .pushBack => ⟨next, read, c :: rest⟩
    | none =>
      if next = .initial then ⟨next, read ++ [c], rest⟩
      else if next.error?.isSome then ⟨next, read, c :: rest⟩
      else munch next (read ++ [c]) rest

section Munch

variable {st next : State} {read text rest : List Char} {c : Char}

theorem munch_goes (h : st.step c = next) (hnext : next ≠ .initial ∧ next.accept? = none ∧ next.error? = none) :
    munch st read (c :: rest) = munch next (read ++ [c]) rest := by
  rw [munch, h]
  simp [hnext]

theorem munch_consume (h : st.step c = next) (hnext : next.accept? = some .consume) :
    munch st read (c :: rest) = ⟨next, read ++ [c], rest⟩ := by
  rw [munch, h]
  simp [hnext]

theorem munch_giveBack (h : st.step c = next) (hnext : next.accept? = some .pushBack) :
    munch st read (c :: rest) = ⟨next, read, c :: rest⟩ := by
  rw [munch, h]
  simp [hnext]

theorem munch_blank (h : st.step c = .initial) : munch st read (c :: rest) = ⟨.initial, read ++ [c], rest⟩ := by
  rw [munch, h]
  simp [State.accept?]

theorem munch_fail {kind : LexErrorKind} (h : st.step c = next) (hnext : next.error? = some kind) :
    munch st read (c :: rest) = ⟨next, read, c :: rest⟩ := by
  rw [munch, h]
  cases next <;> simp [State.error?] at hnext <;> simp [State.accept?, State.error?]

/-- A segment that the next character cannot extend ends before it. -/
private theorem munch_pushBack (h : ∀ c ∈ rest.head?, st.step c = next) (hend : st.step '\n' = next)
    (hnext : next.accept? = some .pushBack) : munch st read rest = ⟨next, read, rest⟩ := by
  cases rest with
  | nil => rw [munch, hend]
  | cons c rest => exact munch_giveBack (h c rfl) hnext

/-- Characters that do not change the state are read. -/
private theorem munch_loop (hst : st ≠ .initial ∧ st.accept? = none ∧ st.error? = none)
    (h : ∀ c ∈ text, st.step c = st) : munch st read (text ++ rest) = munch st (read ++ text) rest := by
  induction text generalizing read with
  | nil => simp
  | cons c text ih =>
    rw [List.cons_append, munch_goes (h c (by simp)) hst, ih fun x hx => h x (by simp [hx])]
    simp

private theorem munch_word (h : IsWord text) (hrest : ∀ c ∈ rest.head?, ¬ (IsLetter c ∨ IsDigit c)) :
    munch .initial [] (text ++ rest) = ⟨.identEnd, text, rest⟩ := by
  obtain ⟨c, cs, rfl, hc, hcs⟩ := h
  have hfirst : State.initial.step c = .ident := by rw [State.step, CharClass.of_eq_letter.2 hc]; rfl
  rw [List.cons_append, munch_goes hfirst (by decide),
    munch_loop (by decide) fun x hx => by rw [State.step_ident, if_pos (hcs x hx)]]
  refine munch_pushBack (fun x hx => ?_) (by decide) rfl
  rw [State.step_ident, if_neg (hrest x hx)]

/-- Digits at the beginning are read as an integer, so far. -/
private theorem munch_digits (h : IsDigits text) : munch .initial [] (text ++ rest) = munch .int text rest := by
  obtain ⟨hne, hdigits⟩ := h
  obtain ⟨c, cs, rfl⟩ := List.exists_cons_of_ne_nil hne
  have hfirst : State.initial.step c = .int := by rw [State.step, CharClass.of_eq_digit.2 (hdigits c (by simp))]; rfl
  rw [List.cons_append, munch_goes hfirst (by decide),
    munch_loop (by decide) fun x hx => by rw [State.step_int, if_pos (hdigits x (by simp [hx]))]]
  rfl

private theorem munch_int (h : IsDigits text) (hrest : ∀ c ∈ rest.head?, ¬ IsDigit c ∧ c ≠ '.') :
    munch .initial [] (text ++ rest) = ⟨.intEnd, text, rest⟩ := by
  rw [munch_digits h]
  refine munch_pushBack (fun x hx => ?_) (by decide) rfl
  rw [State.step_int, if_neg (hrest x hx).1, if_neg (hrest x hx).2]

private theorem munch_float {whole fraction : List Char} (hwhole : IsDigits whole) (hfraction : IsDigits fraction)
    (hrest : ∀ c ∈ rest.head?, ¬ IsDigit c) :
    munch .initial [] (whole ++ '.' :: fraction ++ rest) = ⟨.floatEnd, whole ++ '.' :: fraction, rest⟩ := by
  obtain ⟨hne, hdigits⟩ := hfraction
  obtain ⟨c, cs, rfl⟩ := List.exists_cons_of_ne_nil hne
  have hdot : State.int.step '.' = .dot := by decide
  have hfirst : State.dot.step c = .fraction := by rw [State.step_dot, if_pos (hdigits c (by simp))]
  rw [List.append_assoc, munch_digits hwhole, List.cons_append, munch_goes hdot (by decide), List.cons_append,
    munch_goes hfirst (by decide),
    munch_loop (by decide) fun x hx => by rw [State.step_fraction, if_pos (hdigits x (by simp [hx]))]]
  rw [munch_pushBack (fun x hx => by rw [State.step_fraction, if_neg (hrest x hx)]) (by decide) rfl]
  simp

private theorem munch_string (h : ∀ x ∈ text, x ≠ '"' ∧ ¬ IsLineBreak x) :
    munch .initial [] ('"' :: (text ++ ['"']) ++ rest) = ⟨.stringEnd, '"' :: (text ++ ['"']), rest⟩ := by
  have hopen : State.initial.step '"' = .string := by decide
  have hclose : State.string.step '"' = .stringEnd := by decide
  rw [List.cons_append, munch_goes hopen (by decide), List.append_assoc,
    munch_loop (by decide) fun x hx => by rw [State.step_string, if_neg (h x hx).1, if_neg (h x hx).2]]
  exact munch_consume hclose rfl

/-- Two slashes begin a comment. -/
private theorem munch_comment (h : ∀ x ∈ text, ¬ IsLineBreak x) :
    munch .initial [] ('/' :: '/' :: (text ++ rest)) = munch .comment ('/' :: '/' :: text) rest := by
  have hfirst : State.initial.step '/' = .slash := by decide
  have hsecond : State.slash.step '/' = .comment := by decide
  rw [munch_goes hfirst (by decide), munch_goes hsecond (by decide),
    munch_loop (by decide) fun x hx => by rw [State.step_comment, if_neg (h x hx)]]
  rfl

private theorem munch_two (st : State) {d : Char} (hst : State.initial.step c = st)
    (h : st ≠ .initial ∧ st.accept? = none ∧ st.error? = none) (hnext : st.step d = next)
    (h' : next.accept? = some .consume) : munch .initial [] (c :: d :: rest) = ⟨next, [c, d], rest⟩ := by
  rw [munch_goes hst h, munch_consume hnext h']
  rfl

private theorem munch_before (st : State) (hst : State.initial.step c = st)
    (h : st ≠ .initial ∧ st.accept? = none ∧ st.error? = none) (hnext : ∀ x ∈ rest.head?, st.step x = next)
    (hend : st.step '\n' = next) (h' : next.accept? = some .pushBack) :
    munch .initial [] (c :: rest) = ⟨next, [c], rest⟩ := by
  rw [munch_goes hst h]
  exact munch_pushBack hnext hend h'

private theorem munch_symbol (s : Symbol) (hrest : ∀ c ∈ rest.head?, EndsBefore (.symbol s) c) :
    munch .initial [] (s.text.toList ++ rest) = ⟨s.endState, s.text.toList, rest⟩ := by
  cases s with
  | plus => exact munch_consume (c := '+') (by decide) rfl
  | comma => exact munch_consume (c := ',') (by decide) rfl
  | colon => exact munch_consume (c := ':') (by decide) rfl
  | semicolon => exact munch_consume (c := ';') (by decide) rfl
  | lparen => exact munch_consume (c := '(') (by decide) rfl
  | rparen => exact munch_consume (c := ')') (by decide) rfl
  | lbrace => exact munch_consume (c := '{') (by decide) rfl
  | rbrace => exact munch_consume (c := '}') (by decide) rfl
  | starStar => exact munch_two .star (by decide) (by decide) (by decide) rfl
  | eqEq => exact munch_two .equals (by decide) (by decide) (by decide) rfl
  | notEq | lessEq | greaterEq => exact munch_two .relation (by decide) (by decide) (by decide) rfl
  | andAnd => exact munch_two .ampersand (by decide) (by decide) (by decide) rfl
  | orOr => exact munch_two .pipe (by decide) (by decide) (by decide) rfl
  | arrow => exact munch_two .minus (by decide) (by decide) (by decide) rfl
  | minus =>
    refine munch_before .minus (by decide) (by decide) (fun x hx => ?_) (by decide) rfl
    exact (State.step_minus x).trans (if_neg (hrest x hx))
  | star =>
    refine munch_before .star (by decide) (by decide) (fun x hx => ?_) (by decide) rfl
    exact (State.step_star x).trans (if_neg (hrest x hx))
  | slash =>
    refine munch_before .slash (by decide) (by decide) (fun x hx => ?_) (by decide) rfl
    exact (State.step_slash x).trans (if_neg (hrest x hx))
  | assign =>
    refine munch_before .equals (by decide) (by decide) (fun x hx => ?_) (by decide) rfl
    exact (State.step_equals x).trans (if_neg (hrest x hx))
  | less | greater | not =>
    refine munch_before .relation (by decide) (by decide) (fun x hx => ?_) (by decide) rfl
    exact (State.step_relation x).trans (if_neg (hrest x hx))

/-- The segment with which a text begins is what the automaton finds. -/
theorem munch_of_isSegment {g : Segment} (h : IsSegment g rest) :
    munch .initial [] (g.text ++ rest) = ⟨g.endState, g.text, rest⟩ := by
  cases h with
  | @blank c _ h =>
    have hc : State.initial.step c = .initial := by rw [State.step, CharClass.of_eq_blank.2 h]; rfl
    exact munch_blank hc
  | @lineBreak c _ h =>
    have hc : State.initial.step c = .newline := by rw [State.step, CharClass.of_eq_newline.2 h]; rfl
    exact munch_consume hc rfl
  | comment h hc =>
    have hbreak := (State.step_comment _).trans (if_pos hc)
    simp only [Segment.text, List.cons_append, List.append_assoc]
    rw [munch_comment h]
    exact munch_consume hbreak rfl
  | lastComment h =>
    simp only [Segment.text, List.cons_append]
    rw [munch_comment h]
    exact congrArg (Munched.mk · _ _) (show State.comment.step '\n' = .commentEnd by decide)
  | lexeme h hrest =>
    cases h with
    | keyword h _ | identifier h _ => exact munch_word h hrest
    | int h => exact munch_int h hrest
    | float hwhole hfraction => exact munch_float hwhole hfraction hrest
    | string h => exact munch_string h
    | symbol s => exact munch_symbol s hrest

end Munch

/-! ### No text begins with two segments -/

/-- The kind of a lexeme is found again from its text and the state at its end. -/
theorem IsLexeme.ofLexeme? {kind : TokenKind} {text : List Char} (h : IsLexeme kind text) :
    TokenKind.ofLexeme? kind.endState (String.ofList text) = some kind := by
  cases h with
  | keyword _ hk =>
    rw [← hk]
    simp [TokenKind.endState, TokenKind.ofLexeme?, Keyword.ofText?_text]
  | @identifier text _ hk =>
    have hnone : Keyword.ofText? (String.ofList text) = none := by
      refine Option.eq_none_iff_forall_ne_some.2 fun k hk' => hk k (Keyword.text_of_ofText? hk')
    simp [TokenKind.endState, TokenKind.ofLexeme?, hnone]
  | int _ => rfl
  | float _ _ => rfl
  | @string text _ =>
    have hslice := Text.slice?_append (String.ofList ['"']) (String.ofList text) (String.ofList ['"'])
    have hwhole : String.ofList ('"' :: (text ++ ['"'])) =
        String.ofList ['"'] ++ (String.ofList text ++ String.ofList ['"']) := by
      rw [← String.ofList_append, ← String.ofList_append]
      rfl
    have hsize : (String.ofList ('"' :: (text ++ ['"']))).utf8ByteSize - 1 = 1 + (String.ofList text).utf8ByteSize := by
      rw [hwhole, String.utf8ByteSize_append, String.utf8ByteSize_append]
      exact Nat.add_sub_cancel _ 1
    simp only [TokenKind.endState, TokenKind.ofLexeme?]
    rw [hsize, hwhole]
    exact congrArg (fun o : Option String => some (TokenKind.stringLiteral (o.getD ""))) hslice
  | symbol s =>
    rw [String.ofList_toList]
    cases s <;> rfl

/-- The segment that ends in this state with this text. -/
def Segment.ofEnd (st : State) (text : List Char) : Segment :=
  match st with
  | .initial => .blank (text.headD ' ')
  | .newline => .lineBreak (text.headD '\n')
  | .commentEnd => .comment text
  | _ => .lexeme ((TokenKind.ofLexeme? st (String.ofList text)).getD (.malformed "")) text

private theorem IsSegment.ofEnd {g : Segment} {rest : List Char} (h : IsSegment g rest) :
    Segment.ofEnd g.endState g.text = g := by
  cases h with
  | @lexeme kind text _ h _ =>
    have hend : Segment.ofEnd kind.endState text =
        .lexeme ((TokenKind.ofLexeme? kind.endState (String.ofList text)).getD (.malformed "")) text := by
      cases h with
      | symbol s => cases s <;> rfl
      | _ => rfl
    simp only [Segment.endState, Segment.text, hend, h.ofLexeme?, Option.getD_some]
  | _ => rfl

/-- A text begins with one segment only, so that the longest match is unambiguous. -/
theorem IsSegment.unique {g g' : Segment} {rest rest' : List Char} (h : IsSegment g rest) (h' : IsSegment g' rest')
    (heq : g.text ++ rest = g'.text ++ rest') : g = g' ∧ rest = rest' := by
  have hm := munch_of_isSegment h
  rw [heq, munch_of_isSegment h'] at hm
  injection hm with hstate htext hrest
  exact ⟨by rw [← h.ofEnd, ← h'.ofEnd, hstate, htext], hrest.symm⟩

/-- Only blanks end in the state in which segments begin, and no segment ends in an error. -/
theorem IsSegment.endState_spec {g : Segment} {rest : List Char} (h : IsSegment g rest) :
    g.endState.error? = none ∧ (g.endState.accept? = none ↔ g.endState = .initial) ∧
      (g.endState = .initial → ∀ offset, g.tokens offset = []) := by
  cases h with
  | @lexeme kind _ _ h _ =>
    cases h with
    | symbol s => cases s <;> exact ⟨rfl, by decide, by rintro ⟨⟩⟩
    | _ => exact ⟨rfl, by simp [Segment.endState, TokenKind.endState, State.accept?], by rintro ⟨⟩⟩
  | _ => exact ⟨rfl, by simp [Segment.endState, State.accept?], fun _ _ => rfl⟩

theorem IsSegment.text_ne_nil {g : Segment} {rest : List Char} (h : IsSegment g rest) : g.text ≠ [] := by
  cases h with
  | lexeme h _ =>
    cases h with
    | keyword h _ | identifier h _ =>
      obtain ⟨c, cs, rfl, -⟩ := h
      exact List.cons_ne_nil _ _
    | int h => exact h.1
    | float _ _ => simp [Segment.text]
    | string _ => simp [Segment.text]
    | symbol s => cases s <;> exact List.cons_ne_nil _ _
  | _ => exact List.cons_ne_nil _ _

theorem IsCut.unique {text : List Char} {gs gs' : List Segment} (h : IsCut text gs) (h' : IsCut text gs') :
    gs = gs' := by
  induction h generalizing gs' with
  | nil =>
    generalize htext : ([] : List Char) = text at h'
    cases h' with
    | nil => rfl
    | cons hg _ => exact absurd (List.append_eq_nil_iff.1 htext.symm).1 hg.text_ne_nil
  | @cons g rest gs hg _ ih =>
    generalize htext : g.text ++ rest = text at h'
    cases h' with
    | nil => exact absurd (List.append_eq_nil_iff.1 htext).1 hg.text_ne_nil
    | cons hg' hgs' =>
      obtain ⟨rfl, rfl⟩ := hg.unique hg' htext
      rw [ih hgs']

end Lexical

end Scriptlet
