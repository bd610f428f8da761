import Scriptlet.Proofs.Lexical.Equivalence

/-!
# Printed tokens are read back

`tokenize_of_isPrinted`: tokens that are written one after the other, with something between any two of them that
begins with a space or a line break, are the tokens of the text.  Such a character ends every lexeme
(`IsLexeme.endsBefore`), so that nothing need be known of which lexemes may stand next to each other; and what comes
after it, spaces and whole comments, makes no tokens (`IsFiller.isCut`).
-/

namespace Scriptlet

open Lexical

/-! ### Texts of tokens -/

namespace Lexical

/-- Blanks and line breaks. -/
def IsSpace (c : Char) : Prop := IsBlank c ∨ IsLineBreak c

/-- Any run of blanks, line breaks and comments, each comment with the line break that ends it. -/
inductive IsFiller : List Char → Prop where
  | nil : IsFiller []
  | space {c : Char} {rest : List Char} : IsSpace c → IsFiller rest → IsFiller (c :: rest)
  | comment {text rest : List Char} {c : Char} : (∀ x ∈ text, ¬ IsLineBreak x) → IsLineBreak c → IsFiller rest →
    IsFiller ('/' :: '/' :: (text ++ c :: rest))

/-- What stands between two lexemes: a blank or a line break, and then any run of these and of comments. -/
def IsGap (text : List Char) : Prop := ∃ c rest, text = c :: rest ∧ IsSpace c ∧ IsFiller rest

end Lexical

/-- The token can be written: its text is that of a name, a number or a string as the token says, and a name is no
keyword. -/
def TokenKind.IsPrintable : TokenKind → Prop
  | .keyword _ | .symbol _ => True
  | .identifier name => IsWord name.toList ∧ ∀ k : Keyword, k.text ≠ name
  | .intLiteral text => IsDigits text.toList
  | .floatLiteral text => ∃ whole fraction, text.toList = whole ++ '.' :: fraction ∧ IsDigits whole ∧ IsDigits fraction
  | .stringLiteral text => ∀ c ∈ text.toList, c ≠ '"' ∧ ¬ IsLineBreak c
  | .malformed _ => False

/-- How a token is written, a string with its quotes. -/
def TokenKind.printed : TokenKind → List Char
  | .stringLiteral text => '"' :: (text.toList ++ ['"'])
  | kind => kind.text.toList

/-- The text has these tokens, one after the other, with a gap between any two of them. -/
inductive IsPrinted : List TokenKind → List Char → Prop where
  | nil : IsPrinted [] []
  | last (kind : TokenKind) : IsPrinted [kind] kind.printed
  | cons {kind next : TokenKind} {kinds : List TokenKind} {gap text : List Char} :
    IsGap gap → IsPrinted (next :: kinds) text → IsPrinted (kind :: next :: kinds) (kind.printed ++ (gap ++ text))

/-! ### Lexemes and gaps -/

namespace Lexical

variable {kind : TokenKind} {text rest : List Char} {c : Char}

/-- Keywords are spelled with letters. -/
theorem isWord_keyword (k : Keyword) : IsWord k.text.toList := by
  have hletters : ∀ x ∈ k.text.toList, IsLetter x := by cases k <;> exact forall_mem_of_all (by decide)
  cases htext : k.text.toList with
  | nil => cases k <;> cases htext
  | cons c cs =>
    rw [htext] at hletters
    exact ⟨c, cs, rfl, hletters c List.mem_cons_self, fun x hx => .inl (hletters x (List.mem_cons_of_mem c hx))⟩

/-- A token that is printed is a lexeme of its kind. -/
theorem isLexeme_printed (h : kind.IsPrintable) : IsLexeme kind kind.printed := by
  cases kind with
  | keyword k => exact .keyword (isWord_keyword k) String.ofList_toList.symm
  | symbol s => exact .symbol s
  | identifier name =>
    obtain ⟨hword, hk⟩ := h
    have hlexeme := IsLexeme.identifier hword (by rwa [String.ofList_toList])
    rwa [String.ofList_toList] at hlexeme
  | intLiteral text =>
    have hlexeme := IsLexeme.int h
    rwa [String.ofList_toList] at hlexeme
  | floatLiteral text =>
    obtain ⟨whole, fraction, htext, hwhole, hfraction⟩ := h
    have hlexeme := IsLexeme.float hwhole hfraction
    rwa [← htext, String.ofList_toList] at hlexeme
  | stringLiteral text =>
    have hlexeme := IsLexeme.string h
    rwa [String.ofList_toList] at hlexeme
  | malformed text => exact h.elim

/-- Blanks and line breaks end every lexeme. -/
theorem IsLexeme.endsBefore (h : IsLexeme kind text) (hc : IsSpace c) : EndsBefore kind c := by
  have hnot : ¬ IsLetter c ∧ ¬ IsDigit c ∧ c ≠ '.' ∧ c ≠ '>' ∧ c ≠ '*' ∧ c ≠ '/' ∧ c ≠ '=' := by
    rcases hc with (rfl | rfl) | (rfl | rfl) <;> decide
  obtain ⟨hletter, hdigit, hdot, hgreater, hstar, hslash, hequals⟩ := hnot
  cases h with
  | keyword | identifier =>
    intro hword
    rcases hword with h | h
    · exact hletter h
    · exact hdigit h
  | int => exact ⟨hdigit, hdot⟩
  | float => exact hdigit
  | string => trivial
  | symbol s =>
    cases s with
    | minus => exact hgreater
    | star => exact hstar
    | slash => exact hslash
    | assign | less | greater | not => exact hequals
    | _ => trivial

private theorem isSegment_printed (h : kind.IsPrintable) (hrest : ∀ c ∈ rest.head?, IsSpace c) :
    IsSegment (.lexeme kind kind.printed) rest :=
  .lexeme (isLexeme_printed h) fun c hc => (isLexeme_printed h).endsBefore (hrest c hc)

/-- The kind of token that a segment makes, if it makes one. -/
def Segment.kind? : Segment → Option TokenKind
  | lexeme kind _ => some kind
  | _ => none

private theorem kind_tokensFrom (offset : Nat) (gs : List Segment) :
    (tokensFrom offset gs).map Token.kind = gs.filterMap Segment.kind? := by
  induction gs generalizing offset with
  | nil => rfl
  | cons g gs ih =>
    rw [tokensFrom, List.map_append, ih]
    cases g <;> rfl

/-- A blank or a line break is a segment without a token. -/
private theorem IsSpace.isSegment (hc : IsSpace c) (rest : List Char) :
    ∃ g : Segment, g.text = [c] ∧ g.kind? = none ∧ IsSegment g rest := by
  rcases hc with hc | hc
  · exact ⟨.blank c, rfl, rfl, .blank hc⟩
  · exact ⟨.lineBreak c, rfl, rfl, .lineBreak hc⟩

/-- What is cut may be preceded by a filler, which adds no tokens. -/
theorem IsFiller.isCut {gs : List Segment} (h : IsFiller text) (hgs : IsCut rest gs) :
    ∃ gs', IsCut (text ++ rest) gs' ∧ gs'.filterMap Segment.kind? = gs.filterMap Segment.kind? := by
  induction h with
  | nil => exact ⟨gs, hgs, rfl⟩
  | @space c text hc _ ih =>
    obtain ⟨gs', hcut, hkinds⟩ := ih
    obtain ⟨g, htext, hnone, hg⟩ := hc.isSegment (text ++ rest)
    have hcut' := IsCut.cons hg hcut
    rw [htext] at hcut'
    exact ⟨g :: gs', hcut', by simpa [hnone] using hkinds⟩
  | @comment comment text c hcomment hc _ ih =>
    obtain ⟨gs', hcut, hkinds⟩ := ih
    have hcut' := IsCut.cons (.comment hcomment hc) hcut
    have htext : '/' :: '/' :: (comment ++ c :: text) ++ rest =
        Segment.text (.comment ('/' :: '/' :: (comment ++ [c]))) ++ (text ++ rest) := by simp [Segment.text]
    rw [htext]
    exact ⟨_, hcut', hkinds⟩

private theorem IsGap.isFiller (h : IsGap text) : IsFiller text := by
  obtain ⟨c, rest, rfl, hc, hrest⟩ := h
  exact .space hc hrest

private theorem isCut_of_isPrinted {kinds : List TokenKind} (hkinds : ∀ k ∈ kinds, k.IsPrintable)
    (h : IsPrinted kinds text) : ∃ gs, IsCut text gs ∧ gs.filterMap Segment.kind? = kinds := by
  induction h with
  | nil => exact ⟨[], .nil, rfl⟩
  | last kind =>
    have hsegment : IsSegment (.lexeme kind kind.printed) [] :=
      isSegment_printed (hkinds kind (List.mem_singleton_self kind)) (by simp)
    have hcut := IsCut.cons hsegment .nil
    rw [List.append_nil] at hcut
    exact ⟨_, hcut, rfl⟩
  | @cons kind next kinds gap text hgap _ ih =>
    rw [List.forall_mem_cons] at hkinds
    obtain ⟨gs, hcut, hgs⟩ := ih hkinds.2
    obtain ⟨gs', hcut', hgs'⟩ := hgap.isFiller.isCut hcut
    have hspace : ∀ c ∈ (gap ++ text).head?, IsSpace c := by
      obtain ⟨c, rest, rfl, hc, -⟩ := hgap
      simpa using hc
    refine ⟨_, .cons (isSegment_printed hkinds.1 hspace) hcut', ?_⟩
    simp [Segment.kind?, hgs', hgs]

end Lexical

/-- Tokens that are written with gaps between them are the tokens of the text. -/
theorem tokenize_of_isPrinted {kinds : List TokenKind} {src : String} (hkinds : ∀ k ∈ kinds, k.IsPrintable)
    (h : IsPrinted kinds src.toList) : ∃ t, tokenize src = .ok t ∧ t.tokens.map Token.kind = kinds := by
  obtain ⟨gs, hcut, hgs⟩ := isCut_of_isPrinted hkinds h
  obtain ⟨lines, ht⟩ := tokenize_of_isCut hcut
  refine ⟨_, ht, ?_⟩
  have hcutKinds : ((tokensFrom 0 gs).map Token.cut).map Token.kind = (tokensFrom 0 gs).map Token.kind := by
    rw [List.map_map]
    rfl
  rw [hcutKinds, kind_tokensFrom, hgs]

/-- A slash before a comment, a minus and a `>` that make no arrow, digits, and a name after a string. -/
private def operators : List TokenKind :=
  [.symbol .slash, .symbol .minus, .symbol .greater, .intLiteral "1", .stringLiteral ". /", .identifier "é2"]

/-- Lexemes that would run together, with blanks, line breaks and a comment between them. -/
theorem operators_printed : (∀ k ∈ operators, k.IsPrintable) ∧
    IsPrinted operators "/ // half\n- >\t1\r\". /\" é2".toList ∧
    ∃ t, tokenize "/ // half\n- >\t1\r\". /\" é2" = .ok t ∧ t.tokens.map Token.kind = operators := by
  have hkinds : ∀ k ∈ operators, k.IsPrintable := by
    have hstring : (TokenKind.stringLiteral ". /").IsPrintable := forall_mem_of_all (by decide)
    have hname : (TokenKind.identifier "é2").IsPrintable := by
      refine ⟨⟨'é', ['2'], rfl, ?_, forall_mem_of_all (by decide)⟩, fun k => ?_⟩
      · decide +kernel
      · cases k <;> decide
    simp only [operators, List.forall_mem_cons]
    exact ⟨trivial, trivial, trivial, ⟨by decide, forall_mem_of_all (by decide)⟩, hstring, hname, by simp⟩
  have hfiller : IsFiller ('/' :: '/' :: (" half".toList ++ '\n' :: [])) :=
    .comment (forall_mem_of_all (by decide)) (.inl rfl) .nil
  have hcomment : IsGap " // half\n".toList := ⟨' ', _, rfl, .inl (.inl rfl), hfiller⟩
  have hspace : IsGap [' '] := ⟨' ', [], rfl, .inl (.inl rfl), .nil⟩
  have htab : IsGap ['\t'] := ⟨'\t', [], rfl, .inl (.inr rfl), .nil⟩
  have hreturn : IsGap ['\r'] := ⟨'\r', [], rfl, .inr (.inr rfl), .nil⟩
  have hprinted : IsPrinted operators "/ // half\n- >\t1\r\". /\" é2".toList :=
    .cons hcomment (.cons hspace (.cons htab (.cons hreturn (.cons hspace (.last _)))))
  exact ⟨hkinds, hprinted, tokenize_of_isPrinted hkinds hprinted⟩

end Scriptlet
