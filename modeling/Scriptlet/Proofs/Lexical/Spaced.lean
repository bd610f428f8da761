import Scriptlet.Proofs.Lexical.Printing

/-!
# Lexemes with blanks between them

`tokenize_spaced`: where a blank comes after each lexeme, the tokens are these lexemes.  A blank ends every lexeme, so
that nothing need be known of which may stand next to which.
-/

namespace Scriptlet

namespace Lexical

/-- Letters only, and at least one. -/
def isLetters (text : List Char) : Bool := !text.isEmpty && text.all Text.isAlphabetic

/-- The text of the token is a lexeme that makes it.  Of the tokens that are, numbers with a fraction, strings and names
with digits are left out. -/
def isSpelled : TokenKind → Bool
  | .keyword _ | .symbol _ => true
  | .identifier name => isLetters name.toList && (Keyword.ofText? name).isNone
  | .intLiteral text => !text.toList.isEmpty && text.toList.all Char.isDigit
  | _ => false

private theorem isWord_of_isLetters {text : List Char} (h : isLetters text = true) : IsWord text := by
  unfold isLetters at h
  cases text with
  | nil => cases h
  | cons c cs =>
    obtain ⟨hc, hcs⟩ : IsLetter c ∧ ∀ x ∈ cs, IsLetter x := by simpa [IsLetter] using h
    exact ⟨c, cs, rfl, hc, fun x hx => .inl (hcs x hx)⟩

private theorem isPrintable_of_isSpelled {k : TokenKind} (h : isSpelled k = true) :
    k.IsPrintable ∧ k.printed = k.text.toList := by
  cases k with
  | keyword | symbol => exact ⟨trivial, rfl⟩
  | identifier name =>
    obtain ⟨hletters, hnone⟩ := Bool.and_eq_true_iff.1 h
    refine ⟨⟨isWord_of_isLetters hletters, fun k hk => ?_⟩, rfl⟩
    rw [← hk, Keyword.ofText?_text] at hnone
    cases hnone
  | intLiteral text =>
    have hdigits : IsDigits text.toList := by simpa [isSpelled, IsDigits, IsDigit] using h
    exact ⟨hdigits, rfl⟩
  | floatLiteral | stringLiteral | malformed => cases h

private theorem isLexeme_of_isSpelled {k : TokenKind} (h : isSpelled k = true) : IsLexeme k k.text.toList := by
  obtain ⟨hprintable, hprinted⟩ := isPrintable_of_isSpelled h
  exact hprinted ▸ isLexeme_printed hprintable

/-- The lexemes, with a blank after each. -/
def spacedSegments (kinds : List TokenKind) : List Segment :=
  kinds.flatMap fun k => [.lexeme k k.text.toList, .blank ' ']

/-- The characters of the lexemes, with a blank after each. -/
def spaced (kinds : List TokenKind) : List Char := kinds.flatMap fun k => k.text.toList ++ [' ']

/-- The tokens of the lexemes, with a blank after each. -/
def spacedTokens (kinds : List TokenKind) : List Token := (tokensFrom 0 (spacedSegments kinds)).map Token.cut

/-- Tokens with a blank after each are cut as they were written. -/
theorem isCut_spaced {kinds : List TokenKind} (h : ∀ k ∈ kinds, isSpelled k = true) :
    IsCut (spaced kinds) (spacedSegments kinds) := by
  induction kinds with
  | nil => exact .nil
  | cons k kinds ih =>
    rw [List.forall_mem_cons] at h
    have hlexeme := isLexeme_of_isSpelled h.1
    have hends : ∀ c ∈ (' ' :: spaced kinds).head?, EndsBefore k c := by
      rintro c ⟨⟩
      exact hlexeme.endsBefore (.inl (.inl rfl))
    have hblank : IsSegment (.blank ' ') (spaced kinds) := .blank (.inl rfl)
    have hcut := IsCut.cons (.lexeme hlexeme hends) (.cons hblank (ih h.2))
    simpa [spaced, spacedSegments, Segment.text] using hcut

end Lexical

open Lexical

/-- Lexemes with blanks between them are the tokens of their text. -/
theorem tokenize_spaced {src : String} {kinds : List TokenKind} (h : ∀ k ∈ kinds, isSpelled k = true)
    (hsrc : src.toList = spaced kinds) : ∃ lines, tokenize src = .ok ⟨spacedTokens kinds, lines⟩ :=
  tokenize_of_isCut (hsrc ▸ isCut_spaced h)

end Scriptlet
