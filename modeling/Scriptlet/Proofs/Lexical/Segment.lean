import Scriptlet.Token.Scan

/-!
# Cuts of a text

How a text is cut into blanks, line breaks, comments and lexemes, said without a machine: which characters make a
segment of each kind, and which character may not come after it because it would have made the segment longer
(`IsSegment`).  `tokensFrom` puts the tokens of a cut at their places.
-/

namespace Scriptlet

namespace Lexical

/-! ### Characters -/

/-- The letters. -/
def IsLetter (c : Char) : Prop := Text.isAlphabetic c = true

/-- The ASCII digits. -/
def IsDigit (c : Char) : Prop := c.isDigit = true

/-- Spaces and tabs. -/
def IsBlank (c : Char) : Prop := c = ' ' ∨ c = '\t'

/-- Line feeds and carriage returns. -/
def IsLineBreak (c : Char) : Prop := c = '\n' ∨ c = '\r'

/-- A letter and then letters and digits. -/
def IsWord (text : List Char) : Prop := ∃ c cs, text = c :: cs ∧ IsLetter c ∧ ∀ x ∈ cs, IsLetter x ∨ IsDigit x

/-- What is so of every character of a fixed text can be computed. -/
theorem forall_mem_of_all {p : Char → Prop} [DecidablePred p] {text : List Char}
    (h : (text.all fun x => decide (p x)) = true) : ∀ x ∈ text, p x :=
  fun x hx => of_decide_eq_true (List.all_eq_true.1 h x hx)

/-- One digit or more. -/
def IsDigits (text : List Char) : Prop := text ≠ [] ∧ ∀ x ∈ text, IsDigit x

/-! ### Lexemes -/

/-- The text is a lexeme that makes a token of this kind. -/
inductive IsLexeme : TokenKind → List Char → Prop where
  | keyword {k : Keyword} {text : List Char} : IsWord text → k.text = String.ofList text → IsLexeme (.keyword k) text
  | identifier {text : List Char} :
    IsWord text → (∀ k : Keyword, k.text ≠ String.ofList text) → IsLexeme (.identifier (String.ofList text)) text
  | int {text : List Char} : IsDigits text → IsLexeme (.intLiteral (String.ofList text)) text
  | float {whole fraction : List Char} : IsDigits whole → IsDigits fraction →
    IsLexeme (.floatLiteral (String.ofList (whole ++ '.' :: fraction))) (whole ++ '.' :: fraction)
  | string {text : List Char} :
    (∀ x ∈ text, x ≠ '"' ∧ ¬ IsLineBreak x) → IsLexeme (.stringLiteral (String.ofList text)) ('"' :: (text ++ ['"']))
  | symbol (s : Symbol) : IsLexeme (.symbol s) s.text.toList

/-- A lexeme of this kind ends before the character, which would otherwise belong to it. -/
def EndsBefore : TokenKind → Char → Prop
  | .keyword _, c | .identifier _, c => ¬ (IsLetter c ∨ IsDigit c)
  | .intLiteral _, c => ¬ IsDigit c ∧ c ≠ '.'
  | .floatLiteral _, c => ¬ IsDigit c
  | .symbol .minus, c => c ≠ '>'
  | .symbol .star, c => c ≠ '*'
  | .symbol .slash, c => c ≠ '/'
  | .symbol .assign, c | .symbol .less, c | .symbol .greater, c | .symbol .not, c => c ≠ '='
  | .symbol _, _ | .stringLiteral _, _ | .malformed _, _ => True

/-- A word that is no keyword is none of the names that are keywords or have a character that is in no word. -/
theorem not_mem_of_isWord {names : List String} {text : List Char}
    (hnames : ∀ name ∈ names, (Keyword.ofText? name).isSome = true ∨
      (name.toList.any fun c => !(Text.isAlphabetic c || c.isDigit)) = true)
    (h : IsWord text) (hk : ∀ k : Keyword, k.text ≠ String.ofList text) : String.ofList text ∉ names := by
  intro hmem
  rcases hnames _ hmem with hkeyword | hany
  · obtain ⟨k, hk'⟩ := Option.isSome_iff_exists.1 hkeyword
    exact hk k (Keyword.text_of_ofText? hk')
  · obtain ⟨first, rest, rfl, hfirst, hrest⟩ := h
    obtain ⟨c, hc, hnot⟩ := List.any_eq_true.1 hany
    have hnot : ¬ (IsLetter c ∨ IsDigit c) := by simpa [IsLetter, IsDigit] using hnot
    rw [String.toList_ofList] at hc
    rcases List.mem_cons.1 hc with rfl | hc
    · exact hnot (.inl hfirst)
    · exact hnot (hrest c hc)

/-! ### Segments -/

/-- The parts into which a text is cut. -/
inductive Segment where
  | blank (c : Char)
  | lineBreak (c : Char)
  | comment (text : List Char)
  | lexeme (kind : TokenKind) (text : List Char)
  deriving DecidableEq, Repr

/-- The characters of a segment. -/
def Segment.text : Segment → List Char
  | blank c | lineBreak c => [c]
  | comment text | lexeme _ text => text

/-- The segment stands before the rest of the text.  A comment includes the line break after it, and is the last
segment if there is none. -/
inductive IsSegment : Segment → List Char → Prop where
  | blank {c : Char} {rest : List Char} : IsBlank c → IsSegment (.blank c) rest
  | lineBreak {c : Char} {rest : List Char} : IsLineBreak c → IsSegment (.lineBreak c) rest
  | comment {text rest : List Char} {c : Char} : (∀ x ∈ text, ¬ IsLineBreak x) → IsLineBreak c →
    IsSegment (.comment ('/' :: '/' :: (text ++ [c]))) rest
  | lastComment {text : List Char} : (∀ x ∈ text, ¬ IsLineBreak x) → IsSegment (.comment ('/' :: '/' :: text)) []
  | lexeme {kind : TokenKind} {text rest : List Char} :
    IsLexeme kind text → (∀ c ∈ rest.head?, EndsBefore kind c) → IsSegment (.lexeme kind text) rest

/-- The text is cut into these segments. -/
inductive IsCut : List Char → List Segment → Prop where
  | nil : IsCut [] []
  | cons {g : Segment} {rest : List Char} {gs : List Segment} :
    IsSegment g rest → IsCut rest gs → IsCut (g.text ++ rest) (g :: gs)

/-- The token of a segment at this offset, if it makes one. -/
def Segment.tokens (offset : Nat) : Segment → List Token
  | lexeme kind text => [⟨kind, ⟨offset, text.length⟩⟩]
  | _ => []

/-- The tokens of segments from this offset on. -/
def tokensFrom (offset : Nat) : List Segment → List Token
  | [] => []
  | g :: gs => g.tokens offset ++ tokensFrom (offset + g.text.length) gs

end Lexical

end Scriptlet
