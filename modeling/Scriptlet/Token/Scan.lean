import Scriptlet.LineIndex
import Scriptlet.Text.Slice
import Scriptlet.Token.LexError

/-!
# Cutting a text into tokens

`tokenize` runs the automaton of lexemes over a source.  A state that accepts before the character just read
gives that character back, to be scanned again as the start of the next lexeme; at the end of the source a lexeme
still open is closed by a line break of no width.  Offsets are counted in characters, as spans are, and at the
same time in bytes, by which the texts of lexemes are cut out of the source.

Every character is scanned at most twice, once more if it is given back, and the closing line break likewise, so
that `2 * (n + 1)` steps suffice for `n` characters.
-/

namespace Scriptlet

/-- A place between two characters of a source. -/
structure Place where
  char : Nat
  byte : Nat
  deriving DecidableEq, Repr

/-- The start of the source. -/
def Place.origin : Place := ⟨0, 0⟩

/-- The place after a character that begins here. -/
def Place.after (p : Place) (c : Char) : Place := ⟨p.char + 1, p.byte + c.utf8Size⟩

/-- A character being scanned and the places on both sides of it. -/
structure Glyph where
  char : Char
  start : Place
  stop : Place
  deriving DecidableEq, Repr

/-- The character does not stand in the source: it is the line break that closes a lexeme at the end. -/
def Glyph.isSynthetic (g : Glyph) : Bool := g.start == g.stop

/-- A scan under way. -/
structure Scan where
  /-- The characters not read yet. -/
  rest : List Char
  /-- The place before them. -/
  here : Place
  /-- The character that ended the last lexeme and has to be scanned again. -/
  pushedBack : Option Glyph
  /-- What has been read of the present lexeme. -/
  state : State
  /-- Where the present lexeme starts. -/
  lexemeStart : Place
  /-- The tokens so far. -/
  tokens : Array Token
  /-- The lines so far. -/
  lines : LineIndex
  deriving DecidableEq, Repr

/-- The tokens of a source, in order, and the index of its lines. -/
structure Tokenized where
  tokens : List Token
  lines : LineIndex
  deriving DecidableEq, Repr

/-- The token that a finished lexeme makes: the accepting state tells names and literals apart, all else is a
symbol. -/
def TokenKind.ofLexeme? (state : State) (text : String) : Option TokenKind :=
  match state with
  | .identEnd => some (((Keyword.ofText? text).map TokenKind.keyword).getD (.identifier text))
  | .intEnd => some (.intLiteral text)
  | .floatEnd => some (.floatLiteral text)
  | .stringEnd => some (.stringLiteral ((Text.slice? text 1 (text.utf8ByteSize - 1)).getD ""))
  | _ => (Symbol.ofText? text).map TokenKind.symbol

namespace Scan

/-- The scan of a source at its start. -/
def start (src : String) : Scan where
  rest := src.toList
  here := .origin
  pushedBack := none
  state := .initial
  lexemeStart := .origin
  tokens := #[]
  lines := .empty

/-- The next character to scan, if the scan is not over: the one given back, or the next of the source, or, while
a lexeme is open at the end, a line break. -/
def next? (s : Scan) : Option (Glyph × Scan) :=
  match s.pushedBack, s.rest with
  | some g, _ => some (g, { s with pushedBack := none })
  | none, c :: rest => some (⟨c, s.here, s.here.after c⟩, { s with rest, here := s.here.after c })
  | none, [] => if s.state = .initial then none else some (⟨'\n', s.here, s.here⟩, s)

/-- Records the line that starts after a line feed of the source. -/
def trackLine (s : Scan) (g : Glyph) : Scan :=
  if g.char = '\n' ∧ !g.isSynthetic then { s with lines := s.lines.push (g.start.char + 1) } else s

/-- The text from the start of the present lexeme up to `stop`. -/
def lexeme (src : String) (s : Scan) (stop : Place) : String :=
  (Text.slice? src s.lexemeStart.byte stop.byte).getD ""

/-- The span from the start of the present lexeme up to `stop`. -/
def lexemeSpan (s : Scan) (stop : Place) : Span := .ofBounds s.lexemeStart.char stop.char

/-- The error of a lexeme that cannot be completed because of the character just read.  If it is the first of its
lexeme it is itself the lexeme; otherwise the lexeme ends before it. -/
def fail (src : String) (s : Scan) (kind : LexErrorKind) (g : Glyph) : Located LexError :=
  let stop := if s.lexemeStart = g.start then g.stop else g.start
  ⟨s.lexemeSpan stop, ⟨s.state, kind, s.lexeme src stop⟩⟩

/-- Ends the present lexeme at `stop`, keeping its token if it makes one. -/
def finish (src : String) (s : Scan) (stop : Place) : Except (Located LexError) Scan :=
  let next := { s with state := .initial }
  if s.state.isTrivia then .ok next
  else
    let text := s.lexeme src stop
    match TokenKind.ofLexeme? s.state text with
    | some kind => .ok { next with tokens := s.tokens.push ⟨kind, s.lexemeSpan stop⟩ }
    | none => .error ⟨s.lexemeSpan stop, ⟨s.state, .unexpectedChar, text⟩⟩

/-- Scans one character. -/
def step (src : String) (s : Scan) (g : Glyph) : Except (Located LexError) Scan :=
  let lexemeStart := if s.state = .initial then g.start else s.lexemeStart
  let s := { s with lexemeStart, state := (s.state.next? (.of g.char)).getD .unexpectedChar }
  match s.state.error? with
  | some kind => .error (s.fail src kind g)
  | none =>
    match s.state.accept? with
    | none => .ok (s.trackLine g)
    | some .consume => (s.trackLine g).finish src g.stop
    | some .pushBack => { s with pushedBack := some g }.finish src g.start

/-- Scans until the source ends, a lexeme is ill-formed, or `fuel` characters have been scanned. -/
def run (src : String) : (fuel : Nat) → Scan → Except (Located LexError) Scan
  | 0, s => .ok s
  | fuel + 1, s =>
    match s.next? with
    | none => .ok s
    | some (g, s) => do run src fuel (← s.step src g)

end Scan

/-- The tokens and the lines of a source, or its first ill-formed lexeme. -/
def tokenize (src : String) : Except (Located LexError) Tokenized := do
  let s ← Scan.run src (2 * (src.length + 1)) (.start src)
  return ⟨s.tokens.toList, s.lines⟩

end Scriptlet
