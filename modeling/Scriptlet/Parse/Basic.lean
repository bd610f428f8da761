import Scriptlet.Parse.State
import Scriptlet.Program.Basic

/-!
# Parsers

A parser reads a part of the token list and either yields a value or fails; the state it has reached is kept in
both cases, so that a failure shows how far it got.

Recursion through the grammar is bounded by a depth, and loops by the number of tokens left.  Every round of
either consumes a token, so that a depth greater than the number of tokens never runs out; if one did, the parser
would stop as `exhausted`, which no alternative rescues.
-/

namespace Scriptlet

/-- Why a parser stops without a value. -/
inductive Parse.Stop where
  | error (e : Located ParseError)
  | exhausted
  deriving DecidableEq, Repr

/-- A parser of parts that are read as `α`. -/
abbrev Parser := EStateM Parse.Stop Parse.State

namespace Parser

open Parse

/-! ### Looking at tokens -/

/-- The next token, if there is one. -/
def peekKind : Parser (Option TokenKind) := do return (← get).position.rest.head?.map Token.kind

/-- The span of the next token, or the empty span at the end. -/
def nextSpan : Parser Span := do return (← get).position.nextSpan

/-- The span of the last token consumed. -/
def lastSpan : Parser Span := do return (← get).position.last

/-- Fails at the next token. -/
def unexpected (expected : Expected) : Parser α := do throw (.error ((← get).unexpected expected))

/-- Fails because the literal that is the next token is out of range. -/
def outOfRange (literal : String) : Parser α := do
  throw (.error ⟨← nextSpan, .literalOutOfRange literal⟩)

/-- Stops because the depth or the number of rounds ran out. -/
def exhausted : Parser α := throw .exhausted

/-- The number of rounds a loop may take from here: one for every token left, and one to see the end. -/
def rounds : Parser Nat := do return (← get).position.rest.length + 1

/-- Notes that a production begins. -/
def enter (p : Production) : Parser Unit := modify (·.log (.enter p))

/-- The next token is this symbol. -/
def atSymbol (s : Symbol) : Parser Bool := do return (← peekKind) == some (.symbol s)

/-- The next token is this keyword. -/
def atKeyword (k : Keyword) : Parser Bool := do return (← peekKind) == some (.keyword k)

/-! ### Consuming tokens -/

/-- Consumes the next token, if there is one. -/
def advance : Parser Unit := modify State.advance

/-- Consumes the next token if it is this symbol, and says whether it was. -/
def take (s : Symbol) : Parser Bool := do
  if ← atSymbol s then
    advance
    return true
  else return false

/-- Consumes the next token if it is this keyword, and says whether it was. -/
def takeKeyword (k : Keyword) : Parser Bool := do
  if ← atKeyword k then
    advance
    return true
  else return false

/-- Consumes this symbol and yields its span. -/
def symbol (s : Symbol) : Parser Span := do
  if ← take s then lastSpan else unexpected (.symbol s)

/-- Consumes this keyword and yields its span. -/
def keyword (k : Keyword) : Parser Span := do
  if ← takeKeyword k then lastSpan else unexpected (.keyword k)

/-! ### Combining parsers -/

/-- Hands the span of all that a parser consumed to its result. -/
def spanned (p : Parser (Span → α)) : Parser α := do
  let start ← nextSpan
  let build ← p
  return build (start.through (← lastSpan))

/-- Tries `first`; if it fails, returns to where it began and tries `second`.  If that fails too, the error is the
best one that either met. -/
def orElse (first second : Parser α) : Parser α := fun s =>
  match first s.checkpoint with
  | .ok a s => .ok a s.commit
  | .error .exhausted s => .error .exhausted s
  | .error (.error e) s =>
    match second (s.rollback e) with
    | .ok a s => .ok a s.commit
    | .error .exhausted s => .error .exhausted s
    | .error (.error e) s => let (e, s) := s.abandon e; .error (.error e) s

/-- What follows an item of a list: a comma, which is consumed, or the closing parenthesis. -/
def separator : Parser Unit := do
  if ← take .comma then return ()
  else if ← atSymbol .rparen then return ()
  else unexpected .separator

/-- The items of a list after its opening parenthesis, each but the last followed by a comma, up to the closing
parenthesis.  The last may be followed by a comma too. -/
def items (item : Parser α) : (fuel : Nat) → Parser (List α)
  | 0 => exhausted
  | fuel + 1 => do
    if ← take .rparen then return []
    else if ← atSymbol .comma then unexpected .listItem
    else
      let x ← item
      separator
      return x :: (← items item fuel)

/-- A list in parentheses. -/
def list (item : Parser α) : Parser (List α) := do
  let _ ← symbol .lparen
  items item (← rounds)

end Parser

/-! ### Running parsers -/

/-- What a parse came to, and its history from the first event on. -/
structure Parse.Outcome (α : Type) where
  result : Except (Located ParseError) α
  history : List Parse.Event

/-- Runs a parser over a whole token list.  The error to report is the one that got furthest. -/
def Parser.run (p : Parser α) (tokens : List Token) : Parse.Outcome α :=
  match p (.start tokens) with
  | .ok a s => ⟨.ok a, s.history.reverse⟩
  | .error (.error e) s => ⟨.error (s.finalError e), s.history.reverse⟩
  | .error .exhausted s => ⟨.error (s.unexpected .eof), s.history.reverse⟩

end Scriptlet
