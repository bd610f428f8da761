import Scriptlet.Parse.Expr

/-!
# Reading without return

`Descent` is the plain way to read tokens: one place that only moves forward.  There are no checkpoints, no error is
kept for later, and where a reader fails it stops at the token that it cannot use.

The readers below are the small ones, from single tokens to lists in parentheses; `Descent.program` and
`Descent.wholeExpr` are put together from them.  Loops and nesting are bounded as in `Parser`, and
`Descent.program_reads` shows that the bounds are never met.
-/

namespace Scriptlet

namespace Parse.Position

/-- The place after the next token. -/
def next (p : Position) : Position :=
  match p.rest with
  | t :: rest => ⟨rest, p.index + 1, t.span⟩
  | [] => p

/-- The kind of the next token, if there is one. -/
def kind? (p : Position) : Option TokenKind := p.rest.head?.map Token.kind

/-- The error of a next token other than the expected one. -/
def unexpected (p : Position) (expected : Expected) : Located ParseError :=
  match p.rest with
  | t :: _ => ⟨t.span, .unexpected t.kind expected⟩
  | [] => ⟨p.eofSpan, .unexpectedEof expected⟩

end Parse.Position

/-- A reader of parts that are read as `α`. -/
abbrev Descent := EStateM Parse.Stop Parse.Position

namespace Descent

open Parse

/-! ### Looking at tokens -/

/-- The next token, if there is one. -/
def peekKind : Descent (Option TokenKind) := do return (← get).kind?

/-- The token after the next one, if there is one. -/
def peekSecond : Descent (Option TokenKind) := do return (← get).next.kind?

/-- The span of the next token, or the empty span at the end. -/
def nextSpan : Descent Span := do return (← get).nextSpan

/-- The span of the last token consumed. -/
def lastSpan : Descent Span := do return (← get).last

/-- Fails at the next token. -/
def unexpected (expected : Expected) : Descent α := do throw (.error ((← get).unexpected expected))

/-- Fails because the literal that is the next token is out of range. -/
def outOfRange (literal : String) : Descent α := do
  throw (.error ⟨← nextSpan, .literalOutOfRange literal⟩)

/-- Stops because the depth or the number of rounds ran out. -/
def exhausted : Descent α := throw .exhausted

/-- The number of rounds a loop may take from here. -/
def rounds : Descent Nat := do return (← get).rest.length + 1

/-! ### Consuming tokens -/

/-- Consumes the next token, if there is one. -/
def advance : Descent Unit := modify Position.next

/-- Consumes the next token if it is this one, and says whether it was. -/
def take (k : TokenKind) : Descent Bool := do
  if (← peekKind) == some k then
    advance
    return true
  else return false

/-- Consumes this symbol and yields its span. -/
def symbol (s : Symbol) : Descent Span := do
  if ← take (.symbol s) then lastSpan else unexpected (.symbol s)

/-- Consumes this keyword and yields its span. -/
def keyword (k : Keyword) : Descent Span := do
  if ← take (.keyword k) then lastSpan else unexpected (.keyword k)

/-! ### Combining readers -/

/-- Hands the span of all that a reader consumed to its result. -/
def spanned (p : Descent (Span → α)) : Descent α := do
  let start ← nextSpan
  let build ← p
  return build (start.through (← lastSpan))

/-- What follows an item of a list: a comma, which is consumed, or the closing parenthesis. -/
def separator : Descent Unit := do
  if ← take (.symbol .comma) then return ()
  else if (← peekKind) == some (.symbol .rparen) then return ()
  else unexpected .separator

/-- The items of a list after its opening parenthesis. -/
def items (item : Descent α) : (fuel : Nat) → Descent (List α)
  | 0 => exhausted
  | fuel + 1 => do
    if ← take (.symbol .rparen) then return []
    else if (← peekKind) == some (.symbol .comma) then unexpected .listItem
    else
      let x ← item
      separator
      return x :: (← items item fuel)

/-- A list in parentheses. -/
def list (item : Descent α) : Descent (List α) := do
  let _ ← symbol .lparen
  items item (← rounds)

/-! ### Leaves -/

/-- A name. -/
def ident : Descent Ident := do
  match ← peekKind with
  | some (.identifier name) =>
    let span ← nextSpan
    advance
    return ⟨name, span⟩
  | _ => unexpected .ident

/-- The value of the integer literal that is the next token, with its text. -/
def intValue (negative : Bool) (text : String) : Descent Int := do
  match Parser.intValue? negative text with
  | some n => return n
  | none => outOfRange text

/-- The value of the literal with a fraction that is the next token, with its text. -/
def doubleValue (text : String) : Descent Double := do
  match Parser.doubleValue? text with
  | some x => return x
  | none => outOfRange text

end Descent

end Scriptlet
