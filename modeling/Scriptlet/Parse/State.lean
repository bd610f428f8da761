import Scriptlet.Parse.Error

/-!
# The state of a parse

A position in the token list, the checkpoints opened by alternatives under way, and the errors they met.  Where
two alternatives are tried, the error to report is the one that got furthest into the tokens: every checkpoint
keeps its best error, and `deepest` the best of the whole parse.

The history of a parse records every production entered, every token consumed and every move of a checkpoint, so
that each state on the way can be found again from the tokens and the history up to there.
-/

namespace Scriptlet.Parse

/-- The productions of the grammar that the history names. -/
inductive Production where
  | program | item | decl (keyword : Keyword) | func | block | print | ret | assign | callStmt | forLoop | whileLoop
  | ifStmt | switch | comparator | expr | power | primary | callExpr | nameExpr
  deriving DecidableEq, Repr

/-- What a production is called. -/
def Production.text : Production → String
  | program => "program"
  | item => "top level stmt"
  | decl keyword => keyword.text ++ " stmt"
  | func => "func stmt"
  | block => "block"
  | print => "print stmt"
  | ret => "return stmt"
  | assign => "assign stmt"
  | callStmt => "call stmt"
  | forLoop => "for stmt"
  | whileLoop => "while stmt"
  | ifStmt => "if stmt"
  | switch => "switch stmt"
  | comparator => "comparator"
  | expr => "expr"
  | power => "power expr"
  | primary => "primary expr"
  | callExpr => "call expr"
  | nameExpr => "ident expr"

/-- A step of a parse.  Tokens are named by their index. -/
inductive Event where
  | enter (production : Production)
  | consume (token : Nat)
  | checkpoint (token : Nat)
  | commit (token : Nat)
  | rollback (token : Nat) (error : Located ParseError)
  | abandon (token : Nat) (error : Located ParseError)
  deriving DecidableEq, Repr

/-- A place between two tokens: the tokens after it, how many stand before it, and the span of the last of
these. -/
structure Position where
  rest : List Token
  index : Nat
  last : Span
  deriving DecidableEq, Repr

/-- The place before the first token. -/
def Position.start (tokens : List Token) : Position := ⟨tokens, 0, .empty 0⟩

/-- The empty span at the end of the last token before a position. -/
def Position.eofSpan (p : Position) : Span := .empty p.last.hi

/-- The span of the next token, or the empty span at the end of the tokens. -/
def Position.nextSpan (p : Position) : Span :=
  match p.rest with
  | t :: _ => t.span
  | [] => p.eofSpan

/-- An error and how far it got: `length` tokens from the checkpoint that keeps it, `token` tokens from the
start. -/
structure Ranked where
  error : Located ParseError
  length : Nat
  token : Nat
  deriving DecidableEq, Repr

/-- The place to return to if an alternative fails, and the best error met since. -/
structure Checkpoint where
  position : Position
  best : Option Ranked
  deriving DecidableEq, Repr

/-- Keeps the new error unless the present one got further, from the checkpoint or from the start. -/
def Checkpoint.offer (c : Checkpoint) (new : Ranked) : Checkpoint :=
  match c.best with
  | some old => if new.length < old.length ∨ new.token < old.token then c else { c with best := some new }
  | none => { c with best := some new }

/-- A parse under way.  The innermost checkpoint and the latest event stand first. -/
structure State where
  position : Position
  checkpoints : List Checkpoint
  deepest : Option Ranked
  history : List Event
  deriving DecidableEq, Repr

namespace State

/-- The parse of a token list at its start. -/
def start (tokens : List Token) : State := ⟨.start tokens, [], none, []⟩

/-- Adds an event to the history. -/
def log (s : State) (e : Event) : State := { s with history := e :: s.history }

/-- Moves past the next token, if there is one. -/
def advance (s : State) : State :=
  match s.position.rest with
  | t :: rest => { s with position := ⟨rest, s.position.index + 1, t.span⟩ }.log (.consume s.position.index)
  | [] => s

/-- The error of a next token other than the expected one. -/
def unexpected (s : State) (expected : Expected) : Located ParseError :=
  match s.position.rest with
  | t :: _ => ⟨t.span, .unexpected t.kind expected⟩
  | [] => ⟨s.position.eofSpan, .unexpectedEof expected⟩

/-! ### Checkpoints -/

/-- Opens a checkpoint here. -/
def checkpoint (s : State) : State :=
  { s with checkpoints := ⟨s.position, none⟩ :: s.checkpoints }.log (.checkpoint s.position.index)

/-- Closes the innermost checkpoint after an alternative succeeded.  Its best error goes to the checkpoint around
it, if there is one. -/
def commit (s : State) : State :=
  match s.checkpoints with
  | [] => s
  | c :: outer =>
    let outer := match c.best, outer with
      | some best, d :: outer => d.offer { best with length := best.token - d.position.index } :: outer
      | _, outer => outer
    { s with checkpoints := outer }.log (.commit c.position.index)

/-- Keeps an error met at the present position, in the innermost checkpoint and as the deepest one. -/
def record (s : State) (e : Located ParseError) : State :=
  match s.checkpoints with
  | [] => s
  | c :: outer =>
    let token := s.position.index
    let ranked : Ranked := ⟨e, token - c.position.index, token⟩
    let deepest := match s.deepest with
      | some old => if old.token ≤ token then some ranked else some old
      | none => some ranked
    { s with checkpoints := c.offer ranked :: outer, deepest }

/-- Returns to the innermost checkpoint after its first alternative failed. -/
def rollback (s : State) (e : Located ParseError) : State :=
  let s := (s.log (.rollback s.position.index e)).record e
  match s.checkpoints with
  | [] => s
  | c :: _ => { s with position := c.position }

/-- Closes the innermost checkpoint after its last alternative failed, with the error to report. -/
def abandon (s : State) (e : Located ParseError) : Located ParseError × State :=
  let s := (s.log (.abandon s.position.index e)).record e
  match s.checkpoints with
  | [] => (e, s)
  | c :: outer => ((c.best.map Ranked.error).getD e, { s with checkpoints := outer })

/-- The error to report once the parse has failed with `e`. -/
def finalError (s : State) (e : Located ParseError) : Located ParseError :=
  match s.deepest with
  | some d => if s.position.index < d.token then d.error else e
  | none => e

end State

end Scriptlet.Parse
