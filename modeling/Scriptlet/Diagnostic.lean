import Scriptlet.LineIndex
import Scriptlet.Parse.Error
import Scriptlet.Token.LexError
import Scriptlet.Typing.Error

/-!
# Diagnostics

An error of any stage, as it is reported: what is wrong, how to mend it and, in full, where.
-/

namespace Scriptlet

/-- The stages of a compilation that can fail. -/
inductive Stage where
  | lexer
  | parser
  | typer
  deriving DecidableEq, Repr

/-- The name of a stage. -/
def Stage.text : Stage → String
  | lexer => "lexer"
  | parser => "parser"
  | typer => "typer"

/-- An error of some stage. -/
inductive CompileError where
  | lex (e : Located LexError)
  | parse (e : Located ParseError)
  | type (e : Located TypeError)
  deriving DecidableEq, Repr

namespace CompileError

/-- The stage that failed. -/
def stage : CompileError → Stage
  | lex _ => .lexer
  | parse _ => .parser
  | type _ => .typer

/-- Where the error is. -/
def span : CompileError → Span
  | lex e => e.span
  | parse e => e.span
  | type e => e.span

/-- The name of the kind of error. -/
def label : CompileError → String
  | lex e => e.value.kind.label
  | parse e => e.value.label
  | type e => e.value.label

/-- What is wrong. -/
def message : CompileError → String
  | lex e => e.value.message
  | parse e => e.value.message
  | type e => e.value.message

/-- How to mend it. -/
def hint (lines : LineIndex) : CompileError → String
  | lex e => e.value.hint
  | parse e => e.value.hint
  | type e => e.value.hint lines

/-- The diagnostic without its place. -/
def plain (lines : LineIndex) (e : CompileError) : String := e.message ++ ". Hint: " ++ e.hint lines

/-- The diagnostic after its place, given by line and column. -/
def full (lines : LineIndex) (e : CompileError) : String := lines.spanText e.span ++ ": " ++ e.plain lines

end CompileError

end Scriptlet
