import Scriptlet.Token.Automaton
import Scriptlet.Token.Basic

/-!
# Ill-formed lexemes

Why a text cannot be cut into tokens: the error state that the automaton reached, and the lexeme it was in.
-/

namespace Scriptlet

/-- An ill-formed lexeme. -/
structure LexError where
  state : State
  kind : LexErrorKind
  lexeme : String
  deriving DecidableEq, Repr

namespace LexError

/-- What is wrong. -/
def message (e : LexError) : String :=
  match e.kind with
  | .unexpectedChar => "unexpected character `" ++ e.lexeme ++ "`"
  | .malformedNumber => "malformed number `" ++ e.lexeme ++ "`"
  | .unterminatedString => "unterminated string literal"
  | .malformedLogicalOperator => "malformed logical operator `" ++ e.lexeme ++ "`"

/-- How to mend it. -/
def hint (e : LexError) : String :=
  match e.kind with
  | .unexpectedChar => "this character can't start any token"
  | .malformedNumber => "a decimal point must be followed by a digit"
  | .unterminatedString => "close the string with `\"` before the line ends"
  | .malformedLogicalOperator => "logical operators are `&&` and `||`"

end LexError

/-- The token that stands for an ill-formed lexeme. -/
def Located.malformedToken (e : Located LexError) : Token := ⟨.malformed e.value.lexeme, e.span⟩

end Scriptlet
