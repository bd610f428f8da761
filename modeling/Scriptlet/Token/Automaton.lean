import Scriptlet.Text.Alphabetic

/-!
# The automaton of lexemes

A finite automaton over classes of characters.  From `initial` a state is reached for every beginning of a
lexeme; the accepting states end a lexeme, either with the character just read or before it, and the error
states say why no lexeme can be completed.
-/

namespace Scriptlet

/-- The classes of characters that the automaton tells apart.  `other` stands for any class without a rule of
its own, and no character has it; `outside` is the class of the characters outside the alphabet. -/
inductive CharClass where
  | letter | digit | dot | quote | newline | blank | plus | minus | comma | colon | semicolon | lparen | rparen
  | lbrace | rbrace | equals | less | greater | not | ampersand | pipe | star | slash | other | outside
  deriving DecidableEq, Repr

namespace CharClass

/-- The class of a character. -/
def of (c : Char) : CharClass :=
  if Text.isAlphabetic c then letter
  else if c.isDigit then digit
  else match c with
    | '.' => dot
    | '"' => quote
    | '\n' | '\r' => newline
    | ' ' | '\t' => blank
    | '+' => plus
    | '-' => minus
    | ',' => comma
    | ':' => colon
    | ';' => semicolon
    | '(' => lparen
    | ')' => rparen
    | '{' => lbrace
    | '}' => rbrace
    | '=' => equals
    | '<' => less
    | '>' => greater
    | '!' => not
    | '&' => ampersand
    | '|' => pipe
    | '*' => star
    | '/' => slash
    | _ => outside

/-- Every class, in the order of the table's columns. -/
def all : List CharClass :=
  [letter, digit, dot, quote, newline, blank, plus, minus, comma, colon, semicolon, lparen, rparen, lbrace,
   rbrace, equals, less, greater, not, ampersand, pipe, star, slash, other, outside]

/-- The name of a class. -/
def label : CharClass → String
  | letter => "Letter"
  | digit => "Digit"
  | dot => "Dot"
  | quote => "Quote"
  | newline => "Newline"
  | blank => "Whitespace"
  | plus => "Plus"
  | minus => "Minus"
  | comma => "Comma"
  | colon => "Colon"
  | semicolon => "Semicolon"
  | lparen => "LParen"
  | rparen => "RParen"
  | lbrace => "LBrace"
  | rbrace => "RBrace"
  | equals => "Equals"
  | less => "Less"
  | greater => "Greater"
  | not => "Not"
  | ampersand => "Ampersand"
  | pipe => "Pipe"
  | star => "Star"
  | slash => "Slash"
  | other => "Other"
  | outside => "NotAChar"

end CharClass

/-- The states of the automaton: what has been read of the lexeme so far. -/
inductive State where
  | initial
  | ident | identEnd
  | newline
  | int | dot | fraction | floatEnd | intEnd
  | slash | comment | commentEnd | slashEnd
  | string | stringEnd
  | punctuationEnd
  | star | starStarEnd | starEnd
  | ampersand | logicalEnd | pipe
  | equals | assignEnd | relation | relationEqEnd | relationEnd
  | minus | arrowEnd | minusEnd
  | unexpectedChar | malformedNumber | unterminatedString | malformedLogical
  deriving DecidableEq, Repr

/-- How an accepting state ends its lexeme: the character just read is its last one, or already belongs to the
next lexeme and is read again. -/
inductive Accept where
  | consume
  | pushBack
  deriving DecidableEq, Repr

/-- What is wrong with a lexeme. -/
inductive LexErrorKind where
  | unexpectedChar
  | malformedNumber
  | unterminatedString
  | malformedLogicalOperator
  deriving DecidableEq, Repr

namespace State

/-- The number of a state. -/
def number : State → Nat
  | initial => 0
  | ident => 1
  | identEnd => 2
  | newline => 3
  | int => 4
  | dot => 5
  | fraction => 6
  | floatEnd => 7
  | intEnd => 8
  | slash => 9
  | comment => 10
  | commentEnd => 11
  | slashEnd => 12
  | string => 13
  | stringEnd => 14
  | punctuationEnd => 15
  | star => 16
  | starStarEnd => 17
  | starEnd => 18
  | ampersand => 19
  | logicalEnd => 20
  | pipe => 21
  | equals => 22
  | assignEnd => 23
  | relation => 24
  | relationEqEnd => 25
  | relationEnd => 26
  | minus => 27
  | arrowEnd => 28
  | minusEnd => 29
  | unexpectedChar => 101
  | malformedNumber => 102
  | unterminatedString => 103
  | malformedLogical => 104

/-- The states that other parts of the library name, by their names. -/
def named : List (String × State) :=
  [("INITIAL", initial), ("IDENT_END", identEnd), ("NEWLINE", newline), ("FLOAT_END", floatEnd),
   ("INT_END", intEnd), ("COMMENT_END", commentEnd), ("STRING_END", stringEnd),
   ("UNEXPECTED_CHAR", unexpectedChar), ("MALFORMED_NUMBER", malformedNumber),
   ("UNTERMINATED_STRING", unterminatedString), ("MALFORMED_LOGICAL", malformedLogical)]

/-- The state as debugging output writes it. -/
def debug (s : State) : String := "State(" ++ toString s.number ++ ")"

/-- How a lexeme ends in this state, if it does. -/
def accept? : State → Option Accept
  | identEnd | floatEnd | intEnd | slashEnd | starEnd | assignEnd | relationEnd | minusEnd => some .pushBack
  | newline | commentEnd | stringEnd | punctuationEnd | starStarEnd | logicalEnd | relationEqEnd | arrowEnd =>
    some .consume
  | _ => none

/-- What is wrong with the lexeme, if this is an error state. -/
def error? : State → Option LexErrorKind
  | unexpectedChar => some .unexpectedChar
  | malformedNumber => some .malformedNumber
  | unterminatedString => some .unterminatedString
  | malformedLogical => some .malformedLogicalOperator
  | _ => none

/-- A lexeme is complete, or has failed, in this state. -/
def isFinal (s : State) : Bool := s.accept?.isSome || s.error?.isSome

/-- The lexeme that ends here makes no token. -/
def isTrivia : State → Bool
  | newline | commentEnd => true
  | _ => false

/-- The state reached on a character of the given class.  Every state that is not final has a rule for every
class; the final states have none. -/
def next? : State → CharClass → Option State
  -- the start of a lexeme
  | initial, .letter => some ident
  | initial, .digit => some int
  | initial, .quote => some string
  | initial, .blank => some initial
  | initial, .newline => some newline
  | initial, .plus | initial, .comma | initial, .colon | initial, .semicolon | initial, .lparen
  | initial, .rparen | initial, .lbrace | initial, .rbrace => some punctuationEnd
  | initial, .minus => some minus
  | initial, .star => some star
  | initial, .slash => some slash
  | initial, .equals => some equals
  | initial, .less | initial, .greater | initial, .not => some relation
  | initial, .ampersand => some ampersand
  | initial, .pipe => some pipe
  | initial, _ => some unexpectedChar
  -- identifiers and keywords
  | ident, .letter | ident, .digit => some ident
  | ident, _ => some identEnd
  -- numbers
  | int, .digit => some int
  | int, .dot => some dot
  | int, _ => some intEnd
  | dot, .digit => some fraction
  | dot, _ => some malformedNumber
  | fraction, .digit => some fraction
  | fraction, _ => some floatEnd
  -- strings
  | string, .quote => some stringEnd
  | string, .newline => some unterminatedString
  | string, _ => some string
  -- symbols of one or two characters, and comments
  | minus, .greater => some arrowEnd
  | minus, _ => some minusEnd
  | star, .star => some starStarEnd
  | star, _ => some starEnd
  | slash, .slash => some comment
  | slash, _ => some slashEnd
  | comment, .newline => some commentEnd
  | comment, _ => some comment
  | equals, .equals => some relationEqEnd
  | equals, _ => some assignEnd
  | relation, .equals => some relationEqEnd
  | relation, _ => some relationEnd
  | ampersand, .ampersand => some logicalEnd
  | ampersand, _ => some malformedLogical
  | pipe, .pipe => some logicalEnd
  | pipe, _ => some malformedLogical
  | _, _ => none

end State

/-- The name of a kind of error. -/
def LexErrorKind.label : LexErrorKind → String
  | .unexpectedChar => "UnexpectedChar"
  | .malformedNumber => "MalformedNumber"
  | .unterminatedString => "UnterminatedString"
  | .malformedLogicalOperator => "MalformedLogicalOperator"

/-- The name of a way to accept. -/
def Accept.label : Accept → String
  | .consume => "Consume"
  | .pushBack => "PushBack"

end Scriptlet
