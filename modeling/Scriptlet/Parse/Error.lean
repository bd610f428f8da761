import Scriptlet.Token.Basic

/-!
# Syntax errors

What the parser found, and what it expected there instead.
-/

namespace Scriptlet

/-- What the parser was looking for. -/
inductive Expected where
  | symbol (s : Symbol)
  | keyword (k : Keyword)
  | ident
  | intLiteral
  | type
  | expr
  | stmt
  | item
  | const
  | case
  /-- An argument or a parameter, before a comma. -/
  | listItem
  /-- A comma or the closing parenthesis, after an argument or a parameter. -/
  | separator
  | eof
  deriving DecidableEq, Repr

namespace Expected

/-- The hint of a diagnostic. -/
def text : Expected → String
  | symbol s => "expected `" ++ s.text ++ "`"
  | keyword k => "expected `" ++ k.text ++ "`"
  | ident => "expected an identifier"
  | intLiteral => "expected an integer literal"
  | type => "expected a type (`Int`, `Double`, `String`, `Bool` or `Void`)"
  | expr => "expected an expression"
  | stmt => "expected a statement or `\x7d`"
  | item => "expected `let` or `func`"
  | const => "expected a constant"
  | case => "expected `case`, `default` or `\x7d`"
  | listItem => "`,` can only follow an item"
  | separator => "expected `,` or `)`"
  | eof => "expected end of input"

/-- The name of an expectation in debugging output. -/
def debug : Expected → String
  | symbol s => "Symbol(" ++ s.label ++ ")"
  | keyword k => "Keyword(" ++ k.label ++ ")"
  | ident => "Ident"
  | intLiteral => "IntLiteral"
  | type => "Type"
  | expr => "Expr"
  | stmt => "Stmt"
  | item => "TopLevelStmt"
  | const => "Const"
  | case => "Case"
  | listItem => "ListItem"
  | separator => "Separator"
  | eof => "Eof"

/-- The expectations that no symbol or keyword belongs to. -/
def plain : List Expected :=
  [ident, intLiteral, type, expr, stmt, item, const, case, listItem, separator, eof]

/-- The expectation of that name in debugging output, if it is a plain one. -/
def ofLabel? (label : String) : Option Expected := plain.find? fun e => e.debug == label

end Expected

/-- A syntax error. -/
inductive ParseError where
  | unexpected (found : TokenKind) (expected : Expected)
  | unexpectedEof (expected : Expected)
  | literalOutOfRange (literal : String)
  deriving DecidableEq, Repr

namespace ParseError

/-- What is wrong. -/
def message : ParseError → String
  | unexpected found _ => "unexpected " ++ found.display
  | unexpectedEof _ => "unexpected end of input"
  | literalOutOfRange literal => "literal `" ++ literal ++ "` is out of range"

/-- How to mend it. -/
def hint : ParseError → String
  | unexpected _ expected | unexpectedEof expected => expected.text
  | literalOutOfRange _ => "integers must fit in 64 bits and floats must be finite"

/-- The name of the kind of error. -/
def label : ParseError → String
  | unexpected .. => "Unexpected"
  | unexpectedEof _ => "UnexpectedEof"
  | literalOutOfRange _ => "LiteralOutOfRange"

/-- The kind and the parts, as debugging output writes them. -/
def debug (e : ParseError) : String :=
  e.label ++ " \x7b " ++ (match e with
    | unexpected found expected => "found: " ++ found.debug ++ ", expected: " ++ expected.debug
    | unexpectedEof expected => "expected: " ++ expected.debug
    | literalOutOfRange literal => "literal: " ++ Text.quoted literal) ++ " \x7d"

end ParseError

end Scriptlet
