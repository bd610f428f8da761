import Scriptlet.Span
import Scriptlet.Text.Quoted

/-!
# Tokens

The words of the language: keywords and symbols, each with its one spelling, names, and literals that keep the
text they were written with.
-/

namespace Scriptlet

/-- The reserved words. -/
inductive Keyword where
  | varKw | letKw | inputKw | ifKw | elseKw | switchKw | caseKw | defaultKw | forKw | whileKw | inKw | rangeKw
  | funcKw | returnKw | printKw | voidTy | intTy | doubleTy | stringTy | boolTy | trueKw | falseKw
  deriving DecidableEq, Repr

namespace Keyword

/-- The spelling of a keyword. -/
def text : Keyword → String
  | varKw => "var"
  | letKw => "let"
  | inputKw => "input"
  | ifKw => "if"
  | elseKw => "else"
  | switchKw => "switch"
  | caseKw => "case"
  | defaultKw => "default"
  | forKw => "for"
  | whileKw => "while"
  | inKw => "in"
  | rangeKw => "range"
  | funcKw => "func"
  | returnKw => "return"
  | printKw => "print"
  | voidTy => "Void"
  | intTy => "Int"
  | doubleTy => "Double"
  | stringTy => "String"
  | boolTy => "Bool"
  | trueKw => "true"
  | falseKw => "false"

/-- The name of a keyword in debugging output. -/
def label : Keyword → String
  | varKw => "Var"
  | letKw => "Let"
  | inputKw => "Input"
  | ifKw => "If"
  | elseKw => "Else"
  | switchKw => "Switch"
  | caseKw => "Case"
  | defaultKw => "Default"
  | forKw => "For"
  | whileKw => "While"
  | inKw => "In"
  | rangeKw => "Range"
  | funcKw => "Func"
  | returnKw => "Return"
  | printKw => "Print"
  | voidTy => "VoidTy"
  | intTy => "IntTy"
  | doubleTy => "DoubleTy"
  | stringTy => "StringTy"
  | boolTy => "BoolTy"
  | trueKw => "True"
  | falseKw => "False"

/-- Every keyword. -/
def all : List Keyword :=
  [varKw, letKw, inputKw, ifKw, elseKw, switchKw, caseKw, defaultKw, forKw, whileKw, inKw, rangeKw, funcKw,
   returnKw, printKw, voidTy, intTy, doubleTy, stringTy, boolTy, trueKw, falseKw]

/-- The keyword spelled `s`. -/
def ofText? (s : String) : Option Keyword := all.find? fun k => k.text == s

/-- A keyword is found by its text. -/
theorem ofText?_text (k : Keyword) : ofText? k.text = some k := by
  cases k <;> rfl

/-- A keyword that is found has the text it was sought by. -/
theorem text_of_ofText? {s : String} {k : Keyword} (h : ofText? s = some k) : k.text = s := by
  simpa using List.find?_some h

end Keyword

/-- The operators and the punctuation. -/
inductive Symbol where
  | plus | minus | star | starStar | slash | comma | colon | semicolon | lparen | rparen | lbrace | rbrace
  | assign | eqEq | notEq | less | lessEq | greater | greaterEq | not | andAnd | orOr | arrow
  deriving DecidableEq, Repr

namespace Symbol

/-- The spelling of a symbol. -/
def text : Symbol → String
  | plus => "+"
  | minus => "-"
  | star => "*"
  | starStar => "**"
  | slash => "/"
  | comma => ","
  | colon => ":"
  | semicolon => ";"
  | lparen => "("
  | rparen => ")"
  | lbrace => "\x7b"
  | rbrace => "\x7d"
  | assign => "="
  | eqEq => "=="
  | notEq => "!="
  | less => "<"
  | lessEq => "<="
  | greater => ">"
  | greaterEq => ">="
  | not => "!"
  | andAnd => "&&"
  | orOr => "||"
  | arrow => "->"

/-- The name of a symbol in debugging output. -/
def label : Symbol → String
  | plus => "Plus"
  | minus => "Minus"
  | star => "Star"
  | starStar => "StarStar"
  | slash => "Slash"
  | comma => "Comma"
  | colon => "Colon"
  | semicolon => "Semicolon"
  | lparen => "LParen"
  | rparen => "RParen"
  | lbrace => "LBrace"
  | rbrace => "RBrace"
  | assign => "Assign"
  | eqEq => "EqEq"
  | notEq => "NotEq"
  | less => "Less"
  | lessEq => "LessEq"
  | greater => "Greater"
  | greaterEq => "GreaterEq"
  | not => "Not"
  | andAnd => "AndAnd"
  | orOr => "OrOr"
  | arrow => "Arrow"

/-- Every symbol. -/
def all : List Symbol :=
  [plus, minus, star, starStar, slash, comma, colon, semicolon, lparen, rparen, lbrace, rbrace, assign, eqEq,
   notEq, less, lessEq, greater, greaterEq, not, andAnd, orOr, arrow]

/-- The symbol spelled `s`. -/
def ofText? (s : String) : Option Symbol := all.find? fun k => k.text == s

end Symbol

/-- What a token is.  A string literal holds the text between its quotes; a malformed lexeme stands only in
diagnostics. -/
inductive TokenKind where
  | keyword (k : Keyword)
  | identifier (name : String)
  | intLiteral (text : String)
  | floatLiteral (text : String)
  | stringLiteral (text : String)
  | symbol (s : Symbol)
  | malformed (text : String)
  deriving DecidableEq, Repr

namespace TokenKind

/-- A token as diagnostics and dumps name it. -/
def display : TokenKind → String
  | keyword k => "keyword `" ++ k.text ++ "`"
  | identifier name => "identifier `" ++ name ++ "`"
  | intLiteral t => "integer `" ++ t ++ "`"
  | floatLiteral t => "float `" ++ t ++ "`"
  | stringLiteral t => "string " ++ Text.quoted t
  | symbol s => "`" ++ s.text ++ "`"
  | malformed t => "malformed lexeme " ++ Text.quoted t

/-- The name of the class of a token. -/
def label : TokenKind → String
  | keyword _ => "Keyword"
  | identifier _ => "Identifier"
  | intLiteral _ => "IntLiteral"
  | floatLiteral _ => "FloatLiteral"
  | stringLiteral _ => "StringLiteral"
  | symbol _ => "Symbol"
  | malformed _ => "Error"

/-- The text of a token, a string literal without its quotes. -/
def text : TokenKind → String
  | keyword k => k.text
  | symbol s => s.text
  | identifier t | intLiteral t | floatLiteral t | stringLiteral t | malformed t => t

/-- The kind of token of a class with a text, if the class is known and has such a word. -/
def ofLabel? (label text : String) : Option TokenKind :=
  match label with
  | "Keyword" => (Keyword.ofText? text).map keyword
  | "Identifier" => some (identifier text)
  | "IntLiteral" => some (intLiteral text)
  | "FloatLiteral" => some (floatLiteral text)
  | "StringLiteral" => some (stringLiteral text)
  | "Symbol" => (Symbol.ofText? text).map symbol
  | "Error" => some (malformed text)
  | _ => none

/-- The class and the contents, as in `Identifier("x")` or `Symbol(LParen)`. -/
def debug (t : TokenKind) : String :=
  t.label ++ "(" ++ (match t with
    | keyword k => k.label
    | symbol s => s.label
    | t => Text.quoted t.text) ++ ")"

end TokenKind

/-- A token with its place in the source. -/
structure Token where
  kind : TokenKind
  span : Span
  deriving DecidableEq, Repr

namespace Token

def isSymbol (t : Token) (s : Symbol) : Bool := t.kind == .symbol s

def isKeyword (t : Token) (k : Keyword) : Bool := t.kind == .keyword k

/-- The kind and the span, as in `Token(Identifier("x"), 4..5)`. -/
def debug (t : Token) : String := "Token(" ++ t.kind.debug ++ ", " ++ t.span.text ++ ")"

end Token

end Scriptlet
