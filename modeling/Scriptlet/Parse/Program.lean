import Scriptlet.Parse.Stmt

/-!
# Parsing programs

`parseProgram` reads a whole token list as a program, and `parseExpr` as one expression.
-/

namespace Scriptlet

namespace Parser

open Parse

/-- A function. -/
def func (block : Parser Block) : Parser (Span → Item) := do
  enter .func
  let _ ← keyword .funcKw
  let name ← ident
  let params ← list param
  let result ← typeAfter .arrow
  let body ← block
  return .func name params result body

/-- A `let` declaration or a function. -/
def item (expr : Parser Expr) (block : Parser Block) : Parser (Span → Item) := do
  enter .item
  if ← atKeyword .letKw then letItem expr
  else if ← atKeyword .funcKw then func block
  else unexpected .item

/-- The items up to the end of the tokens. -/
def itemsToEnd (item : Parser Item) : (fuel : Nat) → Parser (List Item)
  | 0 => exhausted
  | fuel + 1 => do
    if (← peekKind).isNone then return []
    else
      let i ← item
      return i :: (← itemsToEnd item fuel)

/-- A program. -/
def program (depth : Nat) : Parser Program := do
  enter .program
  let items ← itemsToEnd (spanned (item (expr depth) (block (expr depth) depth))) (← rounds)
  return ⟨items⟩

/-- An expression and then the end of the tokens. -/
def wholeExpr (depth : Nat) : Parser Expr := do
  let e ← expr depth
  if (← peekKind).isNone then return e
  else unexpected .eof

end Parser

/-- A depth that no nesting in these tokens reaches. -/
def Parse.depthFor (tokens : List Token) : Nat := tokens.length + 1

/-- Reads a token list as a program, with the history of the parse. -/
def Parse.programOutcome (tokens : List Token) : Parse.Outcome Program :=
  (Parser.program (Parse.depthFor tokens)).run tokens

/-- Reads a token list as an expression, with the history of the parse. -/
def Parse.exprOutcome (tokens : List Token) : Parse.Outcome Expr :=
  (Parser.wholeExpr (Parse.depthFor tokens)).run tokens

/-- The program that a token list stands for, or the syntax error that got furthest. -/
def parseProgram (tokens : List Token) : Except (Located ParseError) Program :=
  (Parse.programOutcome tokens).result

/-- The expression that a token list stands for, or the syntax error that got furthest. -/
def parseExpr (tokens : List Token) : Except (Located ParseError) Expr :=
  (Parse.exprOutcome tokens).result

end Scriptlet
