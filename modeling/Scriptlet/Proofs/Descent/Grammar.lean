import Scriptlet.Parse.Program
import Scriptlet.Proofs.Descent.Basic

/-!
# Recursive descent

One reader for each production of the grammar.  Every choice is made by looking ahead: at a name that begins a
statement an `=` after it means an assignment and anything else a call, and at a name in an expression a `(` after it
means a call and anything else a plain name.  The first error that is met is the one reported.
-/

namespace Scriptlet.Descent

open Parse
open Scriptlet.Parser (Level unaryOp? typeOf? logicOps relationOps sumOps productOps)

/-! ### Expressions -/

/-- Extends `lhs` by operators of a level and their right operands, nesting to the left. -/
def leftAssocFrom (ops : Level) (operand : Descent Expr) : (fuel : Nat) → Expr → Descent Expr
  | 0, _ => exhausted
  | fuel + 1, lhs => do
    match ops.op? (← peekKind) with
    | none => return lhs
    | some op =>
      advance
      let rhs ← operand
      leftAssocFrom ops operand fuel (.combine op lhs rhs)

/-- Operands with operators of a level between them. -/
def leftAssoc (ops : Level) (operand : Descent Expr) : Descent Expr := do
  let lhs ← operand
  leftAssocFrom ops operand (← rounds) lhs

/-- Operands with `**` between them, nesting to the right. -/
def powerFrom (operand : Descent Expr) : (fuel : Nat) → Descent Expr
  | 0 => exhausted
  | fuel + 1 => do
    let lhs ← operand
    if ← take (.symbol .starStar) then
      let rhs ← powerFrom operand fuel
      return .combine .pow lhs rhs
    else return lhs

/-- Prefix operators before an operand. -/
def unaryFrom (operand : Descent Expr) : (fuel : Nat) → Descent Expr
  | 0 => exhausted
  | fuel + 1 => do
    match unaryOp? (← peekKind) with
    | none => operand
    | some op =>
      let start ← nextSpan
      advance
      let e ← unaryFrom operand fuel
      return .unary op e (start.through e.span)

/-- A call of a function. -/
def callExpr (inner : Descent Expr) : Descent Expr := do
  let callee ← ident
  let args ← list inner
  return .call callee args (callee.span.through (← lastSpan))

/-- A plain name. -/
def nameExpr : Descent Expr := do
  let name ← ident
  return .name name.name name.span

/-- The literal that is the next token, which is consumed. -/
def literal (value : Literal) : Descent Expr := do
  let span ← nextSpan
  advance
  return .literal value span

/-- A call of `input`, whose name is the next token. -/
def inputCall (inner : Descent Expr) : Descent Expr := do
  let span ← nextSpan
  advance
  let args ← list inner
  return .call ⟨Keyword.inputKw.text, span⟩ args (span.through (← lastSpan))

/-- An expression in parentheses, the first of which is the next token. -/
def parenthesized (inner : Descent Expr) : Descent Expr := do
  let span ← nextSpan
  advance
  let e ← inner
  let close ← symbol .rparen
  return e.withSpan (span.through close)

/-- A literal, a call, a name, or an expression in parentheses. -/
def primary (inner : Descent Expr) : Descent Expr := do
  match ← peekKind with
  | some (.intLiteral text) => literal (.int (← intValue false text))
  | some (.floatLiteral text) => literal (.double (← doubleValue text))
  | some (.stringLiteral text) => literal (.string text)
  | some (.keyword .trueKw) => literal (.bool true)
  | some (.keyword .falseKw) => literal (.bool false)
  | some (.keyword .inputKw) => inputCall inner
  | some (.symbol .lparen) => parenthesized inner
  | some (.identifier _) => if (← peekSecond) = some (.symbol .lparen) then callExpr inner else nameExpr
  | _ => unexpected .expr

/-- Prefix operators before a primary expression. -/
def unary (inner : Descent Expr) : Descent Expr := do unaryFrom (primary inner) (← rounds)

/-- Unary expressions with `**` between them. -/
def power (inner : Descent Expr) : Descent Expr := do powerFrom (unary inner) (← rounds)

/-- Products and quotients. -/
def product (inner : Descent Expr) : Descent Expr := leftAssoc productOps (power inner)

/-- Sums and differences. -/
def sum (inner : Descent Expr) : Descent Expr := leftAssoc sumOps (product inner)

/-- Comparisons. -/
def relation (inner : Descent Expr) : Descent Expr := leftAssoc relationOps (sum inner)

/-- Conjunctions and disjunctions, at one level. -/
def logic (inner : Descent Expr) : Descent Expr := leftAssoc logicOps (relation inner)

/-- An expression in which parentheses and argument lists nest less than `depth` times. -/
def expr : (depth : Nat) → Descent Expr
  | 0 => exhausted
  | depth + 1 => logic (expr depth)

/-! ### Parts of statements -/

/-- A type. -/
def typeName : Descent TypeName := do
  match typeOf? (← peekKind) with
  | some ty =>
    let span ← nextSpan
    advance
    return ⟨ty, span⟩
  | none => unexpected .type

/-- A type after a symbol, both of which may be absent. -/
def typeAfter (s : Symbol) : Descent (Option TypeName) := do
  if ← take (.symbol s) then return some (← typeName) else return none

/-- A parameter of a function. -/
def param : Descent Param := do
  let name ← ident
  let _ ← symbol .colon
  let type ← typeName
  return ⟨name, type⟩

/-- An integer literal, which a minus may precede. -/
def intConst : Descent Int := do
  let negative ← take (.symbol .minus)
  match ← peekKind with
  | some (.intLiteral text) =>
    let n ← intValue negative text
    advance
    return n
  | _ => unexpected .intLiteral

/-- The value of a constant whose sign has been read.  Only numbers have one. -/
def constValue (negative : Bool) : Descent Literal := do
  match ← peekKind, negative with
  | some (.intLiteral text), _ => return .int (← intValue negative text)
  | some (.floatLiteral text), _ =>
    let x ← doubleValue text
    return .double (if negative then x.neg else x)
  | some (.stringLiteral text), false => return .string text
  | some (.keyword .trueKw), false => return .bool true
  | some (.keyword .falseKw), false => return .bool false
  | _, _ => unexpected .const

/-- A constant of a `case`. -/
def const : Descent Const := spanned do
  let negative ← take (.symbol .minus)
  let value ← constValue negative
  advance
  return (⟨value, ·⟩)

/-- The constants after the first one, each after a comma. -/
def constsFrom : (fuel : Nat) → Descent (List Const)
  | 0 => exhausted
  | fuel + 1 => do
    if ← take (.symbol .comma) then
      let c ← const
      return c :: (← constsFrom fuel)
    else return []

/-- The bounds of a `case` range, after the keyword. -/
def caseRange : Descent (Span → Comparator) := do
  let _ ← keyword .rangeKw
  let _ ← symbol .lparen
  let lo ← intConst
  let _ ← symbol .comma
  let hi ← intConst
  let _ ← symbol .rparen
  return .range lo hi

/-- What a `case` matches. -/
def comparator : Descent Comparator := do
  if (← peekKind) == some (.keyword .rangeKw) then spanned caseRange
  else
    let first ← const
    match ← constsFrom (← rounds) with
    | [] => return .const first
    | others => return .oneOf (first :: others)

/-- The bounds and the step of a `for` loop over integers, after the keyword. -/
def forRange : Descent (Span → Iterable) := do
  let _ ← keyword .rangeKw
  let _ ← symbol .lparen
  let first ← intConst
  let _ ← symbol .comma
  let last ← intConst
  let _ ← symbol .comma
  let step ← intConst
  let _ ← symbol .rparen
  return .range first last step

/-- What a `for` loop runs over. -/
def iterable (expr : Descent Expr) : Descent Iterable := do
  if (← peekKind) == some (.keyword .rangeKw) then spanned forRange
  else return .expr (← expr)

/-! ### Simple statements -/

/-- A `let` or `var` declaration. -/
def decl (expr : Descent Expr) (k : Keyword) : Descent Decl := do
  let _ ← keyword k
  let name ← ident
  let type ← typeAfter .colon
  let _ ← symbol .assign
  let value ← expr
  let _ ← symbol .semicolon
  return ⟨name, type, value⟩

/-- A `print` statement. -/
def printStmt (expr : Descent Expr) : Descent (Span → Stmt) := do
  let _ ← keyword .printKw
  let args ← list expr
  let _ ← symbol .semicolon
  return .print args

/-- A `return` statement, with or without a value. -/
def returnStmt (expr : Descent Expr) : Descent (Span → Stmt) := do
  let _ ← keyword .returnKw
  if ← take (.symbol .semicolon) then return .ret none
  else
    let value ← expr
    let _ ← symbol .semicolon
    return .ret (some value)

/-- An assignment. -/
def assignStmt (expr : Descent Expr) : Descent (Span → Stmt) := do
  let target ← ident
  let _ ← symbol .assign
  let value ← expr
  let _ ← symbol .semicolon
  return .assign target value

/-- A call as a statement. -/
def callStmt (expr : Descent Expr) : Descent (Span → Stmt) := do
  let callee ← ident
  let args ← list expr
  let _ ← symbol .semicolon
  return .call callee args

/-! ### Statements with blocks -/

/-- A `for` loop. -/
def forStmt (expr : Descent Expr) (block : Descent Block) : Descent (Span → Stmt) := do
  let _ ← keyword .forKw
  let var ← ident
  let _ ← keyword .inKw
  let iterable ← iterable expr
  let body ← block
  return .forLoop var iterable body

/-- A `while` loop. -/
def whileStmt (expr : Descent Expr) (block : Descent Block) : Descent (Span → Stmt) := do
  let _ ← keyword .whileKw
  let cond ← expr
  let body ← block
  return .whileLoop cond body

/-- An `if` statement with the chain of its `else if`s. -/
def ifFrom (expr : Descent Expr) (block : Descent Block) : (fuel : Nat) → Descent (Span → Stmt)
  | 0 => exhausted
  | fuel + 1 => do
    let _ ← keyword .ifKw
    let cond ← expr
    let thenBlock ← block
    if ← take (.keyword .elseKw) then
      if (← peekKind) == some (.keyword .ifKw) then
        let inner ← spanned (ifFrom expr block fuel)
        return .ifElse cond thenBlock (.mk [inner] inner.span)
      else return .ifElse cond thenBlock (← block)
    else return .ifThen cond thenBlock

/-- An `if` statement. -/
def ifStmt (expr : Descent Expr) (block : Descent Block) : Descent (Span → Stmt) := do
  ifFrom expr block (← rounds)

/-- A case, from its keyword on. -/
def caseClause (block : Descent Block) : Descent (Span → Case) := do
  if ← take (.keyword .caseKw) then
    let c ← comparator
    return .mk (some c) (← block)
  else if ← take (.keyword .defaultKw) then
    return .mk none (← block)
  else unexpected .case

/-- The cases of a `switch`, up to the closing brace. -/
def casesFrom (block : Descent Block) : (fuel : Nat) → Descent (List Case)
  | 0 => exhausted
  | fuel + 1 => do
    if ← take (.symbol .rbrace) then return []
    else
      let c ← spanned (caseClause block)
      return c :: (← casesFrom block fuel)

/-- A `switch` statement. -/
def switchStmt (expr : Descent Expr) (block : Descent Block) : Descent (Span → Stmt) := do
  let _ ← keyword .switchKw
  let subject ← expr
  let _ ← symbol .lbrace
  let cases ← casesFrom block (← rounds)
  return .switch subject cases

/-- A `let` declaration as an item. -/
def letItem (expr : Descent Expr) : Descent (Span → Item) := do
  let d ← decl expr .letKw
  return .letDecl d

/-- A statement. -/
def stmt (expr : Descent Expr) (block : Descent Block) : Descent (Span → Stmt) := do
  match ← peekKind with
  | some (.keyword .letKw) =>
    let build ← letItem expr
    return fun span => .item (build span)
  | some (.keyword .varKw) =>
    let d ← decl expr .varKw
    return .varDecl d
  | some (.keyword .printKw) => printStmt expr
  | some (.keyword .returnKw) => returnStmt expr
  | some (.keyword .forKw) => forStmt expr block
  | some (.keyword .whileKw) => whileStmt expr block
  | some (.keyword .ifKw) => ifStmt expr block
  | some (.keyword .switchKw) => switchStmt expr block
  | some (.identifier _) => if (← peekSecond) = some (.symbol .assign) then assignStmt expr else callStmt expr
  | _ => unexpected .stmt

/-- The statements of a block, up to its closing brace. -/
def stmtsFrom (stmt : Descent Stmt) : (fuel : Nat) → Descent (List Stmt)
  | 0 => exhausted
  | fuel + 1 => do
    if (← peekKind) == some (.symbol .rbrace) then return []
    else
      let s ← stmt
      return s :: (← stmtsFrom stmt fuel)

/-- A block in which blocks nest less than `depth` times. -/
def block (expr : Descent Expr) : (depth : Nat) → Descent Block
  | 0 => exhausted
  | depth + 1 => do
    let opening ← symbol .lbrace
    let stmts ← stmtsFrom (spanned (stmt expr (block expr depth))) (← rounds)
    let closing ← symbol .rbrace
    return .mk stmts (opening.through closing)

/-! ### Programs -/

/-- A function. -/
def func (block : Descent Block) : Descent (Span → Item) := do
  let _ ← keyword .funcKw
  let name ← ident
  let params ← list param
  let result ← typeAfter .arrow
  let body ← block
  return .func name params result body

/-- A `let` declaration or a function. -/
def item (expr : Descent Expr) (block : Descent Block) : Descent (Span → Item) := do
  match ← peekKind with
  | some (.keyword .letKw) => letItem expr
  | some (.keyword .funcKw) => func block
  | _ => unexpected .item

/-- The items up to the end of the tokens. -/
def itemsToEnd (item : Descent Item) : (fuel : Nat) → Descent (List Item)
  | 0 => exhausted
  | fuel + 1 => do
    if (← peekKind).isNone then return []
    else
      let i ← item
      return i :: (← itemsToEnd item fuel)

/-- A program. -/
def program (depth : Nat) : Descent Program := do
  let items ← itemsToEnd (spanned (item (expr depth) (block (expr depth) depth))) (← rounds)
  return ⟨items⟩

/-- An expression and then the end of the tokens. -/
def wholeExpr (depth : Nat) : Descent Expr := do
  let e ← expr depth
  if (← peekKind).isNone then return e
  else unexpected .eof

/-- What a reader makes of a whole token list. -/
def run (p : Descent α) (tokens : List Token) : Except Stop α :=
  match p (.start tokens) with
  | .ok a _ => .ok a
  | .error e _ => .error e

end Scriptlet.Descent
