import Scriptlet.Parse.Expr

/-!
# Parsing statements

One parser for each kind of statement.  Each is given the parser of expressions, and those with blocks the parser
of blocks, so that `block` alone is recursive.  A statement is read as a function of its span, which
`Parser.spanned` supplies.
-/

namespace Scriptlet.Parser

open Parse

/-! ### Parts of statements -/

/-- The type that a keyword names. -/
def typeOf? : Option TokenKind → Option Ty
  | some (.keyword .intTy) => some .int
  | some (.keyword .doubleTy) => some .double
  | some (.keyword .stringTy) => some .string
  | some (.keyword .boolTy) => some .bool
  | some (.keyword .voidTy) => some .void
  | _ => none

/-- A type. -/
def typeName : Parser TypeName := do
  match typeOf? (← peekKind) with
  | some ty =>
    let span ← nextSpan
    advance
    return ⟨ty, span⟩
  | none => unexpected .type

/-- A type after a symbol, both of which may be absent. -/
def typeAfter (s : Symbol) : Parser (Option TypeName) := do
  if ← take s then return some (← typeName) else return none

/-- A parameter of a function. -/
def param : Parser Param := do
  let name ← ident
  let _ ← symbol .colon
  let type ← typeName
  return ⟨name, type⟩

/-- An integer literal, which a minus may precede. -/
def intConst : Parser Int := do
  let negative ← take .minus
  match ← peekKind with
  | some (.intLiteral text) =>
    let n ← intValue negative text
    advance
    return n
  | _ => unexpected .intLiteral

/-- The value of a constant whose sign has been read.  Only numbers have one. -/
def constValue (negative : Bool) : Parser Literal := do
  match ← peekKind, negative with
  | some (.intLiteral text), _ => return .int (← intValue negative text)
  | some (.floatLiteral text), _ =>
    let x ← doubleValue text
    return .double (if negative then x.neg else x)
  | some (.stringLiteral text), false => return .string text
  | some (.keyword .trueKw), false => return .bool true
  | some (.keyword .falseKw), false => return .bool false
  | _, _ => unexpected .const

/-- A constant of a `case`. -/
def const : Parser Const := spanned do
  let negative ← take .minus
  let value ← constValue negative
  advance
  return (⟨value, ·⟩)

/-- The constants after the first one, each after a comma. -/
def constsFrom : (fuel : Nat) → Parser (List Const)
  | 0 => exhausted
  | fuel + 1 => do
    if ← take .comma then
      let c ← const
      return c :: (← constsFrom fuel)
    else return []

/-- The bounds of a `case` range, after the keyword. -/
def caseRange : Parser (Span → Comparator) := do
  let _ ← keyword .rangeKw
  let _ ← symbol .lparen
  let lo ← intConst
  let _ ← symbol .comma
  let hi ← intConst
  let _ ← symbol .rparen
  return .range lo hi

/-- What a `case` matches. -/
def comparator : Parser Comparator := do
  enter .comparator
  if ← atKeyword .rangeKw then spanned caseRange
  else
    let first ← const
    match ← constsFrom (← rounds) with
    | [] => return .const first
    | others => return .oneOf (first :: others)

/-- The bounds and the step of a `for` loop over integers, after the keyword. -/
def forRange : Parser (Span → Iterable) := do
  let _ ← keyword .rangeKw
  let _ ← symbol .lparen
  let first ← intConst
  let _ ← symbol .comma
  let last ← intConst
  let _ ← symbol .comma
  let step ← intConst
  let _ ← symbol .rparen
  return .range first last step

/-- What a `for` loop runs over. -/
def iterable (expr : Parser Expr) : Parser Iterable := do
  if ← atKeyword .rangeKw then spanned forRange
  else return .expr (← expr)

/-! ### Simple statements -/

/-- A `let` or `var` declaration. -/
def decl (expr : Parser Expr) (k : Keyword) : Parser Decl := do
  enter (.decl k)
  let _ ← keyword k
  let name ← ident
  let type ← typeAfter .colon
  let _ ← symbol .assign
  let value ← expr
  let _ ← symbol .semicolon
  return ⟨name, type, value⟩

/-- A `print` statement. -/
def printStmt (expr : Parser Expr) : Parser (Span → Stmt) := do
  enter .print
  let _ ← keyword .printKw
  let args ← list expr
  let _ ← symbol .semicolon
  return .print args

/-- A `return` statement, with or without a value. -/
def returnStmt (expr : Parser Expr) : Parser (Span → Stmt) := do
  enter .ret
  let _ ← keyword .returnKw
  if ← take .semicolon then return .ret none
  else
    let value ← expr
    let _ ← symbol .semicolon
    return .ret (some value)

/-- An assignment. -/
def assignStmt (expr : Parser Expr) : Parser (Span → Stmt) := do
  enter .assign
  let target ← ident
  let _ ← symbol .assign
  let value ← expr
  let _ ← symbol .semicolon
  return .assign target value

/-- A call as a statement. -/
def callStmt (expr : Parser Expr) : Parser (Span → Stmt) := do
  enter .callStmt
  let callee ← ident
  let args ← list expr
  let _ ← symbol .semicolon
  return .call callee args

/-! ### Statements with blocks -/

/-- A `for` loop. -/
def forStmt (expr : Parser Expr) (block : Parser Block) : Parser (Span → Stmt) := do
  enter .forLoop
  let _ ← keyword .forKw
  let var ← ident
  let _ ← keyword .inKw
  let iterable ← iterable expr
  let body ← block
  return .forLoop var iterable body

/-- A `while` loop. -/
def whileStmt (expr : Parser Expr) (block : Parser Block) : Parser (Span → Stmt) := do
  enter .whileLoop
  let _ ← keyword .whileKw
  let cond ← expr
  let body ← block
  return .whileLoop cond body

/-- An `if` statement with the chain of its `else if`s. -/
def ifFrom (expr : Parser Expr) (block : Parser Block) : (fuel : Nat) → Parser (Span → Stmt)
  | 0 => exhausted
  | fuel + 1 => do
    enter .ifStmt
    let _ ← keyword .ifKw
    let cond ← expr
    let thenBlock ← block
    if ← takeKeyword .elseKw then
      if ← atKeyword .ifKw then
        let inner ← spanned (ifFrom expr block fuel)
        return .ifElse cond thenBlock (.mk [inner] inner.span)
      else return .ifElse cond thenBlock (← block)
    else return .ifThen cond thenBlock

/-- An `if` statement. -/
def ifStmt (expr : Parser Expr) (block : Parser Block) : Parser (Span → Stmt) := do
  ifFrom expr block (← rounds)

/-- A case, from its keyword on. -/
def caseClause (block : Parser Block) : Parser (Span → Case) := do
  if ← takeKeyword .caseKw then
    let c ← comparator
    return .mk (some c) (← block)
  else if ← takeKeyword .defaultKw then
    return .mk none (← block)
  else unexpected .case

/-- The cases of a `switch`, up to the closing brace. -/
def casesFrom (block : Parser Block) : (fuel : Nat) → Parser (List Case)
  | 0 => exhausted
  | fuel + 1 => do
    if ← take .rbrace then return []
    else
      let c ← spanned (caseClause block)
      return c :: (← casesFrom block fuel)

/-- A `switch` statement. -/
def switchStmt (expr : Parser Expr) (block : Parser Block) : Parser (Span → Stmt) := do
  enter .switch
  let _ ← keyword .switchKw
  let subject ← expr
  let _ ← symbol .lbrace
  let cases ← casesFrom block (← rounds)
  return .switch subject cases

/-- A `let` declaration as an item. -/
def letItem (expr : Parser Expr) : Parser (Span → Item) := do
  let d ← decl expr .letKw
  return .letDecl d

/-- A statement.  A name begins an assignment or a call. -/
def stmt (expr : Parser Expr) (block : Parser Block) : Parser (Span → Stmt) := do
  match ← peekKind with
  | some (.keyword .letKw) =>
    let build ← letItem expr
    return fun span => .item (build span)
  | some (.keyword .varKw) =>
    let d ← decl expr .varKw
    return .varDecl d
  | some (.keyword .printKw) => printStmt expr
  | some (.keyword .returnKw) => returnStmt expr
  | some (.keyword .forKw) => forStmt expr block
  | some (.keyword .whileKw) => whileStmt expr block
  | some (.keyword .ifKw) => ifStmt expr block
  | some (.keyword .switchKw) => switchStmt expr block
  | some (.identifier _) => orElse (assignStmt expr) (callStmt expr)
  | _ => unexpected .stmt

/-- The statements of a block, up to its closing brace. -/
def stmtsFrom (stmt : Parser Stmt) : (fuel : Nat) → Parser (List Stmt)
  | 0 => exhausted
  | fuel + 1 => do
    if ← atSymbol .rbrace then return []
    else
      let s ← stmt
      return s :: (← stmtsFrom stmt fuel)

/-- A block in which blocks nest less than `depth` times. -/
def block (expr : Parser Expr) : (depth : Nat) → Parser Block
  | 0 => exhausted
  | depth + 1 => do
    enter .block
    let opening ← symbol .lbrace
    let stmts ← stmtsFrom (spanned (stmt expr (block expr depth))) (← rounds)
    let closing ← symbol .rbrace
    return .mk stmts (opening.through closing)

end Scriptlet.Parser
