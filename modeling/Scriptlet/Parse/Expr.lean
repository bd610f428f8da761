import Scriptlet.Double.Rounding
import Scriptlet.Parse.Basic
import Scriptlet.Text.Digits

/-!
# Parsing expressions

One parser for each level of precedence.  A level is given the parser of the expressions inside it, those in
parentheses and in argument lists, so that `expr` alone is recursive.
-/

namespace Scriptlet.Parser

open Parse

/-! ### Leaves -/

/-- A name. -/
def ident : Parser Ident := do
  match ← peekKind with
  | some (.identifier name) =>
    let span ← nextSpan
    advance
    return ⟨name, span⟩
  | _ => unexpected .ident

/-- Two to the power 63, the least natural number that is no 64-bit integer. -/
def intLimit : Nat := 9223372036854775808

/-- The integer a literal stands for, if it fits in 64 bits together with its sign. -/
def intValue? (negative : Bool) (text : String) : Option Int :=
  let n := Text.digitsValue text.toList
  if negative then (if n ≤ intLimit then some (-n) else none)
  else if n < intLimit then some n else none

/-- The number a literal with a fraction stands for, if it is in the range of the doubles. -/
def doubleValue? (text : String) : Option Double :=
  let cs := text.toList
  let whole := cs.takeWhile (· ≠ '.')
  let fraction := cs.drop (whole.length + 1)
  let x := Double.ofDecimal false (Text.digitsValue (whole ++ fraction)) (-(fraction.length : Int))
  if x.isFinite then some x else none

/-- The value of the integer literal that is the next token, with its text. -/
def intValue (negative : Bool) (text : String) : Parser Int := do
  match intValue? negative text with
  | some n => return n
  | none => outOfRange text

/-- The value of the literal with a fraction that is the next token, with its text. -/
def doubleValue (text : String) : Parser Double := do
  match doubleValue? text with
  | some x => return x
  | none => outOfRange text

/-! ### Operators -/

/-- Symbols and the operators they stand for at one level of precedence. -/
abbrev Level := List (Symbol × BinaryOp)

def logicOps : Level := [(.andAnd, .and), (.orOr, .or)]

def relationOps : Level :=
  [(.eqEq, .eq), (.notEq, .ne), (.less, .lt), (.lessEq, .le), (.greater, .gt), (.greaterEq, .ge)]

def sumOps : Level := [(.plus, .add), (.minus, .sub)]

def productOps : Level := [(.star, .mul), (.slash, .div)]

/-- The operator of a level that a token stands for. -/
def Level.op? (ops : Level) : Option TokenKind → Option BinaryOp
  | some (.symbol s) => ops.lookup s
  | _ => none

/-- The prefix operator that a token stands for. -/
def unaryOp? : Option TokenKind → Option UnaryOp
  | some (.symbol .plus) => some .plus
  | some (.symbol .minus) => some .minus
  | some (.symbol .not) => some .not
  | _ => none

/-- Extends `lhs` by operators of a level and their right operands, nesting to the left. -/
def leftAssocFrom (ops : Level) (operand : Parser Expr) : (fuel : Nat) → Expr → Parser Expr
  | 0, _ => exhausted
  | fuel + 1, lhs => do
    match ops.op? (← peekKind) with
    | none => return lhs
    | some op =>
      advance
      let rhs ← operand
      leftAssocFrom ops operand fuel (.combine op lhs rhs)

/-- Operands with operators of a level between them. -/
def leftAssoc (ops : Level) (operand : Parser Expr) : Parser Expr := do
  let lhs ← operand
  leftAssocFrom ops operand (← rounds) lhs

/-- Operands with `**` between them, nesting to the right. -/
def powerFrom (operand : Parser Expr) : (fuel : Nat) → Parser Expr
  | 0 => exhausted
  | fuel + 1 => do
    enter .power
    let lhs ← operand
    if ← take .starStar then
      let rhs ← powerFrom operand fuel
      return .combine .pow lhs rhs
    else return lhs

/-- Prefix operators before an operand. -/
def unaryFrom (operand : Parser Expr) : (fuel : Nat) → Parser Expr
  | 0 => exhausted
  | fuel + 1 => do
    match unaryOp? (← peekKind) with
    | none => operand
    | some op =>
      let start ← nextSpan
      advance
      let e ← unaryFrom operand fuel
      return .unary op e (start.through e.span)

/-! ### Expressions -/

/-- A call of a function. -/
def callExpr (inner : Parser Expr) : Parser Expr := do
  enter .callExpr
  let callee ← ident
  let args ← list inner
  return .call callee args (callee.span.through (← lastSpan))

/-- A plain name. -/
def nameExpr : Parser Expr := do
  enter .nameExpr
  let name ← ident
  return .name name.name name.span

/-- A literal, a call, a name, or an expression in parentheses. -/
def primary (inner : Parser Expr) : Parser Expr := do
  enter .primary
  let span ← nextSpan
  let literal (value : Literal) : Parser Expr := do
    advance
    return .literal value span
  match ← peekKind with
  | some (.intLiteral text) => literal (.int (← intValue false text))
  | some (.floatLiteral text) => literal (.double (← doubleValue text))
  | some (.stringLiteral text) => literal (.string text)
  | some (.keyword .trueKw) => literal (.bool true)
  | some (.keyword .falseKw) => literal (.bool false)
  | some (.keyword .inputKw) =>
    advance
    let args ← list inner
    return .call ⟨Keyword.inputKw.text, span⟩ args (span.through (← lastSpan))
  | some (.symbol .lparen) =>
    advance
    let e ← inner
    let close ← symbol .rparen
    return e.withSpan (span.through close)
  | some (.identifier _) => orElse (callExpr inner) nameExpr
  | _ => unexpected .expr

/-- Prefix operators before a primary expression. -/
def unary (inner : Parser Expr) : Parser Expr := do unaryFrom (primary inner) (← rounds)

/-- Unary expressions with `**` between them. -/
def power (inner : Parser Expr) : Parser Expr := do powerFrom (unary inner) (← rounds)

/-- Products and quotients. -/
def product (inner : Parser Expr) : Parser Expr := leftAssoc productOps (power inner)

/-- Sums and differences. -/
def sum (inner : Parser Expr) : Parser Expr := leftAssoc sumOps (product inner)

/-- Comparisons. -/
def relation (inner : Parser Expr) : Parser Expr := leftAssoc relationOps (sum inner)

/-- Conjunctions and disjunctions, at one level. -/
def logic (inner : Parser Expr) : Parser Expr := leftAssoc logicOps (relation inner)

/-- An expression in which parentheses and argument lists nest less than `depth` times. -/
def expr : (depth : Nat) → Parser Expr
  | 0 => exhausted
  | depth + 1 => do
    enter .expr
    logic (expr depth)

end Scriptlet.Parser
