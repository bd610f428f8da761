import Scriptlet.Double.Basic
import Scriptlet.Span
import Scriptlet.Ty

/-!
# Programs as trees

A program is a list of items, `let` declarations and functions; a function has a block of statements, and
statements hold expressions.  The grammar, in which `[x]` is an optional part and `x*` a repeated one:

    program    = item*
    item       = let | func
    let        = 'let' ID [':' TYPE] '=' expr ';'
    var        = 'var' ID [':' TYPE] '=' expr ';'
    func       = 'func' ID '(' [param (',' param)* [',']] ')' ['->' TYPE] block
    param      = ID ':' TYPE
    block      = '{' stmt* '}'
    stmt       = let | var | 'print' args ';' | 'return' [expr] ';' | ID '=' expr ';' | ID args ';'
               | 'for' ID 'in' ('range' '(' INT ',' INT ',' INT ')' | expr) block
               | 'while' expr block | if | 'switch' expr '{' case* '}'
    if         = 'if' expr block ['else' (block | if)]
    case       = 'case' comparator block | 'default' block
    comparator = 'range' '(' INT ',' INT ')' | const (',' const)*
    const      = ['-'] INT | ['-'] FLOAT | STRING | 'true' | 'false'
    args       = '(' [expr (',' expr)* [',']] ')'
    expr       = relation (('&&' | '||') relation)*
    relation   = sum (('==' | '!=' | '<' | '<=' | '>' | '>=') sum)*
    sum        = product (('+' | '-') product)*
    product    = power (('*' | '/') power)*
    power      = unary ['**' power]
    unary      = ('+' | '-' | '!') unary | primary
    primary    = INT | FLOAT | STRING | 'true' | 'false' | '(' expr ')' | 'input' args | ID args | ID

Every part carries its span.
-/

namespace Scriptlet

/-! ### Leaves -/

/-- A name where it is declared or used. -/
structure Ident where
  name : String
  span : Span
  deriving DecidableEq, Repr

/-- A type where it is written. -/
structure TypeName where
  ty : Ty
  span : Span
  deriving DecidableEq, Repr

/-- A constant written in the source. -/
inductive Literal where
  | int (value : Int)
  | double (value : Double)
  | string (value : String)
  | bool (value : Bool)
  deriving DecidableEq, Repr

/-- The type of a constant. -/
def Literal.ty : Literal → Ty
  | int _ => .int
  | double _ => .double
  | string _ => .string
  | bool _ => .bool

/-- The operators with one operand. -/
inductive UnaryOp where
  | plus
  | minus
  | not
  deriving DecidableEq, Repr

/-- The name of an operator in the operator table.  The signs have names other than those of the operators with
two operands. -/
def UnaryOp.opName : UnaryOp → String
  | plus => "u+"
  | minus => "u-"
  | not => "!"

/-- The name of an operator in tree dumps. -/
def UnaryOp.label : UnaryOp → String
  | plus => "Plus"
  | minus => "Minus"
  | not => "Not"

/-- The operators with two operands. -/
inductive BinaryOp where
  | add | sub | mul | div | pow | eq | ne | lt | le | gt | ge | and | or
  deriving DecidableEq, Repr

/-- The name of an operator in the operator table, which is its spelling. -/
def BinaryOp.opName : BinaryOp → String
  | add => "+"
  | sub => "-"
  | mul => "*"
  | div => "/"
  | pow => "**"
  | eq => "=="
  | ne => "!="
  | lt => "<"
  | le => "<="
  | gt => ">"
  | ge => ">="
  | and => "&&"
  | or => "||"

/-- The name of an operator in tree dumps. -/
def BinaryOp.label : BinaryOp → String
  | add => "Add"
  | sub => "Sub"
  | mul => "Mul"
  | div => "Div"
  | pow => "Pow"
  | eq => "Eq"
  | ne => "Ne"
  | lt => "Lt"
  | le => "Le"
  | gt => "Gt"
  | ge => "Ge"
  | and => "And"
  | or => "Or"

/-- The operators with one operand. -/
def UnaryOp.all : List UnaryOp := [plus, minus, not]

/-- The operators with two operands. -/
def BinaryOp.all : List BinaryOp := [add, sub, mul, div, pow, eq, ne, lt, le, gt, ge, and, or]

/-! ### Expressions -/

inductive Expr where
  | literal (value : Literal) (span : Span)
  | name (name : String) (span : Span)
  | call (callee : Ident) (args : List Expr) (span : Span)
  | unary (op : UnaryOp) (operand : Expr) (span : Span)
  | binary (op : BinaryOp) (lhs rhs : Expr) (span : Span)
  deriving Repr

namespace Expr

/-- The place of an expression, the outermost parentheses around it included. -/
def span : Expr → Span
  | literal _ s | name _ s | call _ _ s | unary _ _ s | binary _ _ _ s => s

/-- The expression at another place. -/
def withSpan (s : Span) : Expr → Expr
  | literal v _ => literal v s
  | name n _ => name n s
  | call f args _ => call f args s
  | unary op e _ => unary op e s
  | binary op l r _ => binary op l r s

@[simp] theorem span_withSpan (s : Span) (e : Expr) : (e.withSpan s).span = s := by
  cases e <;> rfl

/-- An operator between two expressions. -/
def combine (op : BinaryOp) (lhs rhs : Expr) : Expr := binary op lhs rhs (lhs.span.through rhs.span)

end Expr

/-! ### Statements -/

/-- A parameter of a function. -/
structure Param where
  name : Ident
  type : TypeName
  deriving DecidableEq, Repr

/-- The name, the optional type and the value of a `let` or `var` declaration. -/
structure Decl where
  name : Ident
  type : Option TypeName
  value : Expr
  deriving Repr

/-- What a `for` loop runs over. -/
inductive Iterable where
  | range (first last step : Int) (span : Span)
  | expr (e : Expr)
  deriving Repr

/-- A constant of a `case`. -/
structure Const where
  literal : Literal
  span : Span
  deriving DecidableEq, Repr

/-- What a `case` matches: a constant, one of some constants, or the integers from `lo` up to `hi`, which is
excluded. -/
inductive Comparator where
  | const (c : Const)
  | oneOf (cs : List Const)
  | range (lo hi : Int) (span : Span)
  deriving DecidableEq, Repr

mutual

/-- A declaration that may stand outside functions. -/
inductive Item where
  | letDecl (decl : Decl) (span : Span)
  | func (name : Ident) (params : List Param) (result : Option TypeName) (body : Block) (span : Span)

/-- A statement.  An `else if` is an `else` block with the inner `if` as its only statement. -/
inductive Stmt where
  | item (item : Item)
  | varDecl (decl : Decl) (span : Span)
  | assign (target : Ident) (value : Expr) (span : Span)
  | print (args : List Expr) (span : Span)
  | ret (value : Option Expr) (span : Span)
  | call (callee : Ident) (args : List Expr) (span : Span)
  | forLoop (var : Ident) (iterable : Iterable) (body : Block) (span : Span)
  | whileLoop (cond : Expr) (body : Block) (span : Span)
  | ifThen (cond : Expr) (thenBlock : Block) (span : Span)
  | ifElse (cond : Expr) (thenBlock elseBlock : Block) (span : Span)
  | switch (subject : Expr) (cases : List Case) (span : Span)

/-- Statements between braces; the span includes these. -/
inductive Block where
  | mk (stmts : List Stmt) (span : Span)

/-- A case of a `switch`, from its keyword to its closing brace.  The `default` case has no comparator. -/
inductive Case where
  | mk (comparator : Option Comparator) (body : Block) (span : Span)

end

def Item.span : Item → Span
  | letDecl _ s | func _ _ _ _ s => s

def Stmt.span : Stmt → Span
  | item i => i.span
  | varDecl _ s | assign _ _ s | print _ s | ret _ s | call _ _ s | forLoop _ _ _ s | whileLoop _ _ s
  | ifThen _ _ s | ifElse _ _ _ s | switch _ _ s => s

def Block.stmts : Block → List Stmt
  | mk stmts _ => stmts

def Block.span : Block → Span
  | mk _ s => s

def Case.comparator : Case → Option Comparator
  | mk c _ _ => c

def Case.body : Case → Block
  | mk _ b _ => b

def Case.span : Case → Span
  | mk _ _ s => s

/-- A whole program. -/
structure Program where
  items : List Item

end Scriptlet
