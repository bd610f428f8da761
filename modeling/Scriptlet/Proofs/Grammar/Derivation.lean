import Scriptlet.Parse.Expr
import Scriptlet.Program.Bare

/-!
# The grammar

Which words of token kinds are programs, and which trees they stand for: one rule for each alternative of the grammar
in `Program.Basic`.  Trees have blank spans, as a word has no places.  Operators of one rank stand at one level and
nest to the left, but for `**`, which nests to the right and has a unary expression before it; a list may end in a
comma after its last item; an `else if` is an `else` with a block of the inner `if` alone; and numbers are those that
the language can hold (`IsInt`, `IsDouble`).
-/

namespace Scriptlet

/-! ### Spelling -/

/-- The symbol of a prefix operator. -/
def UnaryOp.symbol : UnaryOp → Symbol
  | plus => .plus
  | minus => .minus
  | not => .not

/-- The symbol of an operator between operands. -/
def BinaryOp.symbol : BinaryOp → Symbol
  | add => .plus
  | sub => .minus
  | mul => .star
  | div => .slash
  | pow => .starStar
  | eq => .eqEq
  | ne => .notEq
  | lt => .less
  | le => .lessEq
  | gt => .greater
  | ge => .greaterEq
  | and => .andAnd
  | or => .orOr

/-- The keyword of a type. -/
def Ty.keyword : Ty → Keyword
  | int => .intTy
  | double => .doubleTy
  | bool => .boolTy
  | string => .stringTy
  | void => .voidTy

/-! ### Precedence -/

/-- The ranks of expressions, from the loosest to the tightest. -/
inductive Rank where
  | logic | relation | sum | product | power | unary | primary
  deriving DecidableEq, Repr

/-- The rank of the expressions that an operator makes. -/
def BinaryOp.rank : BinaryOp → Rank
  | and | or => .logic
  | eq | ne | lt | le | gt | ge => .relation
  | add | sub => .sum
  | mul | div => .product
  | pow => .power

/-- The operators of the first rank nest to the left, and their operands are of the second, the next tighter one. -/
inductive Rank.Left : Rank → Rank → Prop where
  | logic : Left .logic .relation
  | relation : Left .relation .sum
  | sum : Left .sum .product
  | product : Left .product .power

namespace Grammar

/-- A word of the language: kinds of tokens. -/
abbrev Word := List TokenKind

/-! ### Numbers -/

/-- The integers of 64 bits. -/
def Fits (n : Int) : Prop := -(Parser.intLimit : Int) ≤ n ∧ n < Parser.intLimit

/-- The digits of a literal, after a minus if it is negative, are those of the integer `n` of 64 bits. -/
def IsInt (negative : Bool) (text : String) (n : Int) : Prop :=
  n = (if negative then -(Text.digitsValue text.toList : Int) else Text.digitsValue text.toList) ∧ Fits n

/-- The digits of a literal before its point and those after it.  Without a point there are none after it. -/
inductive IsPointed : List Char → List Char → List Char → Prop where
  | point {whole fraction : List Char} : '.' ∉ whole → IsPointed (whole ++ '.' :: fraction) whole fraction
  | whole {whole : List Char} : '.' ∉ whole → IsPointed whole whole []

/-- The digits of a literal, with as many decimal places as come after its point, round to the finite double `x`. -/
def IsDouble (text : String) (x : Double) : Prop :=
  ∃ whole fraction, IsPointed text.toList whole fraction ∧
    x = Double.ofDecimal false (Text.digitsValue (whole ++ fraction)) (-(fraction.length : Int)) ∧ x.isFinite

/-! ### Repetitions -/

section Repetitions

variable {α : Type}

/-- `Item*` -/
inductive Repeated (Item : Word → α → Prop) : Word → List α → Prop where
  | nil : Repeated Item [] []
  | cons {w w' : Word} {x : α} {xs : List α} : Item w x → Repeated Item w' xs → Repeated Item (w ++ w') (x :: xs)

/-- `[Item (',' Item)* [',']] ')'` -/
inductive Listed (Item : Word → α → Prop) : Word → List α → Prop where
  | nil : Listed Item [.symbol .rparen] []
  | last {w : Word} {x : α} : Item w x → Listed Item (w ++ [.symbol .rparen]) [x]
  | cons {w w' : Word} {x : α} {xs : List α} :
    Item w x → Listed Item w' xs → Listed Item (w ++ .symbol .comma :: w') (x :: xs)

/-- `',' Item` -/
def AfterComma (Item : Word → α → Prop) (w : Word) (x : α) : Prop := ∃ w', w = .symbol .comma :: w' ∧ Item w' x

end Repetitions

/-! ### Expressions -/

/-- The expressions of a rank. -/
inductive Derives : Rank → Word → Expr → Prop where
  | operand {r r' : Rank} {w : Word} {e : Expr} : r.Left r' → Derives r' w e → Derives r w e
  | left {r r' : Rank} {w w' : Word} {l e : Expr} (op : BinaryOp) : r.Left r' → op.rank = r → Derives r w l →
    Derives r' w' e → Derives r (w ++ .symbol op.symbol :: w') (.binary op l e .blank)
  | base {w : Word} {e : Expr} : Derives .unary w e → Derives .power w e
  | pow {w w' : Word} {l e : Expr} : Derives .unary w l → Derives .power w' e →
    Derives .power (w ++ .symbol .starStar :: w') (.binary .pow l e .blank)
  | primary {w : Word} {e : Expr} : Derives .primary w e → Derives .unary w e
  | signed {w : Word} {e : Expr} (op : UnaryOp) :
    Derives .unary w e → Derives .unary (.symbol op.symbol :: w) (.unary op e .blank)
  | int {text : String} {n : Int} : IsInt false text n → Derives .primary [.intLiteral text] (.literal (.int n) .blank)
  | double {text : String} {x : Double} :
    IsDouble text x → Derives .primary [.floatLiteral text] (.literal (.double x) .blank)
  | string (text : String) : Derives .primary [.stringLiteral text] (.literal (.string text) .blank)
  | true : Derives .primary [.keyword .trueKw] (.literal (.bool Bool.true) .blank)
  | false : Derives .primary [.keyword .falseKw] (.literal (.bool Bool.false) .blank)
  | parens {w : Word} {e : Expr} :
    Derives .logic w e → Derives .primary (.symbol .lparen :: (w ++ [.symbol .rparen])) e
  | input {w : Word} {args : List Expr} : Listed (Derives .logic) w args →
    Derives .primary (.keyword .inputKw :: .symbol .lparen :: w) (.call ⟨Keyword.inputKw.text, .blank⟩ args .blank)
  | call {w : Word} {args : List Expr} (f : String) : Listed (Derives .logic) w args →
    Derives .primary (.identifier f :: .symbol .lparen :: w) (.call ⟨f, .blank⟩ args .blank)
  | name (n : String) : Derives .primary [.identifier n] (.name n .blank)

/-- The expressions. -/
abbrev IsExpr : Word → Expr → Prop := Derives .logic

/-! ### Parts of statements -/

/-- `[symbol TYPE]` -/
inductive IsTypeAfter (s : Symbol) : Word → Option TypeName → Prop where
  | absent : IsTypeAfter s [] none
  | present (ty : Ty) : IsTypeAfter s [.symbol s, .keyword ty.keyword] (some ⟨ty, .blank⟩)

/-- `ID ':' TYPE` -/
inductive IsParam : Word → Param → Prop where
  | mk (n : String) (ty : Ty) :
    IsParam [.identifier n, .symbol .colon, .keyword ty.keyword] ⟨⟨n, .blank⟩, ⟨ty, .blank⟩⟩

/-- `['-'] INT` -/
inductive IsIntConst : Word → Int → Prop where
  | plain {text : String} {n : Int} : IsInt false text n → IsIntConst [.intLiteral text] n
  | negative {text : String} {n : Int} : IsInt true text n → IsIntConst [.symbol .minus, .intLiteral text] n

/-- `['-'] INT | ['-'] FLOAT | STRING | 'true' | 'false'` -/
inductive IsConst : Word → Const → Prop where
  | int {w : Word} {n : Int} : IsIntConst w n → IsConst w ⟨.int n, .blank⟩
  | double {text : String} {x : Double} : IsDouble text x → IsConst [.floatLiteral text] ⟨.double x, .blank⟩
  | negative {text : String} {x : Double} :
    IsDouble text x → IsConst [.symbol .minus, .floatLiteral text] ⟨.double x.neg, .blank⟩
  | string (text : String) : IsConst [.stringLiteral text] ⟨.string text, .blank⟩
  | true : IsConst [.keyword .trueKw] ⟨.bool Bool.true, .blank⟩
  | false : IsConst [.keyword .falseKw] ⟨.bool Bool.false, .blank⟩

/-- `'range' '(' INT ',' INT ')' | const (',' const)*` -/
inductive IsComparator : Word → Comparator → Prop where
  | const {w : Word} {c : Const} : IsConst w c → IsComparator w (.const c)
  | oneOf {w w' : Word} {c : Const} {cs : List Const} : IsConst w c → Repeated (AfterComma IsConst) w' cs → cs ≠ [] →
    IsComparator (w ++ w') (.oneOf (c :: cs))
  | range {w w' : Word} {lo hi : Int} : IsIntConst w lo → IsIntConst w' hi →
    IsComparator (.keyword .rangeKw :: .symbol .lparen :: (w ++ .symbol .comma :: (w' ++ [.symbol .rparen])))
      (.range lo hi .blank)

/-- `'range' '(' INT ',' INT ',' INT ')' | expr` -/
inductive IsIterable : Word → Iterable → Prop where
  | range {w w' w'' : Word} {first last step : Int} : IsIntConst w first → IsIntConst w' last → IsIntConst w'' step →
    IsIterable (.keyword .rangeKw :: .symbol .lparen ::
        (w ++ .symbol .comma :: (w' ++ .symbol .comma :: (w'' ++ [.symbol .rparen]))))
      (.range first last step .blank)
  | expr {w : Word} {e : Expr} : IsExpr w e → IsIterable w (.expr e)

/-- `keyword ID [':' TYPE] '=' expr ';'` -/
inductive IsDecl (k : Keyword) : Word → Decl → Prop where
  | mk {w w' : Word} {type : Option TypeName} {e : Expr} (n : String) : IsTypeAfter .colon w type → IsExpr w' e →
    IsDecl k (.keyword k :: .identifier n :: (w ++ .symbol .assign :: (w' ++ [.symbol .semicolon])))
      ⟨⟨n, .blank⟩, type, e⟩

/-! ### Statements -/

mutual

/-- The statements. -/
inductive IsStmt : Word → Stmt → Prop where
  | letDecl {w : Word} {d : Decl} : IsDecl .letKw w d → IsStmt w (.item (.letDecl d .blank))
  | varDecl {w : Word} {d : Decl} : IsDecl .varKw w d → IsStmt w (.varDecl d .blank)
  | print {w : Word} {args : List Expr} : Listed IsExpr w args →
    IsStmt (.keyword .printKw :: .symbol .lparen :: (w ++ [.symbol .semicolon])) (.print args .blank)
  | ret : IsStmt [.keyword .returnKw, .symbol .semicolon] (.ret none .blank)
  | retValue {w : Word} {e : Expr} :
    IsExpr w e → IsStmt (.keyword .returnKw :: (w ++ [.symbol .semicolon])) (.ret (some e) .blank)
  | assign {w : Word} {e : Expr} (n : String) : IsExpr w e →
    IsStmt (.identifier n :: .symbol .assign :: (w ++ [.symbol .semicolon])) (.assign ⟨n, .blank⟩ e .blank)
  | call {w : Word} {args : List Expr} (f : String) : Listed IsExpr w args →
    IsStmt (.identifier f :: .symbol .lparen :: (w ++ [.symbol .semicolon])) (.call ⟨f, .blank⟩ args .blank)
  | forLoop {w w' : Word} {i : Iterable} {b : Block} (n : String) : IsIterable w i → IsBlock w' b →
    IsStmt (.keyword .forKw :: .identifier n :: .keyword .inKw :: (w ++ w')) (.forLoop ⟨n, .blank⟩ i b .blank)
  | whileLoop {w w' : Word} {e : Expr} {b : Block} : IsExpr w e → IsBlock w' b →
    IsStmt (.keyword .whileKw :: (w ++ w')) (.whileLoop e b .blank)
  | branch {w : Word} {s : Stmt} : IsIf w s → IsStmt w s
  | switch {w w' : Word} {e : Expr} {cs : List Case} : IsExpr w e → Repeated IsCase w' cs →
    IsStmt (.keyword .switchKw :: (w ++ .symbol .lbrace :: (w' ++ [.symbol .rbrace]))) (.switch e cs .blank)

/-- `'if' expr block ['else' (block | if)]` -/
inductive IsIf : Word → Stmt → Prop where
  | ifThen {w w' : Word} {e : Expr} {b : Block} : IsExpr w e → IsBlock w' b →
    IsIf (.keyword .ifKw :: (w ++ w')) (.ifThen e b .blank)
  | ifElse {w w' w'' : Word} {e : Expr} {b b' : Block} : IsExpr w e → IsBlock w' b → IsBlock w'' b' →
    IsIf (.keyword .ifKw :: (w ++ (w' ++ .keyword .elseKw :: w''))) (.ifElse e b b' .blank)
  | elseIf {w w' w'' : Word} {e : Expr} {b : Block} {s : Stmt} : IsExpr w e → IsBlock w' b → IsIf w'' s →
    IsIf (.keyword .ifKw :: (w ++ (w' ++ .keyword .elseKw :: w''))) (.ifElse e b (.mk [s] .blank) .blank)

/-- `'{' stmt* '}'` -/
inductive IsBlock : Word → Block → Prop where
  | mk {w : Word} {ss : List Stmt} :
    Repeated IsStmt w ss → IsBlock (.symbol .lbrace :: (w ++ [.symbol .rbrace])) (.mk ss .blank)

/-- `'case' comparator block | 'default' block` -/
inductive IsCase : Word → Case → Prop where
  | case {w w' : Word} {c : Comparator} {b : Block} : IsComparator w c → IsBlock w' b →
    IsCase (.keyword .caseKw :: (w ++ w')) (.mk (some c) b .blank)
  | default {w : Word} {b : Block} : IsBlock w b → IsCase (.keyword .defaultKw :: w) (.mk none b .blank)

end

/-! ### Programs -/

/-- `let | func` -/
inductive IsItem : Word → Item → Prop where
  | letDecl {w : Word} {d : Decl} : IsDecl .letKw w d → IsItem w (.letDecl d .blank)
  | func {w w' w'' : Word} {params : List Param} {result : Option TypeName} {b : Block} (f : String) :
    Listed IsParam w params → IsTypeAfter .arrow w' result → IsBlock w'' b →
    IsItem (.keyword .funcKw :: .identifier f :: .symbol .lparen :: (w ++ (w' ++ w'')))
      (.func ⟨f, .blank⟩ params result b .blank)

/-- `item*` -/
def IsProgram (w : Word) (p : Program) : Prop := Repeated IsItem w p.items

end Grammar

end Scriptlet
