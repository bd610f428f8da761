import Scriptlet.Proofs.Double.Notation
import Scriptlet.Typing.Check

/-!
# What programs become

The tree of a program beside the representation that stands for it, without regard to types.  A constant becomes a value
of its type with its text (`Literal.Becomes`), an expression a value of the same shape (`Expr.Becomes`), and the
statements of a block become the entries of a scope in their order, those in inner blocks the entries of inner scopes
(`Stmt.Becomes`).  Scopes are numbered in the order in which their blocks begin: `s.Becomes ir n es n'` says that the
entries `es` of `ir` stand for the statement `s`, whose inner scopes have the numbers from `n` up to `n'`.
-/

namespace Scriptlet

/-! ### Constants -/

/-- The value is the constant: an integer as its canonical decimal, a double as its text, a string as it is, and a truth
value as its name.  A double that is not canonical is no value of the format, so it has no text to be required. -/
inductive Literal.Becomes : Literal → Value → Prop where
  | int {n : Int} {text : String} : Text.IsDecimal n text → Becomes (.int n) (.atom .int text)
  | double {x : Double} {text : String} : (x.Canonical → x.IsText text) → Becomes (.double x) (.atom .double text)
  | string (s : String) : Becomes (.string s) (.atom .string s)
  | true : Becomes (.bool true) (.atom .bool "true")
  | false : Becomes (.bool false) (.atom .bool "false")

/-- The atom that a check makes of a constant stands for it. -/
theorem Literal.becomes_ofLiteral (l : Literal) : l.Becomes (.ofLiteral l) := by
  cases l with
  | int n => exact .int (Text.isDecimal_toString n)
  | double x => exact .double Double.isText_text
  | string s => exact .string s
  | bool b =>
    cases b with
    | true => exact .true
    | false => exact .false

/-- The argument is the constant, with its type and its place. -/
inductive Const.Becomes (c : Const) : Var → Prop where
  | mk {ty : Ty} {text : String} :
    c.literal.Becomes (.atom ty text) → Const.Becomes c (.mk (.atom ty text) ty c.span false)

/-- Each of the arguments stands for one of the constants. -/
theorem Const.Becomes.exists_of_mem {cs : List Const} {xs : List Var} (h : List.Forall₂ Const.Becomes cs xs) {x : Var}
    (hx : x ∈ xs) : ∃ c, Const.Becomes c x := by
  induction h with
  | nil => cases hx
  | @cons c _ _ _ hc _ ih =>
    rcases List.mem_cons.1 hx with rfl | hx
    · exact ⟨c, hc⟩
    · exact ih hx

/-! ### Expressions -/

/-- The operators with one operand, each with the name that stands for it. -/
def UnaryOp.names : List (UnaryOp × String) := [(.plus, "u+"), (.minus, "u-"), (.not, "!")]

/-- The operators with two operands, each with the name that stands for it. -/
def BinaryOp.names : List (BinaryOp × String) :=
  [(.add, "+"), (.sub, "-"), (.mul, "*"), (.div, "/"), (.pow, "**"), (.eq, "=="), (.ne, "!="), (.lt, "<"), (.le, "<="),
    (.gt, ">"), (.ge, ">="), (.and, "&&"), (.or, "||")]

/-- The name of an operator is the one that the operator table has it by. -/
theorem UnaryOp.mem_names {op : UnaryOp} {name : String} : (op, name) ∈ names ↔ name = op.opName := by
  cases op <;> simp [names, opName]

/-- The name of an operator is the one that the operator table has it by. -/
theorem BinaryOp.mem_names {op : BinaryOp} {name : String} : (op, name) ∈ names ↔ name = op.opName := by
  cases op <;> simp [names, opName]

mutual

/-- The value has the operators, the names and the constants of the expression. -/
inductive Expr.Becomes : Expr → Value → Prop where
  | literal {l : Literal} {v : Value} (span : Span) : l.Becomes v → Becomes (.literal l span) v
  | name (n : String) (span : Span) (b : BindingId) : Becomes (.name n span) (.ref n b)
  | call {args : List Expr} {vars : List Var} (f : Ident) (span : Span) :
    Expr.AllBecome args vars → Becomes (.call f args span) (.apply f.name vars)
  | unary {op : UnaryOp} {name : String} {e : Expr} {v : Value} (ty : Ty) (span : Span) :
    (op, name) ∈ UnaryOp.names → Becomes e v → Becomes (.unary op e span) (.apply name [.mk v ty e.span false])
  | binary {op : BinaryOp} {name : String} {l r : Expr} {v w : Value} (ty ty' : Ty) (span : Span) :
    (op, name) ∈ BinaryOp.names → Becomes l v → Becomes r w →
      Becomes (.binary op l r span) (.apply name [.mk v ty l.span false, .mk w ty' r.span false])

/-- The arguments are the values of the expressions, each with its place. -/
inductive Expr.AllBecome : List Expr → List Var → Prop where
  | nil : AllBecome [] []
  | cons {e : Expr} {v : Value} {es : List Expr} {vars : List Var} (ty : Ty) :
    Expr.Becomes e v → AllBecome es vars → AllBecome (e :: es) (.mk v ty e.span false :: vars)

end

/-- The guard of a loop has what the loop runs over. -/
inductive Iterable.Becomes : Iterable → Value → Prop where
  | range {first last step : Int} {span : Span} {x y z : Var} : Const.Becomes ⟨.int first, span⟩ x →
    Const.Becomes ⟨.int last, span⟩ y → Const.Becomes ⟨.int step, span⟩ z →
      Becomes (.range first last step span) (.apply "$iterRange" [x, y, z])
  | expr {e : Expr} {v : Value} (ty : Ty) :
    e.Becomes v → Becomes (.expr e) (.apply "$iterStr" [.mk v ty e.span false])

/-- The guard of a case has the subject of the `switch` and what the case compares it with. -/
inductive Comparator.Becomes (subject : Var) : Comparator → Value → Prop where
  | const {c : Const} {x : Var} : c.Becomes x → Becomes subject (.const c) (.apply "$caseIs" [subject, x])
  | oneOf {cs : List Const} {xs : List Var} : List.Forall₂ Const.Becomes cs xs →
    Becomes subject (.oneOf cs) (.apply "$caseOf" (subject :: xs))
  | range {lo hi : Int} {span : Span} {x y : Var} : Const.Becomes ⟨.int lo, span⟩ x →
    Const.Becomes ⟨.int hi, span⟩ y → Becomes subject (.range lo hi span) (.apply "$caseIn" [subject, x, y])

/-! ### Statements -/

/-- The signature that a function is declared with. -/
def signatureOf (params : List Param) (result : Option TypeName) : Signature :=
  ⟨params.map (·.type.ty), (result.map TypeName.ty).getD .void⟩

mutual

/-- The entries stand for the item. -/
inductive Item.Becomes (ir : Ir) : Item → Nat → List Entry → Nat → Prop where
  | letDecl {d : Decl} {v : Value} {n : Nat} (ty : Ty) (span : Span) :
    d.value.Becomes v → Item.Becomes ir (.letDecl d span) n [.newVar d.name.name (.mk v ty span false)] n
  | func {name : Ident} {params : List Param} {result : Option TypeName} {body : Block} {n n' : Nat} (span : Span) :
    (ir.scope n).func = some name.name → ir.ops.get? name.name = some ⟨[signatureOf params result], true⟩ →
      Block.Becomes ir body n n' →
        Item.Becomes ir (.func name params result body span) n [.scoped .func (params.map (·.name.name)) none n] n'

/-- The entries stand for the statement. -/
inductive Stmt.Becomes (ir : Ir) : Stmt → Nat → List Entry → Nat → Prop where
  | item {i : Item} {n n' : Nat} {es : List Entry} : Item.Becomes ir i n es n' → Stmt.Becomes ir (.item i) n es n'
  | varDecl {d : Decl} {v : Value} {n : Nat} (ty : Ty) (span : Span) :
    d.value.Becomes v → Stmt.Becomes ir (.varDecl d span) n [.newVar d.name.name (.mk v ty span true)] n
  | assign {value : Expr} {v : Value} {n : Nat} (target : Ident) (b : BindingId) (ty ty' : Ty) (span : Span) :
    value.Becomes v → Stmt.Becomes ir (.assign target value span) n
      [.action "$assign" [.mk (.ref target.name b) ty target.span true, .mk v ty' value.span false]] n
  | print {args : List Expr} {vars : List Var} {n : Nat} (span : Span) :
    Expr.AllBecome args vars → Stmt.Becomes ir (.print args span) n [.action "print" vars] n
  | ret {value : Option Expr} {vars : List Var} {n : Nat} (span : Span) :
    Expr.AllBecome value.toList vars → Stmt.Becomes ir (.ret value span) n [.action "$return" vars] n
  | call {args : List Expr} {vars : List Var} {n : Nat} (callee : Ident) (span : Span) :
    Expr.AllBecome args vars → Stmt.Becomes ir (.call callee args span) n [.action callee.name vars] n
  | forLoop {iterable : Iterable} {guard : Value} {body : Block} {n n' : Nat} (var : Ident) (span : Span) :
    iterable.Becomes guard → Block.Becomes ir body n n' →
      Stmt.Becomes ir (.forLoop var iterable body span) n [.scoped .loop [var.name] (some guard) n] n'
  | whileLoop {cond : Expr} {guard : Value} {body : Block} {n n' : Nat} (span : Span) :
    cond.Becomes guard → Block.Becomes ir body n n' →
      Stmt.Becomes ir (.whileLoop cond body span) n [.scoped .loop [] (some guard) n] n'
  | ifThen {cond : Expr} {guard : Value} {body : Block} {n n' : Nat} (span : Span) :
    cond.Becomes guard → Block.Becomes ir body n n' →
      Stmt.Becomes ir (.ifThen cond body span) n [.scoped .ifBranch [] (some guard) n] n'
  | ifElse {cond : Expr} {guard : Value} {body other : Block} {n m n' : Nat} (span : Span) :
    cond.Becomes guard → Block.Becomes ir body n m → Block.Becomes ir other m n' →
      Stmt.Becomes ir (.ifElse cond body other span) n
        [.scoped .ifBranch [] (some guard) n, .scoped .elseBranch [] none m] n'
  | switch {subject : Expr} {v : Value} {cases : List Case} {es : List Entry} {n n' : Nat} (ty : Ty) (span : Span) :
    subject.Becomes v → CasesBecome ir (.mk v ty subject.span false) cases n es n' →
      Stmt.Becomes ir (.switch subject cases span) n es n'

/-- The scope `n` stands for the block. -/
inductive Block.Becomes (ir : Ir) : Block → Nat → Nat → Prop where
  | mk {stmts : List Stmt} {n n' : Nat} (span : Span) :
    StmtsBecome ir stmts (n + 1) (ir.scope n).entries.toList n' → Block.Becomes ir (.mk stmts span) n n'

/-- The entries stand for the statements. -/
inductive StmtsBecome (ir : Ir) : List Stmt → Nat → List Entry → Nat → Prop where
  | nil {n : Nat} : StmtsBecome ir [] n [] n
  | cons {s : Stmt} {ss : List Stmt} {es es' : List Entry} {n m n' : Nat} :
    Stmt.Becomes ir s n es m → StmtsBecome ir ss m es' n' → StmtsBecome ir (s :: ss) n (es ++ es') n'

/-- The entries stand for the cases of a `switch` on the subject, only the last of which may be the default. -/
inductive CasesBecome (ir : Ir) : Var → List Case → Nat → List Entry → Nat → Prop where
  | nil {subject : Var} {n : Nat} : CasesBecome ir subject [] n [] n
  | case {subject : Var} {c : Comparator} {guard : Value} {body : Block} {cases : List Case} {es : List Entry}
    {n m n' : Nat} (span : Span) :
    c.Becomes subject guard → Block.Becomes ir body n m → CasesBecome ir subject cases m es n' →
      CasesBecome ir subject (.mk (some c) body span :: cases) n (.scoped .caseBranch [] (some guard) n :: es) n'
  | default {subject : Var} {body : Block} {n n' : Nat} (span : Span) :
    Block.Becomes ir body n n' →
      CasesBecome ir subject [.mk none body span] n [.scoped .caseBranch [] none n] n'

end

/-- The entries stand for the items. -/
inductive ItemsBecome (ir : Ir) : List Item → Nat → List Entry → Nat → Prop where
  | nil {n : Nat} : ItemsBecome ir [] n [] n
  | cons {i : Item} {is : List Item} {es es' : List Entry} {n m n' : Nat} :
    Item.Becomes ir i n es m → ItemsBecome ir is m es' n' → ItemsBecome ir (i :: is) n (es ++ es') n'

/-- The representation stands for the program: the entries of the root for its items, and there are no more scopes
than their blocks. -/
def Program.Becomes (p : Program) (ir : Ir) : Prop :=
  ItemsBecome ir p.items 1 (ir.scope ScopeId.root).entries.toList ir.scopes.size

end Scriptlet
