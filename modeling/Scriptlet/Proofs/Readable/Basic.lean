import Scriptlet.Ir.Operators
import Scriptlet.Program.Basic

/-!
# Readable programs

What a program must be like for its representation to say what it is.  Every constant has a text that stands for it, so
that no double is infinite or without a value; calls are not taken for operators or for other actions, as no function
has one of their names; and the `switch` statements of a block have their subjects in different places, so that their
cases can be told apart.
-/

namespace Scriptlet

/-! ### Expressions -/

/-- The names of operators that are written with symbols, and of actions that are not calls. -/
def OpName.reserved : List String :=
  UnaryOp.all.map UnaryOp.opName ++ BinaryOp.all.map BinaryOp.opName ++ [OpName.print, OpName.assign, OpName.ret]

/-- The constant is one that a text stands for: a double is finite. -/
def Literal.Readable : Literal → Prop
  | double x => x.Canonical ∧ x.isFinite = true
  | _ => True

mutual

/-- The constants are such that texts stand for, and no function has a reserved name. -/
def Expr.Readable : Expr → Prop
  | .literal l _ => l.Readable
  | .name _ _ => True
  | .call f args _ => f.name ∉ OpName.reserved ∧ Expr.AllReadable args
  | .unary _ e _ => e.Readable
  | .binary _ l r _ => l.Readable ∧ r.Readable

/-- All the expressions are readable. -/
def Expr.AllReadable : List Expr → Prop
  | [] => True
  | e :: es => e.Readable ∧ Expr.AllReadable es

end

theorem Expr.allReadable_iff {es : List Expr} : Expr.AllReadable es ↔ ∀ e ∈ es, e.Readable := by
  induction es with
  | nil => simp [AllReadable]
  | cons e es ih => simp [AllReadable, ih]

theorem Expr.Readable.withSpan {e : Expr} (h : e.Readable) (s : Span) : (e.withSpan s).Readable := by
  cases e <;> exact h

/-! ### Statements -/

/-- What the loop runs over is readable. -/
def Iterable.Readable : Iterable → Prop
  | range _ _ _ _ => True
  | expr e => e.Readable

/-- The constants that a case compares with. -/
def Comparator.consts : Comparator → List Const
  | const c => [c]
  | oneOf cs => cs
  | range _ _ _ => []

/-- The place of the subject of a `switch`. -/
def Stmt.subjectSpan? : Stmt → Option Span
  | .switch subject _ _ => some subject.span
  | _ => none

mutual

/-- The expressions are readable, and two `switch` statements of a block have their subjects in different places. -/
def Item.Readable : Item → Prop
  | .letDecl d _ => d.value.Readable
  | .func _ _ _ body _ => body.Readable

/-- The expressions and the blocks of the statement are readable. -/
def Stmt.Readable : Stmt → Prop
  | .item i => i.Readable
  | .varDecl d _ => d.value.Readable
  | .assign _ value _ => value.Readable
  | .print args _ => Expr.AllReadable args
  | .ret value _ => Expr.AllReadable value.toList
  | .call callee args _ => callee.name ∉ OpName.reserved ∧ Expr.AllReadable args
  | .forLoop _ iterable body _ => iterable.Readable ∧ body.Readable
  | .whileLoop cond body _ => cond.Readable ∧ body.Readable
  | .ifThen cond body _ => cond.Readable ∧ body.Readable
  | .ifElse cond body other _ => cond.Readable ∧ body.Readable ∧ other.Readable
  | .switch subject cases _ => subject.Readable ∧ CasesReadable cases

/-- The statements of the block are readable, and its `switch` statements can be told from each other. -/
def Block.Readable : Block → Prop
  | .mk stmts _ => StmtsReadable stmts ∧ (stmts.filterMap Stmt.subjectSpan?).Nodup

/-- All the statements are readable. -/
def StmtsReadable : List Stmt → Prop
  | [] => True
  | s :: ss => s.Readable ∧ StmtsReadable ss

/-- The constants and the block of the case are readable. -/
def Case.Readable : Case → Prop
  | .mk comparator body _ => (∀ c ∈ comparator, ∀ k ∈ c.consts, k.literal.Readable) ∧ body.Readable

/-- All the cases are readable. -/
def CasesReadable : List Case → Prop
  | [] => True
  | c :: cs => c.Readable ∧ CasesReadable cs

end

def Program.Readable (p : Program) : Prop := ∀ i ∈ p.items, i.Readable

end Scriptlet
