import Scriptlet.Double.Notation
import Scriptlet.Dump.Line
import Scriptlet.Program.Basic
import Scriptlet.Text.Quoted
import Scriptlet.Token.Basic

/-!
# Dumps of tokens and trees

One line for every token, statement and expression, with its span; the parts of a statement stand below it.
-/

namespace Scriptlet

open Dump

/-! ### Tokens -/

/-- The dump of a token list. -/
def Token.dump (tokens : List Token) : String :=
  render (tokens.map fun t => ⟨0, t.span.text ++ " " ++ t.kind.display⟩)

/-! ### Constants and expressions -/

/-- The text of a truth value. -/
def boolText (b : Bool) : String := if b then "true" else "false"

/-- A constant as dumps write it: strings are quoted. -/
def Literal.text : Literal → String
  | int n => toString n
  | double x => x.text
  | string s => Text.quoted s
  | bool b => boolText b

/-- The name of the class of a constant. -/
def Literal.label : Literal → String
  | int _ => "int"
  | double _ => "float"
  | string _ => "string"
  | bool _ => "bool"

/-- A line of text that ends in a span. -/
def lineAt (level : Nat) (text : String) (span : Span) : Line := ⟨level, text ++ " (" ++ span.text ++ ")"⟩

mutual

/-- The lines of an expression. -/
def Expr.lines (i : Nat) : Expr → List Line
  | .literal v s => [lineAt i (v.label ++ " " ++ v.text) s]
  | .name n s => [lineAt i ("ident " ++ n) s]
  | .call f args s => lineAt i ("call " ++ f.name) s :: Expr.linesOfList (i + 1) args
  | .unary op e s => lineAt i ("unary " ++ op.label) s :: e.lines (i + 1)
  | .binary op l r s => lineAt i ("binary " ++ op.label) s :: (l.lines (i + 1) ++ r.lines (i + 1))

/-- The lines of expressions, one after the other. -/
def Expr.linesOfList (i : Nat) : List Expr → List Line
  | [] => []
  | e :: es => e.lines i ++ Expr.linesOfList i es

end

/-- The dump of an expression. -/
def Expr.dump (e : Expr) : String := render (e.lines 0)

/-! ### Statements -/

/-- The lines of a declaration after its keyword. -/
def Decl.lines (i : Nat) (keyword : String) (d : Decl) (span : Span) : List Line :=
  let type := match d.type with
    | some t => ": " ++ t.ty.text
    | none => ""
  lineAt i (keyword ++ " " ++ d.name.name ++ type) span :: d.value.lines (i + 1)

/-- The first line of a function, without its span. -/
def funcHead (name : Ident) (params : List Param) (result : Option TypeName) : String :=
  let result := match result with
    | some t => " -> " ++ t.ty.text
    | none => ""
  "func " ++ name.name ++ "(" ++
    ", ".intercalate (params.map fun p => p.name.name ++ ": " ++ p.type.ty.text) ++ ")" ++ result

/-- The lines of what a loop runs over. -/
def Iterable.lines (i : Nat) : Iterable → List Line
  | range first last step s =>
    [lineAt i ("range " ++ toString first ++ " " ++ toString last ++ " " ++ toString step) s]
  | expr e => e.lines i

/-- The first line of a case, without its span. -/
def caseHead : Option Comparator → String
  | none => "default"
  | some (.const c) => "case " ++ c.literal.text
  | some (.oneOf cs) => "case " ++ ", ".intercalate (cs.map fun c => c.literal.text)
  | some (.range lo hi _) => "case range(" ++ toString lo ++ ", " ++ toString hi ++ ")"

mutual

/-- The lines of an item. -/
def Item.lines (i : Nat) : Item → List Line
  | .letDecl d s => d.lines i "let" s
  | .func name params result body s => lineAt i (funcHead name params result) s :: body.lines (i + 1)

/-- The lines of a statement. -/
def Stmt.lines (i : Nat) : Stmt → List Line
  | .item d => d.lines i
  | .varDecl d s => d.lines i "var" s
  | .assign target value s => lineAt i ("assign " ++ target.name) s :: value.lines (i + 1)
  | .print args s => lineAt i "print" s :: Expr.linesOfList (i + 1) args
  | .ret value s => lineAt i "return" s :: Expr.linesOfList (i + 1) value.toList
  | .call f args s => lineAt i ("call " ++ f.name) s :: Expr.linesOfList (i + 1) args
  | .forLoop var iterable body s =>
    lineAt i ("for " ++ var.name) s :: (iterable.lines (i + 1) ++ ⟨i + 1, "body"⟩ :: body.lines (i + 2))
  | .whileLoop cond body s =>
    lineAt i "while" s :: (cond.lines (i + 1) ++ ⟨i + 1, "body"⟩ :: body.lines (i + 2))
  | .ifThen cond thenBlock s =>
    lineAt i "if" s :: (cond.lines (i + 1) ++ ⟨i + 1, "then"⟩ :: thenBlock.lines (i + 2))
  | .ifElse cond thenBlock elseBlock s =>
    lineAt i "if" s :: (cond.lines (i + 1) ++ ⟨i + 1, "then"⟩ :: thenBlock.lines (i + 2) ++
      ⟨i + 1, "else"⟩ :: elseBlock.lines (i + 2))
  | .switch subject cases s =>
    lineAt i "switch" s :: (subject.lines (i + 1) ++ Case.linesOfList (i + 1) cases)

/-- The lines of the statements of a block. -/
def Block.lines (i : Nat) : Block → List Line
  | .mk stmts _ => Stmt.linesOfList i stmts

/-- The lines of statements, one after the other. -/
def Stmt.linesOfList (i : Nat) : List Stmt → List Line
  | [] => []
  | s :: ss => s.lines i ++ Stmt.linesOfList i ss

/-- The lines of cases, one after the other. -/
def Case.linesOfList (i : Nat) : List Case → List Line
  | [] => []
  | .mk c body s :: cs => lineAt i (caseHead c) s :: (body.lines (i + 1) ++ Case.linesOfList i cs)

end

/-- The dump of a program. -/
def Program.dump (p : Program) : String := render (p.items.flatMap (Item.lines 0))

end Scriptlet
