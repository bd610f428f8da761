import Scriptlet.Program.Bare

/-!
# Programs as dumps show them

`shown` puts the blank span in the places that a dump leaves out, which are those of names that are not expressions
themselves, of types, of blocks and of what cases match.  Every other place stays: dumps show where items, statements,
expressions, cases and the ranges of loops are.
-/

namespace Scriptlet

mutual

/-- The expression without the places of callees. -/
def Expr.shown : Expr → Expr
  | .literal v s => .literal v s
  | .name n s => .name n s
  | .call f args s => .call f.bare (Expr.shownList args) s
  | .unary op e s => .unary op e.shown s
  | .binary op l r s => .binary op l.shown r.shown s

/-- The expressions without the places of callees. -/
def Expr.shownList : List Expr → List Expr
  | [] => []
  | e :: es => e.shown :: Expr.shownList es

end

def Decl.shown (d : Decl) : Decl := ⟨d.name.bare, d.type.map TypeName.bare, d.value.shown⟩

def Iterable.shown : Iterable → Iterable
  | range first last step s => range first last step s
  | expr e => expr e.shown

mutual

/-- The item without the places of names, types and blocks. -/
def Item.shown : Item → Item
  | .letDecl d s => .letDecl d.shown s
  | .func name params result body s =>
    .func name.bare (params.map Param.bare) (result.map TypeName.bare) body.shown s

/-- The statement without the places that its lines do not show. -/
def Stmt.shown : Stmt → Stmt
  | .item i => .item i.shown
  | .varDecl d s => .varDecl d.shown s
  | .assign target value s => .assign target.bare value.shown s
  | .print args s => .print (Expr.shownList args) s
  | .ret value s => .ret (value.map Expr.shown) s
  | .call callee args s => .call callee.bare (Expr.shownList args) s
  | .forLoop var iterable body s => .forLoop var.bare iterable.shown body.shown s
  | .whileLoop cond body s => .whileLoop cond.shown body.shown s
  | .ifThen cond thenBlock s => .ifThen cond.shown thenBlock.shown s
  | .ifElse cond thenBlock elseBlock s => .ifElse cond.shown thenBlock.shown elseBlock.shown s
  | .switch subject cases s => .switch subject.shown (shownCases cases) s

/-- The block without its place. -/
def Block.shown : Block → Block
  | .mk stmts _ => .mk (shownStmts stmts) .blank

/-- The statements without the places that their lines do not show. -/
def shownStmts : List Stmt → List Stmt
  | [] => []
  | s :: ss => s.shown :: shownStmts ss

/-- The case without the places of its constants, its range and its block. -/
def Case.shown : Case → Case
  | .mk comparator body s => .mk (comparator.map Comparator.bare) body.shown s

/-- The cases without the places that their lines do not show. -/
def shownCases : List Case → List Case
  | [] => []
  | c :: cs => c.shown :: shownCases cs

end

def Program.shown (p : Program) : Program := ⟨p.items.map Item.shown⟩

end Scriptlet
