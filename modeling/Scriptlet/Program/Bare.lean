import Scriptlet.Program.Basic

/-!
# Programs without places

`bare` puts the blank span in every place of a tree and changes nothing else, so that two trees differ in their spans
only when their bare trees are equal.
-/

namespace Scriptlet

/-- The span of parts whose place does not matter. -/
def Span.blank : Span := .empty 0

def Ident.bare (i : Ident) : Ident := ⟨i.name, .blank⟩

def TypeName.bare (t : TypeName) : TypeName := ⟨t.ty, .blank⟩

def Param.bare (p : Param) : Param := ⟨p.name.bare, p.type.bare⟩

def Const.bare (c : Const) : Const := ⟨c.literal, .blank⟩

def Comparator.bare : Comparator → Comparator
  | const c => const c.bare
  | oneOf cs => oneOf (cs.map Const.bare)
  | range lo hi _ => range lo hi .blank

mutual

/-- The expression without its places. -/
def Expr.bare : Expr → Expr
  | .literal v _ => .literal v .blank
  | .name n _ => .name n .blank
  | .call f args _ => .call f.bare (Expr.bareList args) .blank
  | .unary op e _ => .unary op e.bare .blank
  | .binary op l r _ => .binary op l.bare r.bare .blank

/-- The expressions without their places. -/
def Expr.bareList : List Expr → List Expr
  | [] => []
  | e :: es => e.bare :: Expr.bareList es

end

theorem Expr.bareList_eq (es : List Expr) : Expr.bareList es = es.map Expr.bare := by
  induction es with
  | nil => rfl
  | cons e es ih => simp [bareList, ih]

@[simp] theorem Expr.bare_withSpan (s : Span) (e : Expr) : (e.withSpan s).bare = e.bare := by
  cases e <;> rfl

@[simp] theorem Expr.bare_combine (op : BinaryOp) (l r : Expr) :
    (combine op l r).bare = .binary op l.bare r.bare .blank := rfl

def Decl.bare (d : Decl) : Decl := ⟨d.name.bare, d.type.map TypeName.bare, d.value.bare⟩

def Iterable.bare : Iterable → Iterable
  | range first last step _ => range first last step .blank
  | expr e => expr e.bare

mutual

/-- The item without its places. -/
def Item.bare : Item → Item
  | .letDecl d _ => .letDecl d.bare .blank
  | .func name params result body _ =>
    .func name.bare (params.map Param.bare) (result.map TypeName.bare) body.bare .blank

/-- The statement without its places. -/
def Stmt.bare : Stmt → Stmt
  | .item i => .item i.bare
  | .varDecl d _ => .varDecl d.bare .blank
  | .assign target value _ => .assign target.bare value.bare .blank
  | .print args _ => .print (args.map Expr.bare) .blank
  | .ret value _ => .ret (value.map Expr.bare) .blank
  | .call callee args _ => .call callee.bare (args.map Expr.bare) .blank
  | .forLoop var iterable body _ => .forLoop var.bare iterable.bare body.bare .blank
  | .whileLoop cond body _ => .whileLoop cond.bare body.bare .blank
  | .ifThen cond thenBlock _ => .ifThen cond.bare thenBlock.bare .blank
  | .ifElse cond thenBlock elseBlock _ => .ifElse cond.bare thenBlock.bare elseBlock.bare .blank
  | .switch subject cases _ => .switch subject.bare (bareCases cases) .blank

/-- The block without its places. -/
def Block.bare : Block → Block
  | .mk stmts _ => .mk (bareStmts stmts) .blank

/-- The statements without their places. -/
def bareStmts : List Stmt → List Stmt
  | [] => []
  | s :: ss => s.bare :: bareStmts ss

/-- The case without its places. -/
def Case.bare : Case → Case
  | .mk comparator body _ => .mk (comparator.map Comparator.bare) body.bare .blank

/-- The cases without their places. -/
def bareCases : List Case → List Case
  | [] => []
  | c :: cs => c.bare :: bareCases cs

end

def Program.bare (p : Program) : Program := ⟨p.items.map Item.bare⟩

end Scriptlet
