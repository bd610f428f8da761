import Scriptlet.Proofs.Dump.Labels

/-!
# Programs as labelled trees

The trees that a dump writes in lines, with a label for every item, statement, case and expression and for the parts of
statements that are named.  `Program.dump_eq_render`: the dump of a program is that of its trees.
-/

namespace Scriptlet

open Dump

/-! ### Trees -/

mutual

/-- The tree of an expression, and the trees after it. -/
def Expr.forest : Expr → Forest Label → Forest Label
  | .literal v s, next => .tree (.line (.literal v) s) .nil next
  | .name n s, next => .tree (.line (.name n) s) .nil next
  | .call f args s, next => .tree (.line (.call f.name) s) (Expr.forestOfList args) next
  | .unary op e s, next => .tree (.line (.unary op) s) (e.forest .nil) next
  | .binary op l r s, next => .tree (.line (.binary op) s) (l.forest (r.forest .nil)) next

/-- The trees of expressions. -/
def Expr.forestOfList : List Expr → Forest Label
  | [] => .nil
  | e :: es => e.forest (Expr.forestOfList es)

end

/-- What a case matches, without places. -/
def Comparator.pattern : Comparator → Pattern
  | const c => .const c.literal
  | oneOf cs => .oneOf (cs.map Const.literal)
  | range lo hi _ => .range lo hi

/-- What the line of a case says. -/
def caseLabel : Option Comparator → Head
  | none => .default
  | some c => .case c.pattern

/-- The tree of what a loop runs over, and the trees after it. -/
def Iterable.forest : Iterable → Forest Label → Forest Label
  | range first last step s, next => .tree (.line (.range first last step) s) .nil next
  | expr e, next => e.forest next

/-- The names and types of parameters. -/
def signature (params : List Param) : List (String × Ty) := params.map fun p => (p.name.name, p.type.ty)

mutual

/-- The tree of an item, and the trees after it. -/
def Item.forest : Item → Forest Label → Forest Label
  | .letDecl d s, next =>
    .tree (.line (.letDecl d.name.name (d.type.map TypeName.ty)) s) (d.value.forest .nil) next
  | .func name params result body s, next =>
    .tree (.line (.func name.name (signature params) (result.map TypeName.ty)) s) body.forest next

/-- The tree of a statement, and the trees after it. -/
def Stmt.forest : Stmt → Forest Label → Forest Label
  | .item i, next => i.forest next
  | .varDecl d s, next =>
    .tree (.line (.varDecl d.name.name (d.type.map TypeName.ty)) s) (d.value.forest .nil) next
  | .assign target value s, next => .tree (.line (.assign target.name) s) (value.forest .nil) next
  | .print args s, next => .tree (.line .print s) (Expr.forestOfList args) next
  | .ret value s, next => .tree (.line .ret s) (Expr.forestOfList value.toList) next
  | .call callee args s, next => .tree (.line (.call callee.name) s) (Expr.forestOfList args) next
  | .forLoop var iterable body s, next =>
    .tree (.line (.forLoop var.name) s) (iterable.forest (.tree (.word .body) body.forest .nil)) next
  | .whileLoop cond body s, next =>
    .tree (.line .whileLoop s) (cond.forest (.tree (.word .body) body.forest .nil)) next
  | .ifThen cond thenBlock s, next =>
    .tree (.line .ifThen s) (cond.forest (.tree (.word .thenPart) thenBlock.forest .nil)) next
  | .ifElse cond thenBlock elseBlock s, next =>
    .tree (.line .ifThen s) (cond.forest (.tree (.word .thenPart) thenBlock.forest
      (.tree (.word .elsePart) elseBlock.forest .nil))) next
  | .switch subject cases s, next => .tree (.line .switch s) (subject.forest (forestOfCases cases)) next

/-- The trees of the statements of a block. -/
def Block.forest : Block → Forest Label
  | .mk stmts _ => forestOfStmts stmts

/-- The trees of statements. -/
def forestOfStmts : List Stmt → Forest Label
  | [] => .nil
  | s :: ss => s.forest (forestOfStmts ss)

/-- The trees of cases. -/
def forestOfCases : List Case → Forest Label
  | [] => .nil
  | .mk c body s :: cs => .tree (.line (caseLabel c) s) body.forest (forestOfCases cs)

end

/-- The trees of items. -/
def forestOfItems : List Item → Forest Label
  | [] => .nil
  | i :: is => i.forest (forestOfItems is)

def Program.forest (p : Program) : Forest Label := forestOfItems p.items

/-! ### Lines -/

/-- The lines of a tree whose label is a line with a span. -/
private theorem lines_tree (head : Head) (s : Span) (below next : Forest Label) (i : Nat) :
    (Forest.tree (.line head s) below next).lines Label.text i =
      lineAt i head.text s :: (below.lines Label.text (i + 1) ++ next.lines Label.text i) := rfl

private theorem lines_word (kind : Kind) (below next : Forest Label) (i : Nat) :
    (Forest.tree (.word kind) below next).lines Label.text i =
      ⟨i, kind.text⟩ :: (below.lines Label.text (i + 1) ++ next.lines Label.text i) := rfl

private theorem lines_nil (i : Nat) : (Forest.nil : Forest Label).lines Label.text i = [] := rfl

mutual

private theorem Expr.lines_forest : (e : Expr) → (next : Forest Label) → (i : Nat) →
    (e.forest next).lines Label.text i = e.lines i ++ next.lines Label.text i
  | .literal v s, next, i => by simp [Expr.forest, Expr.lines, lines_tree, lines_nil, Head.text_eq]
  | .name n s, next, i => by simp [Expr.forest, Expr.lines, lines_tree, lines_nil, Head.text_eq]
  | .call f args s, next, i => by
    simp [Expr.forest, Expr.lines, lines_tree, Head.text_eq, Expr.lines_forestOfList args]
  | .unary op e s, next, i => by
    simp [Expr.forest, Expr.lines, lines_tree, lines_nil, Head.text_eq, e.lines_forest]
  | .binary op l r s, next, i => by
    simp [Expr.forest, Expr.lines, lines_tree, lines_nil, Head.text_eq, l.lines_forest, r.lines_forest]

private theorem Expr.lines_forestOfList : (es : List Expr) → (i : Nat) →
    (Expr.forestOfList es).lines Label.text i = Expr.linesOfList i es
  | [], _ => rfl
  | e :: es, i => by
    rw [Expr.forestOfList, e.lines_forest, Expr.lines_forestOfList es, Expr.linesOfList]

end

private theorem Iterable.lines_forest (r : Iterable) (next : Forest Label) (i : Nat) :
    (r.forest next).lines Label.text i = r.lines i ++ next.lines Label.text i := by
  cases r with
  | range first last step s => simp [forest, lines, lines_tree, lines_nil, Head.text_eq]
  | expr e => exact e.lines_forest next i

private theorem markedType_map (mark : String) (type : Option TypeName) :
    markedType mark (type.map TypeName.ty) = match type with
      | some t => mark ++ t.ty.text
      | none => "" := by
  cases type <;> rfl

private theorem text_caseLabel (c : Option Comparator) : (caseLabel c).text = caseHead c := by
  rw [Head.text_eq]
  match c with
  | none => rfl
  | some (.const c) => rfl
  | some (.oneOf cs) =>
    have hmap : (cs.map Const.literal).map Literal.text = cs.map fun c => c.literal.text := List.map_map
    exact congrArg (fun texts => "case " ++ ", ".intercalate texts) hmap
  | some (.range lo hi s) => simp [caseLabel, Comparator.pattern, Pattern.text, caseHead, ← String.append_assoc]

private theorem text_func (name : Ident) (params : List Param) (result : Option TypeName) :
    (Head.func name.name (signature params) (result.map TypeName.ty)).text = funcHead name params result := by
  have hmap : (signature params).map paramText = params.map fun p => p.name.name ++ ": " ++ p.type.ty.text :=
    List.map_map
  rw [Head.text_eq]
  simp only
  rw [hmap, markedType_map]
  rfl

private theorem Decl.lines_forest (d : Decl) (head : Head) (keyword : String) (s : Span) (next : Forest Label) (i : Nat)
    (h : head.text = keyword ++ " " ++ d.name.name ++ markedType ": " (d.type.map TypeName.ty)) :
    (Forest.tree (.line head s) (d.value.forest .nil) next).lines Label.text i =
      d.lines i keyword s ++ next.lines Label.text i := by
  rw [lines_tree, d.value.lines_forest, lines_nil, List.append_nil, h, markedType_map]
  rfl

mutual

private theorem Item.lines_forest : (x : Item) → (next : Forest Label) → (i : Nat) →
    (x.forest next).lines Label.text i = x.lines i ++ next.lines Label.text i
  | .letDecl d s, next, i => by
    rw [Item.forest, Item.lines, d.lines_forest _ "let"]
    rw [Head.text_eq]
  | .func name params result body s, next, i => by
    rw [Item.forest, Item.lines, lines_tree, text_func, body.lines_forest, List.cons_append]

private theorem Stmt.lines_forest : (x : Stmt) → (next : Forest Label) → (i : Nat) →
    (x.forest next).lines Label.text i = x.lines i ++ next.lines Label.text i
  | .item x, next, i => x.lines_forest next i
  | .varDecl d s, next, i => by
    rw [Stmt.forest, Stmt.lines, d.lines_forest _ "var"]
    rw [Head.text_eq]
  | .assign target value s, next, i => by
    simp [Stmt.forest, Stmt.lines, lines_tree, lines_nil, Head.text_eq, value.lines_forest]
  | .print args s, next, i => by
    simp [Stmt.forest, Stmt.lines, lines_tree, Head.text_eq, Expr.lines_forestOfList args]
  | .ret value s, next, i => by
    simp [Stmt.forest, Stmt.lines, lines_tree, Head.text_eq, Expr.lines_forestOfList]
  | .call f args s, next, i => by
    simp [Stmt.forest, Stmt.lines, lines_tree, Head.text_eq, Expr.lines_forestOfList args]
  | .forLoop var iterable body s, next, i => by
    simp [Stmt.forest, Stmt.lines, lines_tree, lines_word, lines_nil, Head.text_eq, iterable.lines_forest,
      body.lines_forest, Kind.text]
  | .whileLoop cond body s, next, i => by
    simp [Stmt.forest, Stmt.lines, lines_tree, lines_word, lines_nil, Head.text_eq, cond.lines_forest,
      body.lines_forest, Kind.text]
  | .ifThen cond body s, next, i => by
    simp [Stmt.forest, Stmt.lines, lines_tree, lines_word, lines_nil, Head.text_eq, cond.lines_forest,
      body.lines_forest, Kind.text]
  | .ifElse cond body other s, next, i => by
    simp [Stmt.forest, Stmt.lines, lines_tree, lines_word, lines_nil, Head.text_eq, cond.lines_forest,
      body.lines_forest, other.lines_forest, Kind.text]
  | .switch subject cases s, next, i => by
    simp [Stmt.forest, Stmt.lines, lines_tree, Head.text_eq, subject.lines_forest, lines_forestOfCases cases]

private theorem Block.lines_forest : (b : Block) → (i : Nat) → b.forest.lines Label.text i = b.lines i
  | .mk stmts _, i => lines_forestOfStmts stmts i

private theorem lines_forestOfStmts : (ss : List Stmt) → (i : Nat) →
    (forestOfStmts ss).lines Label.text i = Stmt.linesOfList i ss
  | [], _ => rfl
  | s :: ss, i => by rw [forestOfStmts, s.lines_forest, lines_forestOfStmts ss, Stmt.linesOfList]

private theorem lines_forestOfCases : (cs : List Case) → (i : Nat) →
    (forestOfCases cs).lines Label.text i = Case.linesOfList i cs
  | [], _ => rfl
  | .mk c body s :: cs, i => by
    rw [forestOfCases, lines_tree, body.lines_forest, lines_forestOfCases cs, text_caseLabel,
      Case.linesOfList]

end

private theorem lines_forestOfItems (is : List Item) (i : Nat) :
    (forestOfItems is).lines Label.text i = is.flatMap (Item.lines i) := by
  induction is with
  | nil => rfl
  | cons x is ih => rw [forestOfItems, x.lines_forest, ih, List.flatMap_cons]

/-- The dump of a program is that of its trees. -/
theorem Program.dump_eq_render (p : Program) : p.dump = render (p.forest.lines Label.text 0) := by
  rw [Program.forest, lines_forestOfItems, Program.dump]

end Scriptlet
