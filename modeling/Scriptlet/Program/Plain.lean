import Scriptlet.Program.Bare

/-!
# Programs up to what they do

`Program.plain` leaves out of a program its places, the types of its variables, which follow from their values, and the
choice between no result type and `Void`.  `Program.split` takes the default cases out of the `switch` statements that
they stand in, and with them what only they could tell of these.
-/

namespace Scriptlet

/-! ### Types that need not be written -/

/-- The declaration without its type. -/
def Decl.untyped (d : Decl) : Decl := { d with type := none }

/-- The type of a result, unless there is no result. -/
def resultType (result : Option TypeName) : Option TypeName := result.filter (·.ty ≠ .void)

mutual

/-- The item without the types of variables, and without a result type `Void`. -/
def Item.untyped : Item → Item
  | .letDecl d span => .letDecl d.untyped span
  | .func name params result body span => .func name params (resultType result) body.untyped span

/-- The statement without the types of variables. -/
def Stmt.untyped : Stmt → Stmt
  | .item i => .item i.untyped
  | .varDecl d span => .varDecl d.untyped span
  | .forLoop var iterable body span => .forLoop var iterable body.untyped span
  | .whileLoop cond body span => .whileLoop cond body.untyped span
  | .ifThen cond thenBlock span => .ifThen cond thenBlock.untyped span
  | .ifElse cond thenBlock elseBlock span => .ifElse cond thenBlock.untyped elseBlock.untyped span
  | .switch subject cases span => .switch subject (untypedCases cases) span
  | s => s

/-- The block without the types of variables. -/
def Block.untyped : Block → Block
  | .mk stmts span => .mk (untypedStmts stmts) span

/-- The statements without the types of variables. -/
def untypedStmts : List Stmt → List Stmt
  | [] => []
  | s :: ss => s.untyped :: untypedStmts ss

/-- The case without the types of variables. -/
def Case.untyped : Case → Case
  | .mk comparator body span => .mk comparator body.untyped span

/-- The cases without the types of variables. -/
def untypedCases : List Case → List Case
  | [] => []
  | c :: cs => c.untyped :: untypedCases cs

end

def Program.untyped (p : Program) : Program := ⟨p.items.map Item.untyped⟩

/-- The program without places, without the types of variables, and without `Void` as the type of a result. -/
def Program.plain (p : Program) : Program := p.bare.untyped

/-! ### Default cases apart -/

/-- A `switch` for a default case alone, on a subject that stands for any other. -/
def Stmt.default (c : Case) : Stmt := .switch (.literal (.bool false) .blank) [c] .blank

/-- The `switch` without its default cases, if any cases are left, and then each default case for itself. -/
def splitSwitch (subject : Expr) (cases : List Case) (span : Span) : List Stmt :=
  let compared := cases.filter (·.comparator.isSome)
  let others := cases.filter (·.comparator.isNone)
  (if compared.isEmpty then [] else [.switch subject compared span]) ++ others.map Stmt.default

/-- After a case with a comparator the cases with one stay together, and each `default` follows on its own. -/
theorem splitSwitch_cons (subject : Expr) (c : Comparator) (body : Block) (s : Span) (cs : List Case) (span : Span) :
    splitSwitch subject (.mk (some c) body s :: cs) span =
      .switch subject (.mk (some c) body s :: cs.filter (·.comparator.isSome)) span ::
        (cs.filter (·.comparator.isNone)).map Stmt.default := rfl

mutual

/-- The item with the default cases apart. -/
def Item.split : Item → Item
  | .letDecl d span => .letDecl d span
  | .func name params result body span => .func name params result body.split span

/-- The statement with the default cases apart. -/
def Stmt.split : Stmt → List Stmt
  | .item i => [.item i.split]
  | .forLoop var iterable body span => [.forLoop var iterable body.split span]
  | .whileLoop cond body span => [.whileLoop cond body.split span]
  | .ifThen cond thenBlock span => [.ifThen cond thenBlock.split span]
  | .ifElse cond thenBlock elseBlock span => [.ifElse cond thenBlock.split elseBlock.split span]
  | .switch subject cases span => splitSwitch subject (splitCases cases) span
  | s => [s]

/-- The block with the default cases apart. -/
def Block.split : Block → Block
  | .mk stmts span => .mk (splitStmts stmts) span

/-- The statements with the default cases apart. -/
def splitStmts : List Stmt → List Stmt
  | [] => []
  | s :: ss => s.split ++ splitStmts ss

/-- The case with the default cases in it apart. -/
def Case.split : Case → Case
  | .mk comparator body span => .mk comparator body.split span

/-- The cases with the default cases in them apart. -/
def splitCases : List Case → List Case
  | [] => []
  | c :: cs => c.split :: splitCases cs

end

/-- The program with the default cases apart from the `switch` statements that they stand in. -/
def Program.split (p : Program) : Program := ⟨p.items.map Item.split⟩

end Scriptlet
