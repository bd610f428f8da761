import Scriptlet.Proofs.Environment.Check
import Scriptlet.Proofs.Mirror.Basic

/-!
# Functions and their returns

What a program says of its functions: the head of each (`Program.heads`), and for each `return` the function whose body
it stands in, which is the innermost around it (`Program.returns`).  Both are given in the order of the program.
-/

namespace Scriptlet

/-! ### Heads -/

mutual

/-- The heads of the functions in an item, at any depth. -/
def Item.heads : Item → List Function
  | .letDecl _ _ => []
  | .func name params result body _ => ⟨name.name, signatureOf params result, name.span⟩ :: body.heads

/-- The heads of the functions in a statement. -/
def Stmt.heads : Stmt → List Function
  | .item i => i.heads
  | .forLoop _ _ body _ | .whileLoop _ body _ | .ifThen _ body _ => body.heads
  | .ifElse _ thenBlock elseBlock _ => thenBlock.heads ++ elseBlock.heads
  | .switch _ cases _ => headsOfCases cases
  | .varDecl _ _ | .assign _ _ _ | .print _ _ | .ret _ _ | .call _ _ _ => []

/-- The heads of the functions in a block. -/
def Block.heads : Block → List Function
  | .mk stmts _ => headsOfStmts stmts

/-- The heads of the functions in statements. -/
def headsOfStmts : List Stmt → List Function
  | [] => []
  | s :: ss => s.heads ++ headsOfStmts ss

/-- The heads of the functions in cases. -/
def headsOfCases : List Case → List Function
  | [] => []
  | .mk _ body _ :: cs => body.heads ++ headsOfCases cs

end

/-- The heads of the functions of a program, those inside functions included. -/
def Program.heads (p : Program) : List Function := p.items.flatMap Item.heads

/-! ### Returns -/

/-- A `return`: the function whose body it stands in, and the place of its value, or its own if it has none. -/
structure ReturnSite where
  func : Function
  place : Span
  deriving DecidableEq, Repr

mutual

/-- The returns in an item. -/
def Item.returns : Item → List ReturnSite
  | .letDecl _ _ => []
  | .func name params result body _ => body.returns ⟨name.name, signatureOf params result, name.span⟩

/-- The returns in a statement of the body of a function. -/
def Stmt.returns (fn : Function) : Stmt → List ReturnSite
  | .item i => i.returns
  | .ret value span => [⟨fn, (value.map Expr.span).getD span⟩]
  | .forLoop _ _ body _ | .whileLoop _ body _ | .ifThen _ body _ => body.returns fn
  | .ifElse _ thenBlock elseBlock _ => thenBlock.returns fn ++ elseBlock.returns fn
  | .switch _ cases _ => returnsOfCases fn cases
  | .varDecl _ _ | .assign _ _ _ | .print _ _ | .call _ _ _ => []

/-- The returns in a block of the body of a function. -/
def Block.returns (fn : Function) : Block → List ReturnSite
  | .mk stmts _ => returnsOfStmts fn stmts

/-- The returns in statements of the body of a function. -/
def returnsOfStmts (fn : Function) : List Stmt → List ReturnSite
  | [] => []
  | s :: ss => s.returns fn ++ returnsOfStmts fn ss

/-- The returns in cases in the body of a function. -/
def returnsOfCases (fn : Function) : List Case → List ReturnSite
  | [] => []
  | .mk _ body _ :: cs => body.returns fn ++ returnsOfCases fn cs

end

/-- The returns of a program. -/
def Program.returns (p : Program) : List ReturnSite := p.items.flatMap Item.returns

end Scriptlet
