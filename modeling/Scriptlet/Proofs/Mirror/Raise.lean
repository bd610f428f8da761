import Scriptlet.Double.Notation
import Scriptlet.Ir.Basic
import Scriptlet.Program.Plain

/-!
# Reading a representation back

`Ir.raise` makes a program of a representation: one statement of each entry, but for the entries of one `if`, which make
one statement, and those of the cases of one `switch`, which are told from those of the next one by the place of the
subject in their guards.  Default cases have no guards and make statements of their own.

The function is of any representation; what comes of one that stands for no program does not matter.
-/

namespace Scriptlet

/-! ### Expressions -/

/-- The integer that is written with these digits, perhaps after a minus. -/
def Text.integer : List Char → Int
  | '-' :: digits => -(Text.digitsValue digits : Int)
  | digits => Text.digitsValue digits

/-- The constant of a type with this text. -/
def Literal.ofAtom (ty : Ty) (text : String) : Literal :=
  match ty with
  | .int => .int (Text.integer text.toList)
  | .double => .double ((Double.ofText? text).getD .nan)
  | .bool => .bool (text == "true")
  | _ => .string text

/-- The operator or the call with these operands. -/
def Expr.ofApplication (op : String) (operands : List Expr) : Expr :=
  match UnaryOp.all.find? (·.opName == op), BinaryOp.all.find? (·.opName == op), operands with
  | some u, _, [e] => .unary u e .blank
  | _, some b, [l, r] => .binary b l r .blank
  | _, _, es => .call ⟨op, .blank⟩ es .blank

mutual

/-- The expression that a value stands for. -/
def Value.raise : Value → Expr
  | .arg => .name "" .blank
  | .ref name _ => .name name .blank
  | .atom ty text => .literal (.ofAtom ty text) .blank
  | .apply op args => .ofApplication op (Var.raiseList args)

/-- The expression that an argument stands for. -/
def Var.raise : Var → Expr
  | .mk v _ _ _ => v.raise

/-- The expressions that arguments stand for. -/
def Var.raiseList : List Var → List Expr
  | [] => []
  | var :: vars => var.raise :: Var.raiseList vars

end

theorem Var.raiseList_eq (vars : List Var) : Var.raiseList vars = vars.map Var.raise := by
  induction vars with
  | nil => rfl
  | cons var vars ih => simp [raiseList, ih]

/-- The constant that an argument stands for. -/
def Var.literal (var : Var) : Literal :=
  match var.raise with
  | .literal l _ => l
  | _ => .bool false

/-- The integer that an argument stands for. -/
def Var.integer (var : Var) : Int :=
  match var.literal with
  | .int n => n
  | _ => 0

/-- The constant of a case that an argument stands for. -/
def Var.const (var : Var) : Const := ⟨var.literal, .blank⟩

/-! ### Guards -/

/-- The operator and the arguments of a value. -/
def Value.application : Value → String × List Var
  | .apply op args => (op, args)
  | _ => ("", [])

/-- What a loop with this guard runs over. -/
def Iterable.ofGuard (guard : Value) : Iterable :=
  match guard.application.2 with
  | [first, last, step] => .range first.integer last.integer step.integer .blank
  | args => .expr ((args.head?.map Var.raise).getD (.name "" .blank))

/-- The subject of the `switch` that a case with this guard belongs to. -/
def Value.subject? (guard : Value) : Option Var := guard.application.2.head?

/-- What a case matches, by the operator of its guard and the arguments after the subject. -/
def Comparator.ofApplication (op : String) : List Var → Comparator
  | [] => .oneOf []
  | [c] => if op = OpName.caseIs then .const c.const else .oneOf [c.const]
  | [lo, hi] => if op = OpName.caseIn then .range lo.integer hi.integer .blank else .oneOf [lo.const, hi.const]
  | args => .oneOf (args.map Var.const)

/-- What a case with this guard matches. -/
def Comparator.ofGuard (guard : Value) : Comparator :=
  .ofApplication guard.application.1 guard.application.2.tail

/-! ### Statements of one entry -/

/-- The declaration of a variable. -/
def Decl.ofVar (name : String) (var : Var) : Decl := ⟨⟨name, .blank⟩, none, var.raise⟩

/-- A statement by the name of its action. -/
def Stmt.ofAction (op : String) (args : List Var) : Stmt :=
  let operands := args.map Var.raise
  if op = OpName.assign then
    match operands with
    | [.name target _, value] => .assign ⟨target, .blank⟩ value .blank
    | _ => .print operands .blank
  else if op = OpName.print then .print operands .blank
  else if op = OpName.ret then .ret operands.head? .blank
  else .call ⟨op, .blank⟩ operands .blank

/-- A loop with the variable that it binds, if it does. -/
def Stmt.ofLoop (born : List String) (guard : Value) (body : Block) : Stmt :=
  match born with
  | var :: _ => .forLoop ⟨var, .blank⟩ (.ofGuard guard) body .blank
  | [] => .whileLoop guard.raise body .blank

/-- An `if` with its `else`, if it has one. -/
def Stmt.ofBranch (guard : Value) (body : Block) : Option Block → Stmt
  | some other => .ifElse guard.raise body other .blank
  | none => .ifThen guard.raise body .blank

/-- A function with a signature. -/
def Item.ofSignature (name : String) (params : List String) (s : Signature) (body : Block) : Item :=
  .func ⟨name, .blank⟩ (List.zipWith (fun p ty => ⟨⟨p, .blank⟩, ⟨ty, .blank⟩⟩) params s.args)
    (resultType (some ⟨s.result, .blank⟩)) body .blank

/-! ### Entries in a row -/

/-- The scope of the `else` that comes first. -/
def firstElse? : List Entry → Option ScopeId
  | .scoped .elseBranch _ _ id :: _ => some id
  | _ => none

/-- The place of the subject of the guarded case that comes first. -/
def firstSubject? : List Entry → Option Span
  | .scoped .caseBranch _ (some guard) _ :: _ => guard.subject?.map Var.span
  | _ => none

/-- The case before a `switch` becomes its first case. -/
def joinCase (c : Case) : List Stmt → List Stmt
  | .switch subject cases span :: ss => .switch subject (c :: cases) span :: ss
  | ss => ss

section Scopes

variable (ir : Ir) (inner : ScopeId → Block)

/-- The function or the unchangeable variable of an entry, `inner` giving the blocks of the scopes in it. -/
def raiseItem? : Entry → Option Item
  | .newVar name var => if var.mutable then none else some (.letDecl (.ofVar name var) .blank)
  | .scoped .func params _ id =>
    let name := (ir.scope id).func.getD ""
    let signature := ((ir.ops.get? name).bind (·.alternatives.head?)).getD ⟨[], .void⟩
    some (.ofSignature name params signature (inner id))
  | _ => none

/-- The statements of an entry and of those after it, which are given as entries and as statements. -/
def raiseEntry (e : Entry) (after : List Entry) (ss : List Stmt) : List Stmt :=
  match e with
  | .newVar name var => .varDecl (.ofVar name var) .blank :: ss
  | .action op args => .ofAction op args :: ss
  | .scoped .loop born (some guard) id => .ofLoop born guard (inner id) :: ss
  | .scoped .ifBranch _ (some guard) id => .ofBranch guard (inner id) ((firstElse? after).map inner) :: ss
  | .scoped .caseBranch _ none id => .default (.mk none (inner id) .blank) :: ss
  | .scoped .caseBranch _ (some guard) id =>
    let c : Case := .mk (some (.ofGuard guard)) (inner id) .blank
    if firstSubject? after = guard.subject?.map Var.span then joinCase c ss
    else .switch ((guard.subject?.map Var.raise).getD (.name "" .blank)) [c] .blank :: ss
  | _ => ss

/-- The statements of entries. -/
def raiseStmts : List Entry → List Stmt
  | [] => []
  | e :: es =>
    match raiseItem? ir inner e with
    | some i => .item i :: raiseStmts es
    | none => raiseEntry inner e es (raiseStmts es)

end Scopes

namespace Ir

variable (ir : Ir)

/-- The block that a scope stands for, in which blocks nest less than `depth` times. -/
def raiseBlock : (depth : Nat) → ScopeId → Block
  | 0, _ => .mk [] .blank
  | depth + 1, id => .mk (raiseStmts ir (raiseBlock depth) (ir.scope id).entries.toList) .blank

/-- The program that a representation stands for. -/
def raise : Program :=
  ⟨(ir.scope ScopeId.root).entries.toList.filterMap (raiseItem? ir (ir.raiseBlock ir.scopes.size))⟩

end Ir

end Scriptlet
