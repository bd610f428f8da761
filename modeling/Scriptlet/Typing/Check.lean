import Scriptlet.Typing.Value

/-!
# Checking programs

`typecheck` goes through a program once, in order, and builds its intermediate representation.  The first
violated rule ends the check.

A function is entered into the operator table before its body is checked, so that it may call itself.
-/

namespace Scriptlet

namespace Typing

/-- A check under way. -/
structure State where
  ir : Ir
  /-- Where each function was declared, the latest first. -/
  declared : List (String × Span)
  /-- The steps so far, the latest first. -/
  history : List Ir.Step

/-- The state before the first statement. -/
def State.initial : State := ⟨.initial, [], []⟩

/-- The state after a step. -/
def State.perform (s : State) (step : Ir.Step) : State :=
  { s with ir := s.ir.apply step, history := step :: s.history }

end Typing

/-- A check that goes on from a state; the state it has reached is kept when it fails. -/
abbrev Checker := EStateM (Located TypeError) Typing.State

namespace Checker

open Typing

/-- The representation built so far. -/
def getIr : Checker Ir := do return (← get).ir

/-- Yields the value of a successful check. -/
def lift : Checked α → Checker α
  | .ok a => pure a
  | .error e => throw e

/-- Takes a step. -/
def perform (step : Ir.Step) : Checker Unit := modify (·.perform step)

/-- Opens a scope with the names bound on entering it. -/
def openScope (kind : ScopeKind) (parent : ScopeId) (func : Option String) (born : List (String × Var)) :
    Checker ScopeId := do
  let id := (← getIr).scopes.size
  perform (.openScope id kind parent func born)
  return id

/-- Enters a function into the operator table, unless its name is taken. -/
def register (name : Ident) (signature : Signature) : Checker Unit := do
  let s ← get
  perform (.register name.name signature)
  if s.ir.ops.contains name.name then
    throw ⟨name.span, .duplicateFunction name.name (s.declared.lookup name.name)⟩
  else modify fun s => { s with declared := (name.name, name.span) :: s.declared }

/-! ### Simple statements -/

/-- A declaration whose type is written must have a value of that type. -/
def annotationOk (type : Option TypeName) (ty : Ty) : Checked Unit :=
  match type with
  | some t => if t.ty = ty then .ok () else .error ⟨t.span, .annotationMismatch t.ty ty⟩
  | none => .ok ()

/-- A `let` or `var` declaration. -/
def checkDecl (scope : ScopeId) (d : Decl) (span : Span) (mutable : Bool) : Checker Unit := do
  let (value, ty) ← lift (d.value.lower (← getIr) scope)
  if ty = .void then throw ⟨d.value.span, .voidBinding d.name.name⟩
  else
    lift (annotationOk d.type ty)
    perform (.declare scope d.name.name (.mk value ty span mutable))

/-- The arguments of an assignment: the binding assigned to, and the new value. -/
def lowerAssign (ir : Ir) (scope : ScopeId) (target : Ident) (value : Expr) (span : Span) : Checked (List Var) :=
  match ir.lookup target.name scope with
  | none => .error ⟨target.span, .undefinedName target.name⟩
  | some (binding, var) =>
    if !var.mutable then .error ⟨span, .immutableAssignment target.name var.span⟩
    else do
      let new ← value.lowerVar ir scope
      if new.ty = var.ty then return [.mk (.ref target.name binding) var.ty target.span true, new]
      else throw ⟨value.span, .assignmentMismatch target.name var.ty new.ty var.span⟩

/-- The function a scope belongs to, and the type that it returns. -/
def enclosing (ir : Ir) (scope : ScopeId) : String × Ty :=
  let func := (ir.scope scope).func.getD ""
  (func, (((ir.ops.get? func).bind (·.alternatives.head?)).map Signature.result).getD .void)

/-- The argument of a `return`, if there is one.  One without a value returns from a function without a result. -/
def lowerReturn (ir : Ir) (scope : ScopeId) (value : Option Expr) (span : Span) : Checked (List Var) := do
  let (func, expected) := enclosing ir scope
  match value with
  | some e =>
    let var ← e.lowerVar ir scope
    if var.ty = expected then return [var] else throw ⟨e.span, .returnMismatch func expected var.ty⟩
  | none => if Ty.void = expected then return [] else throw ⟨span, .returnMismatch func expected .void⟩

/-- An assignment. -/
def checkAssign (scope : ScopeId) (target : Ident) (value : Expr) (span : Span) : Checker Unit := do
  let args ← lift (lowerAssign (← getIr) scope target value span)
  perform (.act scope OpName.assign args)

/-- A `print` statement. -/
def checkPrint (scope : ScopeId) (args : List Expr) : Checker Unit := do
  let args ← lift (lowerPrintArgs (← getIr) scope args)
  perform (.act scope OpName.print args)

/-- A `return` statement. -/
def checkReturn (scope : ScopeId) (value : Option Expr) (span : Span) : Checker Unit := do
  let args ← lift (lowerReturn (← getIr) scope value span)
  perform (.act scope OpName.ret args)

/-- A call as a statement. -/
def checkCall (scope : ScopeId) (callee : Ident) (args : List Expr) (span : Span) : Checker Unit := do
  let args ← lift (lowerCall (← getIr) scope callee args span)
  perform (.act scope callee.name args)

/-- A parameter as a binding of the function's scope. -/
def paramBinding (p : Param) : String × Var :=
  (p.name.name, .mk .arg p.type.ty (p.name.span.through p.type.span) false)

/-- The parameters up to the first whose name one before it has, and that one; `seen` are the names before them. -/
def splitParams (seen : List String) : List Param → List Param × Option Param
  | [] => ([], none)
  | p :: ps =>
    if p.name.name ∈ seen then ([], some p)
    else
      let (distinct, duplicate) := splitParams (p.name.name :: seen) ps
      (p :: distinct, duplicate)

/-- Opens the scope of a function.  Its parameters must have different names. -/
def openFunc (scope : ScopeId) (name : Ident) (params : List Param) : Checker ScopeId := do
  let (distinct, duplicate) := splitParams [] params
  let inner ← openScope .func scope (some name.name) (distinct.map paramBinding)
  match duplicate with
  | some p => throw ⟨p.name.span, .duplicateParam p.name.name⟩
  | none => return inner

/-- The guard of a case; only the last case may have none. -/
def lowerCase (subject : Var) (comparator : Option Comparator) (span : Span) (isLast : Bool) :
    Checked (Option Value) :=
  match comparator with
  | some c => some <$> c.lower subject
  | none => if isLast then .ok none else .error ⟨span, .defaultNotLast⟩

/-! ### Statements with blocks -/

mutual

/-- A `let` declaration or a function. -/
def checkItem (scope : ScopeId) : Item → Checker Unit
  | .letDecl d span => checkDecl scope d span false
  | .func name params result body _ => do
    register name ⟨params.map (·.type.ty), (result.map TypeName.ty).getD .void⟩
    let inner ← openFunc scope name params
    checkBlock inner body
    perform (.closeScope inner .func scope (params.map (·.name.name)) none)

/-- A statement. -/
def checkStmt (scope : ScopeId) : Stmt → Checker Unit
  | .item i => checkItem scope i
  | .varDecl d span => checkDecl scope d span true
  | .assign target value span => checkAssign scope target value span
  | .print args _ => checkPrint scope args
  | .ret value span => checkReturn scope value span
  | .call callee args span => checkCall scope callee args span
  | .forLoop var iterable body _ => do
    let (guard, ty) ← lift (iterable.lower (← getIr) scope)
    let inner ← openScope .loop scope none [(var.name, .mk .arg ty var.span false)]
    checkBlock inner body
    perform (.closeScope inner .loop scope [var.name] (some guard))
  | .whileLoop cond body _ => do
    let guard ← lift (cond.lowerCond (← getIr) scope)
    let inner ← openScope .loop scope none []
    checkBlock inner body
    perform (.closeScope inner .loop scope [] (some guard))
  | .ifThen cond thenBlock _ => do
    let guard ← lift (cond.lowerCond (← getIr) scope)
    let inner ← openScope .ifBranch scope none []
    checkBlock inner thenBlock
    perform (.closeScope inner .ifBranch scope [] (some guard))
  | .ifElse cond thenBlock elseBlock _ => do
    let guard ← lift (cond.lowerCond (← getIr) scope)
    let inner ← openScope .ifBranch scope none []
    checkBlock inner thenBlock
    perform (.closeScope inner .ifBranch scope [] (some guard))
    let other ← openScope .elseBranch scope none []
    checkBlock other elseBlock
    perform (.closeScope other .elseBranch scope [] none)
  | .switch subject cases _ => do
    let subject ← lift (subject.lowerVar (← getIr) scope)
    checkCases scope subject cases

/-- The statements of a block, in its scope. -/
def checkBlock (scope : ScopeId) : Block → Checker Unit
  | .mk stmts _ => checkStmts scope stmts

/-- Statements, from the first to the last. -/
def checkStmts (scope : ScopeId) : List Stmt → Checker Unit
  | [] => pure ()
  | s :: ss => do
    checkStmt scope s
    checkStmts scope ss

/-- The cases of a `switch` on a subject. -/
def checkCases (scope : ScopeId) (subject : Var) : List Case → Checker Unit
  | [] => pure ()
  | .mk comparator body span :: cs => do
    let guard ← lift (lowerCase subject comparator span cs.isEmpty)
    let inner ← openScope .caseBranch scope none []
    checkBlock inner body
    perform (.closeScope inner .caseBranch scope [] guard)
    checkCases scope subject cs

end

/-- Items, from the first to the last. -/
def checkItems (scope : ScopeId) : List Item → Checker Unit
  | [] => pure ()
  | i :: is => do
    checkItem scope i
    checkItems scope is

end Checker

/-! ### Running the check -/

/-- What a check came to, and its steps from the first on. -/
structure Typing.Outcome where
  result : Checked Ir
  history : List Ir.Step

/-- Checks a program, keeping the steps. -/
def Typing.outcome (p : Program) : Typing.Outcome :=
  match Checker.checkItems .root p.items .initial with
  | .ok _ s => ⟨.ok s.ir, s.history.reverse⟩
  | .error e s => ⟨.error e, s.history.reverse⟩

/-- The intermediate representation of a program, or the first violated rule. -/
def typecheck (p : Program) : Checked Ir := (Typing.outcome p).result

end Scriptlet
