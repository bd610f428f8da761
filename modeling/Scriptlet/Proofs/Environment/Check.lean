import Scriptlet.Program.Basic
import Scriptlet.Proofs.Ir.Table
import Scriptlet.Typing.Value

/-!
# Checking with environments

A checker that builds nothing.  It carries what is in force: for every block around the present place the names that
were declared in it, the innermost block and the latest declaration first, and the functions declared so far.  A block
is left by dropping its names; a function stays known.  The function around the present place is handed down to the
statements of its body.

`Env.check` reports the first rule that a program violates.
-/

namespace Scriptlet

/-- A name in force: its type, whether it may be assigned to, and where it was declared. -/
structure Local where
  name : String
  ty : Ty
  mutable : Bool
  declaredAt : Span
  deriving DecidableEq, Repr

/-- A function in force. -/
structure Function where
  name : String
  signature : Signature
  declaredAt : Span
  deriving DecidableEq, Repr

/-- What is in force at a place in a program. -/
structure Env where
  blocks : List (List Local)
  functions : List Function
  deriving DecidableEq, Repr

namespace Env

/-- Before the first item: one block without names, and no function. -/
def initial : Env := ⟨[[]], []⟩

/-- What a name means: its latest declaration in the innermost block that has one. -/
def find? (Γ : Env) (name : String) : Option Local := Γ.blocks.flatten.find? (·.name = name)

/-- The function of that name. -/
def function? (Γ : Env) (name : String) : Option Function := Γ.functions.find? (·.name = name)

/-- The signatures that a name accepts, as an operator of the language or as a function. -/
def signatures (Γ : Env) (name : String) : List Signature :=
  OperatorTable.signaturesOf name OperatorTable.builtinSignatures ++
    (Γ.function? name).toList.map Function.signature

/-- Declares a name in the innermost block. -/
def declare (Γ : Env) (l : Local) : Env :=
  match Γ.blocks with
  | [] => Γ
  | b :: bs => { Γ with blocks := (l :: b) :: bs }

/-- Enters a block in which these names are in force. -/
def enter (Γ : Env) (names : List Local) : Env := { Γ with blocks := names :: Γ.blocks }

/-- Leaves the innermost block. -/
def leave (Γ : Env) : Env := { Γ with blocks := Γ.blocks.tail }

/-! ### Expressions -/

/-- The type of the result of an operator or a function for arguments of exactly these types. -/
def resultOf (Γ : Env) (op : String) (args : List Ty) (span : Span) : Checked Ty :=
  match (Γ.signatures op).find? (·.args = args) with
  | some s => .ok s.result
  | none => .error ⟨span, .noMatchingAlternative op args (Γ.signatures op)⟩

/-- The name must be one of an operator or a function. -/
def checkCallee (Γ : Env) (callee : Ident) : Checked Unit :=
  if (Γ.signatures callee.name).isEmpty then .error ⟨callee.span, .undefinedFunction callee.name⟩ else .ok ()

mutual

/-- The type of an expression. -/
def typeOf (Γ : Env) : Expr → Checked Ty
  | .literal l _ => .ok l.ty
  | .name n span =>
    match Γ.find? n with
    | some l => .ok l.ty
    | none => .error ⟨span, .undefinedName n⟩
  | .call callee args span => do
    Γ.checkCallee callee
    let types ← Γ.typesOf args
    Γ.resultOf callee.name types span
  | .unary op operand span => do
    let ty ← Γ.typeOf operand
    Γ.resultOf op.opName [ty] span
  | .binary op lhs rhs span => do
    let left ← Γ.typeOf lhs
    let right ← Γ.typeOf rhs
    Γ.resultOf op.opName [left, right] span

/-- The types of expressions, from the first to the last. -/
def typesOf (Γ : Env) : List Expr → Checked (List Ty)
  | [] => .ok []
  | e :: es => do
    let ty ← Γ.typeOf e
    let types ← Γ.typesOf es
    return ty :: types

end

/-! ### Parts of statements -/

/-- A `let` or `var` declaration, and what it declares. -/
def checkDecl (Γ : Env) (d : Decl) (span : Span) (mutable : Bool) : Checked Env := do
  let ty ← Γ.typeOf d.value
  if ty = .void then throw ⟨d.value.span, .voidBinding d.name.name⟩
  match d.type with
  | some written => if written.ty ≠ ty then throw ⟨written.span, .annotationMismatch written.ty ty⟩
  | none => pure ()
  return Γ.declare ⟨d.name.name, ty, mutable, span⟩

/-- The target must be a name that may be assigned to, and the value must have its type. -/
def checkAssign (Γ : Env) (target : Ident) (value : Expr) (span : Span) : Checked Unit :=
  match Γ.find? target.name with
  | none => .error ⟨target.span, .undefinedName target.name⟩
  | some l => do
    if !l.mutable then throw ⟨span, .immutableAssignment target.name l.declaredAt⟩
    let ty ← Γ.typeOf value
    if ty ≠ l.ty then throw ⟨value.span, .assignmentMismatch target.name l.ty ty l.declaredAt⟩

/-- Every argument of `print` must have a value. -/
def checkPrint (Γ : Env) : List Expr → Checked Unit
  | [] => .ok ()
  | e :: es => do
    let ty ← Γ.typeOf e
    if ty = .void then throw ⟨e.span, .voidPrint⟩
    Γ.checkPrint es

/-- A `return` must have a value of the type that the function around it returns. -/
def checkReturn (Γ : Env) (fn : Function) (value : Option Expr) (span : Span) : Checked Unit :=
  match value with
  | some e => do
    let ty ← Γ.typeOf e
    if ty ≠ fn.signature.result then throw ⟨e.span, .returnMismatch fn.name fn.signature.result ty⟩
  | none =>
    if .void ≠ fn.signature.result then .error ⟨span, .returnMismatch fn.name fn.signature.result .void⟩ else .ok ()

/-- A call as a statement. -/
def checkCall (Γ : Env) (callee : Ident) (args : List Expr) (span : Span) : Checked Unit := do
  Γ.checkCallee callee
  let types ← Γ.typesOf args
  let _ ← Γ.resultOf callee.name types span

/-- A condition must be of type `Bool`. -/
def checkCond (Γ : Env) (e : Expr) : Checked Unit := do
  let ty ← Γ.typeOf e
  if ty ≠ .bool then throw ⟨e.span, .conditionNotBool ty⟩

/-- The type of the variable of a loop that runs over this. -/
def elementOf (Γ : Env) : Iterable → Checked Ty
  | .range _ _ step span => if step = 0 then .error ⟨span, .zeroStep⟩ else .ok .int
  | .expr e => do
    let ty ← Γ.typeOf e
    if ty ≠ .string then throw ⟨e.span, .notIterable ty⟩
    return .string

/-- Constants must be of the type of the subject. -/
def checkConsts (subject : Ty) : List Const → Checked Unit
  | [] => .ok ()
  | c :: cs => do
    if c.literal.ty ≠ subject then throw ⟨c.span, .caseMismatch subject c.literal.ty⟩
    checkConsts subject cs

/-- What a case matches must fit the subject; only the last case may match everything. -/
def checkComparator (subject : Ty) (comparator : Option Comparator) (span : Span) (isLast : Bool) : Checked Unit :=
  match comparator with
  | some (.const c) => checkConsts subject [c]
  | some (.oneOf cs) => checkConsts subject cs
  | some (.range _ _ range) => if subject ≠ .int then .error ⟨range, .caseRangeNotInt subject⟩ else .ok ()
  | none => if isLast then .ok () else .error ⟨span, .defaultNotLast⟩

/-- Enters a function, unless its name is taken. -/
def define (Γ : Env) (name : Ident) (signature : Signature) : Checked Env :=
  if (Γ.signatures name.name).isEmpty then
    .ok { Γ with functions := ⟨name.name, signature, name.span⟩ :: Γ.functions }
  else .error ⟨name.span, .duplicateFunction name.name ((Γ.function? name.name).map Function.declaredAt)⟩

/-- The parameters as names in force, the latest first.  No two may have the same name. -/
def parameters (before : List Local) : List Param → Checked (List Local)
  | [] => .ok before
  | p :: ps =>
    if before.any (·.name = p.name.name) then .error ⟨p.name.span, .duplicateParam p.name.name⟩
    else parameters (⟨p.name.name, p.type.ty, false, p.name.span.through p.type.span⟩ :: before) ps

/-! ### Statements -/

mutual

/-- A `let` declaration or a function. -/
def checkItem (Γ : Env) : Item → Checked Env
  | .letDecl d span => Γ.checkDecl d span false
  | .func name params result body _ => do
    let signature := ⟨params.map (·.type.ty), (result.map TypeName.ty).getD .void⟩
    let Γ ← Γ.define name signature
    let names ← parameters [] params
    let Γ ← (Γ.enter names).checkBlock ⟨name.name, signature, name.span⟩ body
    return Γ.leave

/-- A statement in the body of a function. -/
def checkStmt (Γ : Env) (fn : Function) : Stmt → Checked Env
  | .item i => Γ.checkItem i
  | .varDecl d span => Γ.checkDecl d span true
  | .assign target value span => do
    Γ.checkAssign target value span
    return Γ
  | .print args _ => do
    Γ.checkPrint args
    return Γ
  | .ret value span => do
    Γ.checkReturn fn value span
    return Γ
  | .call callee args span => do
    Γ.checkCall callee args span
    return Γ
  | .forLoop var iterable body _ => do
    let ty ← Γ.elementOf iterable
    let Γ ← (Γ.enter [⟨var.name, ty, false, var.span⟩]).checkBlock fn body
    return Γ.leave
  | .whileLoop cond body _ => do
    Γ.checkCond cond
    let Γ ← (Γ.enter []).checkBlock fn body
    return Γ.leave
  | .ifThen cond thenBlock _ => do
    Γ.checkCond cond
    let Γ ← (Γ.enter []).checkBlock fn thenBlock
    return Γ.leave
  | .ifElse cond thenBlock elseBlock _ => do
    Γ.checkCond cond
    let Γ ← (Γ.enter []).checkBlock fn thenBlock
    let Γ ← (Γ.leave.enter []).checkBlock fn elseBlock
    return Γ.leave
  | .switch subject cases _ => do
    let ty ← Γ.typeOf subject
    Γ.checkCases fn ty cases

/-- The statements of a block. -/
def checkBlock (Γ : Env) (fn : Function) : Block → Checked Env
  | .mk stmts _ => Γ.checkStmts fn stmts

/-- Statements, from the first to the last. -/
def checkStmts (Γ : Env) (fn : Function) : List Stmt → Checked Env
  | [] => .ok Γ
  | s :: ss => do
    let Γ ← Γ.checkStmt fn s
    Γ.checkStmts fn ss

/-- The cases of a `switch` on a subject of this type. -/
def checkCases (Γ : Env) (fn : Function) (subject : Ty) : List Case → Checked Env
  | [] => .ok Γ
  | .mk comparator body span :: cs => do
    checkComparator subject comparator span cs.isEmpty
    let Γ ← (Γ.enter []).checkBlock fn body
    Γ.leave.checkCases fn subject cs

end

/-- Items, from the first to the last. -/
def checkItems (Γ : Env) : List Item → Checked Env
  | [] => .ok Γ
  | i :: is => do
    let Γ ← Γ.checkItem i
    Γ.checkItems is

/-- What is in force after a program, or the first rule that it violates. -/
def check (p : Program) : Checked Env := initial.checkItems p.items

end Env

end Scriptlet
