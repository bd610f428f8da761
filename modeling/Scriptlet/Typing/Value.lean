import Scriptlet.Double.Notation
import Scriptlet.Ir.Basic
import Scriptlet.Typing.Error

/-!
# The values of expressions

`Expr.lower` turns an expression into a value of the intermediate representation, resolving its names in a scope
and its operators by the exact types of their arguments.
-/

namespace Scriptlet

/-- The result of checking a part of a program. -/
abbrev Checked (α : Type) := Except (Located TypeError) α

/-- The text of a constant as code would hold it; strings stand without quotes. -/
def Literal.atomText : Literal → String
  | int n => toString n
  | double x => x.text
  | string s => s
  | bool b => if b then "true" else "false"

/-- A constant as a value. -/
def Value.ofLiteral (l : Literal) : Value := .atom l.ty l.atomText

/-- A constant as an argument. -/
def Var.ofLiteral (l : Literal) (span : Span) : Var := .mk (.ofLiteral l) l.ty span false

/-- The type of an operator's result for these arguments. -/
def OperatorTable.apply (t : OperatorTable) (op : String) (args : List Var) (span : Span) : Checked Ty :=
  let types := args.map Var.ty
  match (t.get? op).bind (·.resolve types) with
  | some ty => .ok ty
  | none =>
    .error ⟨span, .noMatchingAlternative op types (((t.get? op).map Operator.alternatives).getD [])⟩

mutual

/-- The value and the type of an expression in a scope. -/
def Expr.lower (ir : Ir) (scope : ScopeId) : Expr → Checked (Value × Ty)
  | .literal l _ => .ok (.ofLiteral l, l.ty)
  | .name n span =>
    match ir.lookup n scope with
    | some (binding, var) => .ok (.ref n binding, var.ty)
    | none => .error ⟨span, .undefinedName n⟩
  | .call callee args span => do
    unless ir.ops.contains callee.name do throw ⟨callee.span, .undefinedFunction callee.name⟩
    let args ← Expr.lowerList ir scope args
    return (.apply callee.name args, ← ir.ops.apply callee.name args span)
  | .unary op operand span => do
    let (value, ty) ← operand.lower ir scope
    let args := [Var.mk value ty operand.span false]
    return (.apply op.opName args, ← ir.ops.apply op.opName args span)
  | .binary op lhs rhs span => do
    let (left, leftTy) ← lhs.lower ir scope
    let (right, rightTy) ← rhs.lower ir scope
    let args := [Var.mk left leftTy lhs.span false, Var.mk right rightTy rhs.span false]
    return (.apply op.opName args, ← ir.ops.apply op.opName args span)

/-- The values of expressions, from the first to the last. -/
def Expr.lowerList (ir : Ir) (scope : ScopeId) : List Expr → Checked (List Var)
  | [] => .ok []
  | e :: es => do
    let (value, ty) ← e.lower ir scope
    return .mk value ty e.span false :: (← Expr.lowerList ir scope es)

end

/-- The value of an expression as an argument. -/
def Expr.lowerVar (ir : Ir) (scope : ScopeId) (e : Expr) : Checked Var := do
  let (value, ty) ← e.lower ir scope
  return .mk value ty e.span false

/-- The value of a condition. -/
def Expr.lowerCond (ir : Ir) (scope : ScopeId) (e : Expr) : Checked Value := do
  let (value, ty) ← e.lower ir scope
  unless ty = .bool do throw ⟨e.span, .conditionNotBool ty⟩
  return value

/-- The arguments of a call that stands as a statement. -/
def lowerCall (ir : Ir) (scope : ScopeId) (callee : Ident) (args : List Expr) (span : Span) :
    Checked (List Var) := do
  unless ir.ops.contains callee.name do throw ⟨callee.span, .undefinedFunction callee.name⟩
  let args ← Expr.lowerList ir scope args
  let _ ← ir.ops.apply callee.name args span
  return args

/-- The arguments of `print`, none of which may be without a value. -/
def lowerPrintArgs (ir : Ir) (scope : ScopeId) : List Expr → Checked (List Var)
  | [] => .ok []
  | e :: es => do
    let var ← e.lowerVar ir scope
    if var.ty = .void then throw ⟨e.span, .voidPrint⟩
    return var :: (← lowerPrintArgs ir scope es)

/-- What a `for` loop runs over, as the guard of its scope, and the type of its variable. -/
def Iterable.lower (ir : Ir) (scope : ScopeId) : Iterable → Checked (Value × Ty)
  | range first last step span => do
    if step = 0 then throw ⟨span, .zeroStep⟩
    let args := [first, last, step].map fun n => Var.ofLiteral (.int n) span
    return (.apply OpName.iterRange args, .int)
  | expr e => do
    let var ← e.lowerVar ir scope
    unless var.ty = .string do throw ⟨e.span, .notIterable var.ty⟩
    return (.apply OpName.iterString [var], .string)

/-- A constant of a case, which must have the type of the subject. -/
def Const.lower (subject : Ty) (c : Const) : Checked Var :=
  if c.literal.ty = subject then .ok (.ofLiteral c.literal c.span)
  else .error ⟨c.span, .caseMismatch subject c.literal.ty⟩

/-- What a case matches, as the guard of its scope. -/
def Comparator.lower (subject : Var) : Comparator → Checked Value
  | const c => do return .apply OpName.caseIs [subject, ← c.lower subject.ty]
  | oneOf cs => do return .apply OpName.caseOf (subject :: (← cs.mapM (·.lower subject.ty)))
  | range lo hi span => do
    unless subject.ty = .int do throw ⟨span, .caseRangeNotInt subject.ty⟩
    return .apply OpName.caseIn [subject, .ofLiteral (.int lo) span, .ofLiteral (.int hi) span]

end Scriptlet
