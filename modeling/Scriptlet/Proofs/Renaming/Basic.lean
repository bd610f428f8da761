import Mathlib.Logic.Equiv.Defs
import Scriptlet.Proofs.Diagnosis.Names
import Scriptlet.Proofs.Ir.Table

/-!
# Renamed programs

A `Renaming` has a name for every variable and one for every function.  Here it is carried through programs, the parts
of representations and errors.  Parameters and loop variables are variables; the names of operators and actions are
those of functions, which a renaming leaves alone where they belong to the language.

In a renamed representation every name is found where the old one was (`Renames.lookup`, `Renames.get?`), and a step is
taken in the same way (`Renames.apply`).
-/

namespace Scriptlet

/-- New names for variables and functions.  No two variables get the same name, and every name is that of one function;
the names of the language's own operators and actions stay as they are. -/
structure Renaming where
  var : String → String
  func : Equiv.Perm String
  var_injective : Function.Injective var
  func_reserved : ∀ name, OpName.IsBuiltin name ∨ name ∈ OpName.actions → func name = name

variable (ρ : Renaming)

/-! ### Programs -/

/-- The name at its place, as another one. -/
def Ident.map (f : String → String) (i : Ident) : Ident := ⟨f i.name, i.span⟩

def Param.rename (p : Param) : Param := ⟨p.name.map ρ.var, p.type⟩

mutual

/-- The expression with its names renamed. -/
def Expr.rename : Expr → Expr
  | .literal v span => .literal v span
  | .name n span => .name (ρ.var n) span
  | .call f args span => .call (f.map ρ.func) (Expr.renameList args) span
  | .unary op e span => .unary op e.rename span
  | .binary op l r span => .binary op l.rename r.rename span

/-- The expressions with their names renamed. -/
def Expr.renameList : List Expr → List Expr
  | [] => []
  | e :: es => e.rename :: Expr.renameList es

end

theorem Expr.renameList_eq (es : List Expr) : Expr.renameList ρ es = es.map (Expr.rename ρ) := by
  induction es with
  | nil => rfl
  | cons e es ih => simp [renameList, ih]

@[simp] theorem Expr.span_rename (e : Expr) : (e.rename ρ).span = e.span := by
  cases e <;> rfl

def Decl.rename (d : Decl) : Decl := ⟨d.name.map ρ.var, d.type, d.value.rename ρ⟩

def Iterable.rename : Iterable → Iterable
  | range first last step span => range first last step span
  | expr e => expr (e.rename ρ)

mutual

/-- The item with its names renamed. -/
def Item.rename : Item → Item
  | .letDecl d span => .letDecl (d.rename ρ) span
  | .func name params result body span =>
    .func (name.map ρ.func) (params.map (Param.rename ρ)) result body.rename span

/-- The statement with its names renamed. -/
def Stmt.rename : Stmt → Stmt
  | .item i => .item i.rename
  | .varDecl d span => .varDecl (d.rename ρ) span
  | .assign target value span => .assign (target.map ρ.var) (value.rename ρ) span
  | .print args span => .print (args.map (Expr.rename ρ)) span
  | .ret value span => .ret (value.map (Expr.rename ρ)) span
  | .call callee args span => .call (callee.map ρ.func) (args.map (Expr.rename ρ)) span
  | .forLoop var iterable body span => .forLoop (var.map ρ.var) (iterable.rename ρ) body.rename span
  | .whileLoop cond body span => .whileLoop (cond.rename ρ) body.rename span
  | .ifThen cond thenBlock span => .ifThen (cond.rename ρ) thenBlock.rename span
  | .ifElse cond thenBlock elseBlock span => .ifElse (cond.rename ρ) thenBlock.rename elseBlock.rename span
  | .switch subject cases span => .switch (subject.rename ρ) (renameCases cases) span

/-- The block with its names renamed. -/
def Block.rename : Block → Block
  | .mk stmts span => .mk (renameStmts stmts) span

/-- The statements with their names renamed. -/
def renameStmts : List Stmt → List Stmt
  | [] => []
  | s :: ss => s.rename :: renameStmts ss

/-- The cases with their names renamed. -/
def renameCases : List Case → List Case
  | [] => []
  | .mk comparator body span :: cs => .mk comparator body.rename span :: renameCases cs

end

def Program.rename (p : Program) : Program := ⟨p.items.map (Item.rename ρ)⟩

/-! ### Errors -/

/-- The violated rule with its names renamed. -/
def TypeError.rename : TypeError → TypeError
  | undefinedName name => undefinedName (ρ.var name)
  | undefinedFunction name => undefinedFunction (ρ.func name)
  | noMatchingAlternative op args alternatives => noMatchingAlternative (ρ.func op) args alternatives
  | voidBinding name => voidBinding (ρ.var name)
  | immutableAssignment name declaredAt => immutableAssignment (ρ.var name) declaredAt
  | assignmentMismatch name expected found declaredAt => assignmentMismatch (ρ.var name) expected found declaredAt
  | duplicateFunction name previous => duplicateFunction (ρ.func name) previous
  | duplicateParam name => duplicateParam (ρ.var name)
  | returnMismatch func expected found => returnMismatch (ρ.func func) expected found
  | e => e

/-- The violated rule at its place, with its names renamed. -/
def renameError (e : Located TypeError) : Located TypeError := ⟨e.span, e.value.rename ρ⟩

/-! ### Values and scopes -/

mutual

/-- The value with its names renamed. -/
def Value.rename : Value → Value
  | .arg => .arg
  | .ref name binding => .ref (ρ.var name) binding
  | .atom ty text => .atom ty text
  | .apply op args => .apply (ρ.func op) (Var.renameList args)

/-- The variable with the names in its value renamed. -/
def Var.rename : Var → Var
  | .mk value ty span mutable => .mk value.rename ty span mutable

/-- The variables with the names in their values renamed. -/
def Var.renameList : List Var → List Var
  | [] => []
  | v :: vs => v.rename :: Var.renameList vs

end

theorem Var.renameList_eq (vs : List Var) : Var.renameList ρ vs = vs.map (Var.rename ρ) := by
  induction vs with
  | nil => rfl
  | cons v vs ih => simp [renameList, ih]

@[simp] theorem Var.ty_rename (v : Var) : (v.rename ρ).ty = v.ty := by
  cases v
  rfl

@[simp] theorem Var.span_rename (v : Var) : (v.rename ρ).span = v.span := by
  cases v
  rfl

@[simp] theorem Var.mutable_rename (v : Var) : (v.rename ρ).mutable = v.mutable := by
  cases v
  rfl

/-- A renamed name bound to a variable. -/
def renameBinding (b : String × Var) : String × Var := (ρ.var b.1, b.2.rename ρ)

def Entry.rename : Entry → Entry
  | newVar name var => newVar (ρ.var name) (var.rename ρ)
  | action op args => action (ρ.func op) (args.map (Var.rename ρ))
  | .scoped kind born guard id => .scoped kind (born.map ρ.var) (guard.map (Value.rename ρ)) id

namespace Scope

def rename (s : Scope) : Scope :=
  ⟨s.parent, s.func.map ρ.func, s.bindings.map (renameBinding ρ), s.visible.map (Prod.map ρ.var id),
    s.entries.map (Entry.rename ρ)⟩

private theorem rename_push (s : Scope) (e : Entry) : (s.push e).rename ρ = (s.rename ρ).push (e.rename ρ) := by
  simp [push, rename]

private theorem setVisible_rename (name : String) (index : Nat) (vs : List (String × Nat)) :
    setVisible (ρ.var name) index (vs.map (Prod.map ρ.var id)) =
      (setVisible name index vs).map (Prod.map ρ.var id) := by
  induction vs with
  | nil => rfl
  | cons v vs ih =>
    obtain ⟨n, i⟩ := v
    by_cases hn : n = name
    · simp [setVisible, hn]
    · simp [setVisible, hn, mt (@ρ.var_injective n name) hn, ih]

private theorem rename_bind (s : Scope) (name : String) (var : Var) :
    (s.bind name var).rename ρ = (s.rename ρ).bind (ρ.var name) (var.rename ρ) := by
  simp [bind, rename, renameBinding, setVisible_rename]

end Scope

namespace Ir

/-- The step with its names renamed. -/
def Step.rename : Step → Step
  | register name signature => register (ρ.func name) signature
  | openScope id kind parent func born => openScope id kind parent (func.map ρ.func) (born.map (renameBinding ρ))
  | declare scope name var => declare scope (ρ.var name) (var.rename ρ)
  | act scope op args => act scope (ρ.func op) (args.map (Var.rename ρ))
  | closeScope id kind parent born guard =>
    closeScope id kind parent (born.map ρ.var) (guard.map (Value.rename ρ))

/-! ### Representations -/

/-- The second representation is the first one renamed: it has the same scopes with the names in them renamed, and in
its table of operators the renamed name stands for what the name stands for. -/
structure Renames (ir ir' : Ir) : Prop where
  get? : ∀ name, ir'.ops.get? (ρ.func name) = ir.ops.get? name
  scopes : ir'.scopes = ir.scopes.map (Scope.rename ρ)

end Ir

/-- A renamed key is found where the key was. -/
theorem lookup_map_injective {α β γ : Type} [BEq α] [LawfulBEq α] [BEq β] [LawfulBEq β] {f : α → β}
    (hf : Function.Injective f) (l : List (α × γ)) (a : α) :
    (l.map (Prod.map f id)).lookup (f a) = l.lookup a := by
  induction l with
  | nil => rfl
  | cons x l ih =>
    obtain ⟨b, c⟩ := x
    rw [List.map_cons, Prod.map_apply, List.lookup_cons, List.lookup_cons, ih]
    by_cases hab : a = b
    · simp [hab]
    · have hne : f a ≠ f b := fun h => hab (hf h)
      rw [beq_false_of_ne hab, beq_false_of_ne hne]

namespace Ir.Renames

variable {ρ} {ir ir' : Ir} (h : Ir.Renames ρ ir ir')
include h

/-- A function is known under its new name just if it was under the old one. -/
theorem contains (name : String) : ir'.ops.contains (ρ.func name) = ir.ops.contains name := by
  rw [OperatorTable.contains, h.get?, OperatorTable.contains]

/-- Renaming opens no scope. -/
theorem size : ir'.scopes.size = ir.scopes.size := by
  rw [h.scopes, Array.size_map]

/-- Scopes are renamed one by one. -/
theorem scope (id : ScopeId) : ir'.scope id = (ir.scope id).rename ρ := by
  unfold Ir.scope
  rw [h.scopes, Array.getElem?_map]
  cases ir.scopes[id]? with
  | none => simp [Scope.empty, Scope.rename]
  | some s => rfl

private theorem binding? (b : BindingId) : ir'.binding? b = (ir.binding? b).map (renameBinding ρ) := by
  unfold Ir.binding?
  simp only [h.scopes, Array.getElem?_map, Option.bind_eq_bind]
  cases ir.scopes[b.scope]? with
  | none => rfl
  | some s => exact Array.getElem?_map

/-- The renamed name means the binding that the name meant. -/
theorem lookup (name : String) (id : ScopeId) :
    ir'.lookup (ρ.var name) id = (ir.lookup name id).map fun (b, var) => (b, var.rename ρ) := by
  have hwithin (fuel : Nat) (id : ScopeId) : ir'.lookupWithin (ρ.var name) fuel id =
      (ir.lookupWithin name fuel id).map fun (b, var) => (b, var.rename ρ) := by
    induction fuel generalizing id with
    | zero => rfl
    | succ fuel ih =>
      have hvisible : (ir'.scope id).visible.lookup (ρ.var name) = (ir.scope id).visible.lookup name := by
        rw [h.scope]
        exact lookup_map_injective ρ.var_injective _ _
      have hparent : (ir'.scope id).parent = (ir.scope id).parent := by rw [h.scope]; rfl
      unfold lookupWithin
      rw [hvisible, hparent]
      split
      · rw [h.binding?, Option.map_map, Option.map_map]
        rfl
      · exact ih _
      · rfl
  exact hwithin _ _

private theorem modifyScope (id : ScopeId) {f f' : Scope → Scope} (hf : ∀ s, (f s).rename ρ = f' (s.rename ρ)) :
    Renames ρ (ir.modifyScope id f) (ir'.modifyScope id f') := by
  refine ⟨h.get?, ?_⟩
  have hscopes : (ir.scopes.modify id f).map (Scope.rename ρ) = (ir.scopes.map (Scope.rename ρ)).modify id f' := by
    ext1
    · simp
    · simp only [Array.getElem_map, Array.getElem_modify]
      split
      · exact hf _
      · rfl
  unfold Ir.modifyScope
  rw [h.scopes]
  exact hscopes.symm

private theorem openScope (parent : ScopeId) (func : Option String) (born : List (String × Var)) :
    Renames ρ (ir.openScope parent func born)
      (ir'.openScope parent (func.map ρ.func) (born.map (renameBinding ρ))) := by
  have hfold (s : Scope) : (s.bindAll born).rename ρ = (s.rename ρ).bindAll (born.map (renameBinding ρ)) := by
    induction born generalizing s with
    | nil => rfl
    | cons b born ih =>
      rw [Scope.bindAll_cons, ih, Scope.rename_bind]
      rfl
  have hempty : Scope.empty (some parent) (func.map ρ.func <|> (ir'.scope parent).func) =
      (Scope.empty (some parent) (func <|> (ir.scope parent).func)).rename ρ := by
    rw [h.scope]
    cases func <;> simp [Scope.empty, Scope.rename]
  refine ⟨h.get?, ?_⟩
  have hscope := hfold (.empty (some parent) (func <|> (ir.scope parent).func))
  rw [← hempty] at hscope
  unfold Ir.openScope
  rw [Array.map_push, h.scopes]
  exact congrArg (Array.push (ir.scopes.map (Scope.rename ρ))) hscope.symm

private theorem register (name : String) (signature : Signature) :
    Renames ρ (ir.apply (.register name signature)) (ir'.apply (.register (ρ.func name) signature)) := by
  refine ⟨fun other => ?_, h.scopes⟩
  have hcontains := h.contains name
  simp only [Ir.apply]
  cases hc : ir.ops.contains name with
  | true =>
    rw [hc] at hcontains
    rw [OperatorTable.define?, if_pos hcontains, OperatorTable.define?, if_pos hc]
    exact h.get? other
  | false =>
    rw [hc] at hcontains
    have hold := OperatorTable.get?_define hc signature other
    have hnew := OperatorTable.get?_define hcontains signature (ρ.func other)
    rw [hnew, hold, h.get?]
    simp only [ρ.func.apply_eq_iff_eq]

/-- A step is taken in the same way with its names renamed. -/
theorem apply (step : Step) : Renames ρ (ir.apply step) (ir'.apply (step.rename ρ)) := by
  cases step with
  | register name signature => exact h.register name signature
  | openScope id kind parent func born => exact h.openScope parent func born
  | declare scope name var =>
    exact h.modifyScope scope fun s => by rw [Scope.rename_bind, Scope.rename_push]; rfl
  | act scope op args => exact h.modifyScope scope fun s => Scope.rename_push ρ s _
  | closeScope id kind parent born guard => exact h.modifyScope parent fun s => Scope.rename_push ρ s _

end Ir.Renames

end Scriptlet
