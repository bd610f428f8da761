import Scriptlet.Ir.Basic
import Scriptlet.Program.Bare

/-!
# Representations without places

`bare` puts the blank span in every place of a representation and changes nothing else.  The scopes, the bindings and
the operators keep their numbers and their order.
-/

namespace Scriptlet

/-! ### Values and scopes -/

mutual

/-- The value without its places. -/
def Value.bare : Value → Value
  | .arg => .arg
  | .ref name binding => .ref name binding
  | .atom ty text => .atom ty text
  | .apply op args => .apply op (Var.bareList args)

/-- The variable without its places. -/
def Var.bare : Var → Var
  | .mk value ty _ mutable => .mk value.bare ty .blank mutable

/-- The variables without their places. -/
def Var.bareList : List Var → List Var
  | [] => []
  | v :: vs => v.bare :: Var.bareList vs

end

theorem Var.bareList_eq (vs : List Var) : Var.bareList vs = vs.map Var.bare := by
  induction vs with
  | nil => rfl
  | cons v vs ih => simp [bareList, ih]

@[simp] theorem Var.ty_bare (v : Var) : v.bare.ty = v.ty := by
  cases v
  rfl

@[simp] theorem Var.mutable_bare (v : Var) : v.bare.mutable = v.mutable := by
  cases v
  rfl

/-- A name bound to a variable without its places. -/
def bareBinding (b : String × Var) : String × Var := (b.1, b.2.bare)

def Entry.bare : Entry → Entry
  | newVar name var => newVar name var.bare
  | action op args => action op (args.map Var.bare)
  | .scoped kind born guard id => .scoped kind born (guard.map Value.bare) id

namespace Scope

def bare (s : Scope) : Scope := { s with bindings := s.bindings.map bareBinding, entries := s.entries.map Entry.bare }

private theorem bare_push (s : Scope) (e : Entry) : (s.push e).bare = s.bare.push e.bare := by
  simp [push, bare]

private theorem bare_bind (s : Scope) (name : String) (var : Var) :
    (s.bind name var).bare = s.bare.bind name var.bare := by
  simp [bind, bare, bareBinding]

end Scope

/-! ### Representations -/

namespace Ir

variable (ir : Ir)

def bare : Ir := { ir with scopes := ir.scopes.map Scope.bare }

@[simp] theorem ops_bare : ir.bare.ops = ir.ops := rfl

@[simp] theorem size_bare : ir.bare.scopes.size = ir.scopes.size := Array.size_map

@[simp] theorem scope_bare (id : ScopeId) : ir.bare.scope id = (ir.scope id).bare := by
  unfold scope bare
  cases h : ir.scopes[id]? with
  | none => simp [h, Scope.empty, Scope.bare]
  | some s => simp [h]

private theorem binding?_bare (b : BindingId) : ir.bare.binding? b = (ir.binding? b).map bareBinding := by
  unfold binding? bare
  simp only [Array.getElem?_map, Option.bind_eq_bind]
  cases ir.scopes[b.scope]? with
  | none => rfl
  | some s => exact Array.getElem?_map

/-- A name is found in the same places without the spans. -/
theorem lookup_bare (name : String) (id : ScopeId) :
    ir.bare.lookup name id = (ir.lookup name id).map fun (b, var) => (b, var.bare) := by
  have hwithin (fuel : Nat) (id : ScopeId) : ir.bare.lookupWithin name fuel id =
      (ir.lookupWithin name fuel id).map fun (b, var) => (b, var.bare) := by
    induction fuel generalizing id with
    | zero => rfl
    | succ fuel ih =>
      have hvisible : (ir.bare.scope id).visible = (ir.scope id).visible := by rw [scope_bare]; rfl
      have hparent : (ir.bare.scope id).parent = (ir.scope id).parent := by rw [scope_bare]; rfl
      unfold lookupWithin
      rw [hvisible, hparent]
      split
      · rw [binding?_bare, Option.map_map, Option.map_map]
        rfl
      · exact ih _
      · rfl
  exact hwithin _ _

end Ir

/-! ### Steps -/

namespace Ir

/-- The step without its places. -/
def Step.bare : Step → Step
  | register name signature => register name signature
  | openScope id kind parent func born => openScope id kind parent func (born.map bareBinding)
  | declare scope name var => declare scope name var.bare
  | act scope op args => act scope op (args.map Var.bare)
  | closeScope id kind parent born guard => closeScope id kind parent born (guard.map Value.bare)

variable (ir : Ir)

private theorem bare_modifyScope (id : ScopeId) {f g : Scope → Scope} (h : ∀ s, (f s).bare = g s.bare) :
    (ir.modifyScope id f).bare = ir.bare.modifyScope id g := by
  have hscopes : (ir.scopes.modify id f).map Scope.bare = (ir.scopes.map Scope.bare).modify id g := by
    ext1
    · simp
    · simp only [Array.getElem_map, Array.getElem_modify]
      split
      · exact h _
      · rfl
  exact congrArg (Ir.mk ir.ops) hscopes

private theorem bare_openScope (parent : ScopeId) (func : Option String) (born : List (String × Var)) :
    (ir.openScope parent func born).bare = ir.bare.openScope parent func (born.map bareBinding) := by
  have hfold (s : Scope) : (born.foldl (fun s b => s.bind b.1 b.2) s).bare =
      (born.map bareBinding).foldl (fun s b => s.bind b.1 b.2) s.bare := by
    induction born generalizing s with
    | nil => rfl
    | cons b born ih =>
      rw [List.foldl_cons, ih, Scope.bare_bind]
      rfl
  have hfunc : (ir.bare.scope parent).func = (ir.scope parent).func := by rw [scope_bare]; rfl
  have hempty : (Scope.empty (some parent) (func <|> (ir.scope parent).func)).bare =
      Scope.empty (some parent) (func <|> (ir.bare.scope parent).func) := by
    rw [hfunc]
    simp [Scope.empty, Scope.bare]
  refine congrArg (Ir.mk ir.ops) (Array.map_push.trans (congrArg (ir.bare.scopes.push ·) ?_))
  exact (hfold _).trans (by rw [hempty])

/-- A step is taken in the same way without the places. -/
theorem bare_apply (step : Step) : (ir.apply step).bare = ir.bare.apply step.bare := by
  cases step with
  | register name signature => rfl
  | openScope id kind parent func born => exact bare_openScope ir parent func born
  | declare scope name var =>
    exact bare_modifyScope ir scope fun s => by rw [Scope.bare_bind, Scope.bare_push]; rfl
  | act scope op args => exact bare_modifyScope ir scope fun s => Scope.bare_push s _
  | closeScope id kind parent born guard => exact bare_modifyScope ir parent fun s => Scope.bare_push s _

end Ir

end Scriptlet
