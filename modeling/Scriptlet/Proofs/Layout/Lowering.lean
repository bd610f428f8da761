import Scriptlet.Ir.Bare
import Scriptlet.Proofs.Typing.Run

/-!
# Lowering does not see places

In a representation without places the expression without its places has the value of the expression, without the
places, or violates the same rule (`Expr.lower_bare`).  `Checked.bare` is what is left of a result without the places,
and `Checked.bind_bare` is its rule for checks in sequence.
-/

namespace Scriptlet

/-- The violated rule without the places of other parts of the source. -/
def TypeError.bare : TypeError → TypeError
  | immutableAssignment name _ => immutableAssignment name .blank
  | assignmentMismatch name expected found _ => assignmentMismatch name expected found .blank
  | duplicateFunction name previous => duplicateFunction name (previous.map fun _ => .blank)
  | e => e

/-- The violated rule, and no place. -/
def bareError (e : Located TypeError) : Located TypeError := ⟨.blank, e.value.bare⟩

namespace Checked

variable {α α' β β' : Type} {g : α → α'} {h : β → β'}

/-- The result without its places, which `g` takes from a value. -/
def bare (g : α → α') (c : Checked α) : Checked α' := (c.map g).mapError bareError

@[simp] theorem bare_ok (g : α → α') (a : α) : Checked.bare g (.ok a) = .ok (g a) := rfl

@[simp] theorem bare_error (g : α → α') (e : Located TypeError) :
    Checked.bare g (.error e) = .error ⟨.blank, e.value.bare⟩ := rfl

/-- One check after the other. -/
theorem bind_bare {c : Checked α} {c' : Checked α'} {f : α → Checked β} {f' : α' → Checked β'}
    (hc : c' = c.bare g) (hf : ∀ a, f' (g a) = (f a).bare h) : (c' >>= f') = Checked.bare h (c >>= f) := by
  subst hc
  cases c with
  | ok a => exact hf a
  | error e => rfl

end Checked

section Values

variable (ir : Ir) (scope : ScopeId)

/-- A value without its places, with its type. -/
def bareTyped (r : Value × Ty) : Value × Ty := (r.1.bare, r.2)

@[simp] theorem Expr.span_bare (e : Expr) : e.bare.span = .blank := by
  cases e <;> rfl

private theorem OperatorTable.apply_bare (t : OperatorTable) (op : String) (args : List Var) (span : Span) :
    t.apply op (args.map Var.bare) .blank = Checked.bare id (t.apply op args span) := by
  have htypes : (args.map Var.bare).map Var.ty = args.map Var.ty := by simp [Function.comp_def]
  unfold OperatorTable.apply
  simp only [htypes]
  split <;> rfl

/-- An operator applied to arguments. -/
private theorem applied_bare (op : String) (args : List Var) (span : Span) :
    (do return (Value.apply op (args.map Var.bare), ← ir.bare.ops.apply op (args.map Var.bare) .blank) :
      Checked (Value × Ty)) =
    Checked.bare bareTyped (do return (Value.apply op args, ← ir.ops.apply op args span)) := by
  refine Checked.bind_bare (ir.ops.apply_bare op args span) fun ty => ?_
  rw [← Var.bareList_eq]
  rfl

mutual

/-- Lowering an expression without its places gives the same value without its places, or the same error. -/
theorem Expr.lower_bare : (e : Expr) → e.bare.lower ir.bare scope = Checked.bare bareTyped (e.lower ir scope)
  | .literal l span => by
    unfold Expr.bare Expr.lower
    rfl
  | .name n span => by
    unfold Expr.bare Expr.lower
    rw [ir.lookup_bare]
    cases ir.lookup n scope with
    | none => rfl
    | some r => simp [bareTyped, Value.bare]
  | .call callee args span => by
    unfold Expr.bare Expr.lower
    by_cases hc : ir.ops.contains callee.name = true
    · simp only [Ident.bare, Ir.ops_bare, hc]
      refine Checked.bind_bare (Expr.lowerList_bare args) fun vars => ?_
      exact applied_bare ir callee.name vars span
    · simp only [Ident.bare, Ir.ops_bare, hc]
      rfl
  | .unary op e span => by
    unfold Expr.bare Expr.lower
    refine Checked.bind_bare (Expr.lower_bare e) fun r => ?_
    rw [Expr.span_bare]
    exact applied_bare ir op.opName [.mk r.1 r.2 e.span false] span
  | .binary op l r span => by
    unfold Expr.bare Expr.lower
    refine Checked.bind_bare (Expr.lower_bare l) fun left => ?_
    refine Checked.bind_bare (Expr.lower_bare r) fun right => ?_
    rw [Expr.span_bare, Expr.span_bare]
    exact applied_bare ir op.opName [.mk left.1 left.2 l.span false, .mk right.1 right.2 r.span false] span

private theorem Expr.lowerList_bare : (es : List Expr) → Expr.lowerList ir.bare scope (Expr.bareList es) =
    Checked.bare (List.map Var.bare) (Expr.lowerList ir scope es)
  | [] => by
    unfold Expr.bareList Expr.lowerList
    rfl
  | e :: es => by
    unfold Expr.bareList Expr.lowerList
    refine Checked.bind_bare (Expr.lower_bare e) fun r => ?_
    refine Checked.bind_bare (Expr.lowerList_bare es) fun vars => ?_
    rw [Expr.span_bare]
    rfl

end

theorem Expr.lowerVar_bare (e : Expr) :
    e.bare.lowerVar ir.bare scope = Checked.bare Var.bare (e.lowerVar ir scope) := by
  refine Checked.bind_bare (Expr.lower_bare ir scope e) fun r => ?_
  rw [Expr.span_bare]
  rfl

theorem Expr.lowerCond_bare (e : Expr) :
    e.bare.lowerCond ir.bare scope = Checked.bare Value.bare (e.lowerCond ir scope) := by
  refine Checked.bind_bare (Expr.lower_bare ir scope e) fun r => ?_
  rw [Expr.span_bare]
  obtain ⟨v, ty⟩ := r
  cases ty <;> rfl

/-- Lowering the arguments of a call does not depend on places. -/
theorem lowerCall_bare (callee : Ident) (args : List Expr) (span : Span) :
    lowerCall ir.bare scope callee.bare (args.map Expr.bare) .blank =
      Checked.bare (List.map Var.bare) (lowerCall ir scope callee args span) := by
  unfold lowerCall
  by_cases hc : ir.ops.contains callee.name = true
  · simp only [Ident.bare, Ir.ops_bare, hc, ← Expr.bareList_eq]
    refine Checked.bind_bare (Expr.lowerList_bare ir scope args) fun vars => ?_
    exact Checked.bind_bare (ir.ops.apply_bare callee.name vars span) fun _ => rfl
  · simp only [Ident.bare, Ir.ops_bare, hc]
    rfl

theorem lowerPrintArgs_bare (args : List Expr) : lowerPrintArgs ir.bare scope (args.map Expr.bare) =
    Checked.bare (List.map Var.bare) (lowerPrintArgs ir scope args) := by
  induction args with
  | nil => rfl
  | cons e es ih =>
    refine Checked.bind_bare (Expr.lowerVar_bare ir scope e) fun var => ?_
    rw [Expr.span_bare, Var.ty_bare]
    by_cases hvoid : var.ty = .void
    · rw [if_pos hvoid, if_pos hvoid]
      rfl
    · rw [if_neg hvoid, if_neg hvoid]
      exact Checked.bind_bare ih fun _ => rfl

theorem Iterable.lower_bare (i : Iterable) :
    i.bare.lower ir.bare scope = Checked.bare bareTyped (i.lower ir scope) := by
  cases i with
  | range first last step span =>
    unfold Iterable.lower Iterable.bare
    by_cases hstep : step = 0
    · simp only [hstep]
      rfl
    · simp only [hstep]
      rfl
  | expr e =>
    refine Checked.bind_bare (Expr.lowerVar_bare ir scope e) fun var => ?_
    rw [Expr.span_bare, Var.ty_bare]
    by_cases hty : var.ty = .string
    · simp only [hty]
      rfl
    · simp only [hty]
      rfl

end Values

/-! ### Cases -/

private theorem Const.lower_bare (subject : Ty) (c : Const) :
    c.bare.lower subject = Checked.bare Var.bare (c.lower subject) := by
  unfold Const.lower Const.bare
  split <;> rfl

private theorem lowerConsts_bare (subject : Ty) (cs : List Const) :
    (cs.map Const.bare).mapM (·.lower subject) = Checked.bare (List.map Var.bare) (cs.mapM (·.lower subject)) := by
  induction cs with
  | nil => rfl
  | cons c cs ih =>
    rw [List.map_cons, List.mapM_cons, List.mapM_cons]
    refine Checked.bind_bare (c.lower_bare subject) fun var => ?_
    exact Checked.bind_bare ih fun _ => rfl

/-- Lowering a comparator does not depend on places. -/
theorem Comparator.lower_bare (subject : Var) (c : Comparator) :
    c.bare.lower subject.bare = Checked.bare Value.bare (c.lower subject) := by
  cases c with
  | const c =>
    unfold Comparator.lower Comparator.bare
    rw [Var.ty_bare]
    exact Checked.bind_bare (c.lower_bare subject.ty) fun _ => rfl
  | oneOf cs =>
    unfold Comparator.lower Comparator.bare
    rw [Var.ty_bare]
    refine Checked.bind_bare (lowerConsts_bare subject.ty cs) fun vars => ?_
    rw [← List.map_cons, ← Var.bareList_eq]
    rfl
  | range lo hi span =>
    unfold Comparator.lower Comparator.bare
    rw [Var.ty_bare]
    by_cases hty : subject.ty = .int
    · simp only [hty]
      rfl
    · simp only [hty]
      rfl

end Scriptlet
