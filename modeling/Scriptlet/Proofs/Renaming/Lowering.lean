import Scriptlet.Proofs.Renaming.Basic
import Scriptlet.Proofs.Typing.Run

/-!
# Lowering follows a renaming

In a renamed representation the renamed expression has the renamed value, or violates the same rule of the renamed names
(`Expr.lower_rename`).  The operators that symbols stand for keep their names, and so do the guards of loops and cases.
-/

namespace Scriptlet

namespace Renaming

variable (ρ : Renaming) {α β : Type}

private theorem func_unary (op : UnaryOp) : ρ.func op.opName = op.opName := ρ.func_reserved _ (.inl op.isBuiltin)

private theorem func_binary (op : BinaryOp) : ρ.func op.opName = op.opName := ρ.func_reserved _ (.inl op.isBuiltin)

/-- The names of actions are reserved, so that no renaming changes them. -/
theorem func_action {op : String} (h : op ∈ OpName.actions) : ρ.func op = op := ρ.func_reserved _ (.inr h)

/-- The result with its names renamed, in a value by `g`. -/
def result (g : α → β) (c : Checked α) : Checked β := (c.map g).mapError (renameError ρ)

@[simp] theorem result_ok (g : α → β) (a : α) : ρ.result g (.ok a) = .ok (g a) := rfl

@[simp] theorem result_error (g : α → β) (e : Located TypeError) :
    ρ.result g (.error e) = .error ⟨e.span, e.value.rename ρ⟩ := rfl

variable {ρ} {α' β' : Type} {g : α → α'} {h : β → β'}

/-- One check after the other. -/
theorem result_bind {c : Checked α} {c' : Checked α'} {f : α → Checked β} {f' : α' → Checked β'}
    (hc : c' = ρ.result g c) (hf : ∀ a, f' (g a) = ρ.result h (f a)) : (c' >>= f') = ρ.result h (c >>= f) := by
  subst hc
  cases c with
  | ok a => exact hf a
  | error e => rfl

end Renaming

open Renaming (result_bind)

/-- The value with its names renamed, and its type. -/
def renameTyped (ρ : Renaming) (r : Value × Ty) : Value × Ty := (r.1.rename ρ, r.2)

@[simp] theorem Var.rename_ofLiteral (ρ : Renaming) (l : Literal) (span : Span) :
    (Var.ofLiteral l span).rename ρ = Var.ofLiteral l span := by
  unfold Var.ofLiteral Var.rename Value.ofLiteral Value.rename
  rfl

section Values

variable {ρ : Renaming} {ir ir' : Ir}

private theorem Ir.Renames.applyOp (h : Ir.Renames ρ ir ir') (op : String) (args : List Var) (span : Span) :
    ir'.ops.apply (ρ.func op) (args.map (Var.rename ρ)) span = ρ.result id (ir.ops.apply op args span) := by
  have htypes : (args.map (Var.rename ρ)).map Var.ty = args.map Var.ty := by simp [Function.comp_def]
  unfold OperatorTable.apply
  simp only [htypes, h.get?]
  split <;> rfl

/-- An operator applied to arguments. -/
private theorem applied_rename (h : Ir.Renames ρ ir ir') (op : String) (args : List Var)
    (span : Span) :
    (do return (Value.apply (ρ.func op) (args.map (Var.rename ρ)),
      ← ir'.ops.apply (ρ.func op) (args.map (Var.rename ρ)) span) : Checked (Value × Ty)) =
    ρ.result (renameTyped ρ) (do return (Value.apply op args, ← ir.ops.apply op args span)) := by
  refine result_bind (h.applyOp op args span) fun ty => ?_
  rw [← Var.renameList_eq]
  rfl

mutual

/-- Lowering an expression commutes with renaming, in results and in errors. -/
theorem Expr.lower_rename (h : Ir.Renames ρ ir ir') (scope : ScopeId) : (e : Expr) →
    (e.rename ρ).lower ir' scope = ρ.result (renameTyped ρ) (e.lower ir scope)
  | .literal l span => by
    unfold Expr.rename Expr.lower
    rfl
  | .name n span => by
    unfold Expr.rename Expr.lower
    rw [h.lookup]
    cases ir.lookup n scope with
    | none => rfl
    | some r => simp [renameTyped, Value.rename]
  | .call callee args span => by
    unfold Expr.rename Expr.lower
    have hcontains : ir'.ops.contains (callee.map ρ.func).name = ir.ops.contains callee.name := h.contains callee.name
    rw [hcontains]
    by_cases hc : ir.ops.contains callee.name = true
    · simp only [hc]
      refine result_bind (Expr.lowerList_rename h scope args) fun vars => ?_
      exact applied_rename h callee.name vars span
    · simp only [hc]
      rfl
  | .unary op e span => by
    unfold Expr.rename Expr.lower
    refine result_bind (Expr.lower_rename h scope e) fun r => ?_
    have happlied := applied_rename h op.opName [.mk r.1 r.2 e.span false] span
    rw [ρ.func_unary op] at happlied
    rw [Expr.span_rename]
    exact happlied
  | .binary op l r span => by
    unfold Expr.rename Expr.lower
    refine result_bind (Expr.lower_rename h scope l) fun left => ?_
    refine result_bind (Expr.lower_rename h scope r) fun right => ?_
    have happlied := applied_rename h op.opName
      [.mk left.1 left.2 l.span false, .mk right.1 right.2 r.span false] span
    rw [ρ.func_binary op] at happlied
    rw [Expr.span_rename, Expr.span_rename]
    exact happlied

private theorem Expr.lowerList_rename (h : Ir.Renames ρ ir ir') (scope : ScopeId) : (es : List Expr) →
    Expr.lowerList ir' scope (Expr.renameList ρ es) =
      ρ.result (List.map (Var.rename ρ)) (Expr.lowerList ir scope es)
  | [] => by
    unfold Expr.renameList Expr.lowerList
    rfl
  | e :: es => by
    unfold Expr.renameList Expr.lowerList
    refine result_bind (Expr.lower_rename h scope e) fun r => ?_
    refine result_bind (Expr.lowerList_rename h scope es) fun vars => ?_
    rw [Expr.span_rename]
    rfl

end

theorem Expr.lowerVar_rename (h : Ir.Renames ρ ir ir') (scope : ScopeId) (e : Expr) :
    (e.rename ρ).lowerVar ir' scope = ρ.result (Var.rename ρ) (e.lowerVar ir scope) := by
  refine result_bind (Expr.lower_rename h scope e) fun r => ?_
  rw [Expr.span_rename]
  rfl

theorem Expr.lowerCond_rename (h : Ir.Renames ρ ir ir') (scope : ScopeId) (e : Expr) :
    (e.rename ρ).lowerCond ir' scope = ρ.result (Value.rename ρ) (e.lowerCond ir scope) := by
  refine result_bind (Expr.lower_rename h scope e) fun r => ?_
  rw [Expr.span_rename]
  obtain ⟨v, ty⟩ := r
  cases ty <;> rfl

/-- Lowering the arguments of a call commutes with renaming. -/
theorem lowerCall_rename (h : Ir.Renames ρ ir ir') (scope : ScopeId) (callee : Ident) (args : List Expr)
    (span : Span) :
    lowerCall ir' scope (callee.map ρ.func) (args.map (Expr.rename ρ)) span =
      ρ.result (List.map (Var.rename ρ)) (lowerCall ir scope callee args span) := by
  unfold lowerCall
  have hcontains : ir'.ops.contains (callee.map ρ.func).name = ir.ops.contains callee.name := h.contains callee.name
  rw [hcontains]
  by_cases hc : ir.ops.contains callee.name = true
  · simp only [hc, ← Expr.renameList_eq]
    refine result_bind (Expr.lowerList_rename h scope args) fun vars => ?_
    exact result_bind (h.applyOp callee.name vars span) fun _ => rfl
  · simp only [hc]
    rfl

theorem lowerPrintArgs_rename (h : Ir.Renames ρ ir ir') (scope : ScopeId) (args : List Expr) :
    lowerPrintArgs ir' scope (args.map (Expr.rename ρ)) =
      ρ.result (List.map (Var.rename ρ)) (lowerPrintArgs ir scope args) := by
  induction args with
  | nil => rfl
  | cons e es ih =>
    refine result_bind (Expr.lowerVar_rename h scope e) fun var => ?_
    rw [Expr.span_rename, Var.ty_rename]
    by_cases hvoid : var.ty = .void
    · rw [if_pos hvoid, if_pos hvoid]
      rfl
    · rw [if_neg hvoid, if_neg hvoid]
      exact result_bind ih fun _ => rfl

theorem Iterable.lower_rename (h : Ir.Renames ρ ir ir') (scope : ScopeId) (i : Iterable) :
    (i.rename ρ).lower ir' scope = ρ.result (renameTyped ρ) (i.lower ir scope) := by
  cases i with
  | range first last step span =>
    have hop : ρ.func OpName.iterRange = OpName.iterRange := ρ.func_action (by decide)
    unfold Iterable.lower Iterable.rename
    by_cases hstep : step = 0
    · simp only [hstep]
      rfl
    · simp only [hstep]
      refine congrArg Except.ok (congrArg (·, Ty.int) ?_)
      rw [Value.rename, hop, Var.renameList_eq]
      simp
  | expr e =>
    have hop : ρ.func OpName.iterString = OpName.iterString := ρ.func_action (by decide)
    refine result_bind (Expr.lowerVar_rename h scope e) fun var => ?_
    rw [Expr.span_rename, Var.ty_rename]
    by_cases hty : var.ty = .string
    · simp only [hty]
      refine congrArg Except.ok (congrArg (·, Ty.string) ?_)
      rw [Value.rename, hop, Var.renameList_eq]
      rfl
    · simp only [hty]
      rfl

end Values

/-! ### Cases -/

private theorem Const.lower_fixed (ρ : Renaming) (subject : Ty) (c : Const) :
    c.lower subject = ρ.result (Var.rename ρ) (c.lower subject) := by
  unfold Const.lower
  split
  · rw [Renaming.result_ok, Var.rename_ofLiteral]
  · rfl

private theorem lowerConsts_fixed (ρ : Renaming) (subject : Ty) (cs : List Const) :
    cs.mapM (·.lower subject) = ρ.result (List.map (Var.rename ρ)) (cs.mapM (·.lower subject)) := by
  induction cs with
  | nil => rfl
  | cons c cs ih =>
    rw [List.mapM_cons]
    refine result_bind (c.lower_fixed ρ subject) fun var => ?_
    exact result_bind ih fun _ => rfl

/-- A comparator names nothing, so that only its subject is renamed. -/
theorem Comparator.lower_rename (ρ : Renaming) (subject : Var) (c : Comparator) :
    c.lower (subject.rename ρ) = ρ.result (Value.rename ρ) (c.lower subject) := by
  have hop (op : String) (hop : op ∈ OpName.actions) (args : List Var) :
      Value.apply op (args.map (Var.rename ρ)) = (Value.apply op args).rename ρ := by
    rw [Value.rename, ρ.func_action hop, Var.renameList_eq]
  cases c with
  | const c =>
    unfold Comparator.lower
    rw [Var.ty_rename]
    exact result_bind (c.lower_fixed ρ subject.ty) fun var =>
      congrArg Except.ok (hop _ (by decide) [subject, var])
  | oneOf cs =>
    unfold Comparator.lower
    rw [Var.ty_rename]
    exact result_bind (lowerConsts_fixed ρ subject.ty cs) fun vars =>
      congrArg Except.ok (hop _ (by decide) (subject :: vars))
  | range lo hi span =>
    unfold Comparator.lower
    rw [Var.ty_rename]
    by_cases hty : subject.ty = .int
    · simp only [hty]
      have hargs := hop OpName.caseIn (by decide)
        [subject, .ofLiteral (.int lo) span, .ofLiteral (.int hi) span]
      simp only [List.map_cons, List.map_nil, Var.rename_ofLiteral] at hargs
      exact congrArg Except.ok hargs
    · simp only [hty]
      rfl

end Scriptlet
