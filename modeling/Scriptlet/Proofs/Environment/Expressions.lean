import Scriptlet.Proofs.Environment.Represents

/-!
# Expressions in environments

Lowering an expression in a scope and finding its type in an environment that represents the check come to the same
type, or to the same error (`lower_agrees`).  So do the parts of statements that are made of expressions.
-/

namespace Scriptlet

/-- Two checks that come to related values, or to the same error. -/
inductive Agree {α β : Type} (R : α → β → Prop) : Checked α → Checked β → Prop where
  | ok {a : α} {b : β} (h : R a b) : Agree R (.ok a) (.ok b)
  | error (e : Located TypeError) : Agree R (.error e) (.error e)

namespace Agree

variable {α β γ δ : Type} {R : α → β → Prop} {S : γ → δ → Prop} {x : Checked α} {y : Checked β}

/-- What follows agrees if it does so for results that agree. -/
theorem bind {f : α → Checked γ} {g : β → Checked δ} (h : Agree R x y) (hf : ∀ a b, R a b → Agree S (f a) (g b)) :
    Agree S (x >>= f) (y >>= g) := by
  cases h with
  | ok h => exact hf _ _ h
  | error e => exact .error e

/-- Two values that must be equal: one side goes on if they are, the other stops if they are not. -/
private theorem ite_eq {ι : Type} [DecidableEq ι] {a b : ι} {x x' : Checked α} {y y' : Checked β}
    (h : a = b → Agree R x y) (h' : a ≠ b → Agree R x' y') :
    Agree R (if a = b then x else x') (if a ≠ b then y' else y) := by
  by_cases hab : a = b
  · rw [if_pos hab, if_neg (not_not_intro hab)]
    exact h hab
  · rw [if_neg hab, if_pos hab]
    exact h' hab

private theorem bind_pure {f : α → γ} {T : γ → β → Prop} (h : Agree R x y) (hf : ∀ a b, R a b → T (f a) b) :
    Agree T (x >>= fun a => pure (f a)) y := by
  cases h with
  | ok h => exact .ok (hf _ _ h)
  | error e => exact .error e

private theorem map {f : α → γ} {T : γ → β → Prop} (h : Agree R x y) (hf : ∀ a b, R a b → T (f a) b) :
    Agree T (f <$> x) y := by
  cases h with
  | ok h => exact .ok (hf _ _ h)
  | error e => exact .error e

/-- A check that agrees with one that fails fails with the same error. -/
theorem eq_error {e : Located TypeError} (h : Agree R (.error e) y) : y = .error e := by
  cases h
  rfl

/-- A check that agrees with one that succeeds succeeds with a result that agrees. -/
theorem eq_ok {a : α} (h : Agree R (.ok a) y) : ∃ b, y = .ok b ∧ R a b := by
  cases h with
  | ok h => exact ⟨_, rfl, h⟩

theorem forget (h : Agree R x y) : x.map (fun _ => ()) = y.map (fun _ => ()) := by
  cases h <;> rfl

end Agree

open Typing

variable {l : Layer} {stack : List Layer} {s : Typing.State} {Γ : Env}

/-! ### Operators -/

/-- A callee is known on both sides or on none. -/
private theorem checkCallee_agrees {γ δ : Type} {R : γ → δ → Prop} {f : Checked γ} {g : Unit → Checked δ}
    (h : Represents (l :: stack) s Γ) (callee : Ident) (hf : Agree R f (g ())) :
    Agree R
      (if s.ir.ops.contains callee.name then f
        else throw ⟨callee.span, .undefinedFunction callee.name⟩ >>= fun _ : PUnit => f)
      (Γ.checkCallee callee >>= g) := by
  have hc := h.contains callee.name
  unfold Env.checkCallee
  by_cases hs : (Γ.signatures callee.name).isEmpty
  · rw [hs] at hc
    rw [if_neg (by simp [hc]), if_pos hs]
    exact .error _
  · rw [if_pos (by simpa [hc] using hs), if_neg hs]
    exact hf

/-- The result of an operator depends on the types of its arguments. -/
private theorem apply_agrees (h : Represents (l :: stack) s Γ) (op : String) (args : List Var) (span : Span) :
    Agree Eq (s.ir.ops.apply op args span) (Γ.resultOf op (args.map Var.ty) span) := by
  have ha := h.alternatives op
  unfold OperatorTable.apply Env.resultOf
  rw [← ha]
  cases hg : s.ir.ops.get? op with
  | none => exact .error _
  | some o =>
    simp only [Option.bind_some, Option.map_some, Option.getD_some, Operator.resolve]
    cases o.alternatives.find? (·.args = args.map Var.ty) with
    | none => exact .error _
    | some sig => exact .ok rfl

private theorem applied_agrees (h : Represents (l :: stack) s Γ) (op : String) (args : List Var) (span : Span) :
    Agree (fun r ty => r.2 = ty) (do return (Value.apply op args, ← s.ir.ops.apply op args span))
      (Γ.resultOf op (args.map Var.ty) span) :=
  (apply_agrees h op args span).bind_pure fun _ _ h => h

/-! ### Expressions -/

mutual

/-- An expression is lowered with the type that the environment gives it, or both fail with the same error. -/
theorem lower_agrees (h : Represents (l :: stack) s Γ) :
    (e : Expr) → Agree (fun r ty => r.2 = ty) (e.lower s.ir l.scope) (Γ.typeOf e)
  | .literal lit _ => .ok rfl
  | .name n span => by
    have hf := h.find? n
    unfold Expr.lower Env.typeOf
    rw [hf]
    cases s.ir.lookup n l.scope with
    | none => exact .error _
    | some b => exact .ok rfl
  | .call callee args span => by
    unfold Expr.lower Env.typeOf
    refine checkCallee_agrees h callee ((lowerList_agrees h args).bind fun vars types hv => ?_)
    subst hv
    exact applied_agrees h callee.name vars span
  | .unary op operand span => by
    unfold Expr.lower Env.typeOf
    refine (lower_agrees h operand).bind fun r ty hr => ?_
    subst hr
    exact applied_agrees h op.opName [.mk r.1 r.2 operand.span false] span
  | .binary op lhs rhs span => by
    unfold Expr.lower Env.typeOf
    refine (lower_agrees h lhs).bind fun left leftTy hl => ?_
    refine (lower_agrees h rhs).bind fun right rightTy hr => ?_
    subst hl hr
    exact applied_agrees h op.opName [.mk left.1 left.2 lhs.span false, .mk right.1 right.2 rhs.span false] span

private theorem lowerList_agrees (h : Represents (l :: stack) s Γ) : (es : List Expr) →
    Agree (fun vars types => vars.map Var.ty = types) (Expr.lowerList s.ir l.scope es) (Γ.typesOf es)
  | [] => .ok rfl
  | e :: es => by
    unfold Expr.lowerList Env.typesOf
    refine (lower_agrees h e).bind fun r ty hr => ?_
    refine (lowerList_agrees h es).bind fun vars types hv => ?_
    subst hr hv
    exact .ok rfl

end

/-! ### Parts of statements -/

theorem lowerVar_agrees (h : Represents (l :: stack) s Γ) (e : Expr) :
    Agree (fun var ty => var.ty = ty) (e.lowerVar s.ir l.scope) (Γ.typeOf e) := by
  unfold Expr.lowerVar
  exact (lower_agrees h e).bind_pure fun _ _ h => h

theorem lowerCond_agrees (h : Represents (l :: stack) s Γ) (e : Expr) :
    Agree (fun _ _ => True) (e.lowerCond s.ir l.scope) (Γ.checkCond e) := by
  unfold Expr.lowerCond Env.checkCond
  refine (lower_agrees h e).bind fun r ty hr => ?_
  subst hr
  exact .ite_eq (fun _ => .ok trivial) fun _ => .error _

/-- A call as a statement is lowered just if the environment admits it. -/
theorem lowerCall_agrees (h : Represents (l :: stack) s Γ) (callee : Ident) (args : List Expr) (span : Span) :
    Agree (fun _ _ => True) (lowerCall s.ir l.scope callee args span) (Γ.checkCall callee args span) := by
  unfold lowerCall Env.checkCall
  refine checkCallee_agrees h callee ((lowerList_agrees h args).bind fun vars types hv => ?_)
  subst hv
  exact (apply_agrees h callee.name vars span).bind fun _ _ _ => .ok trivial

/-- What is printed is lowered just if the environment admits it. -/
theorem lowerPrintArgs_agrees (h : Represents (l :: stack) s Γ) (args : List Expr) :
    Agree (fun _ _ => True) (lowerPrintArgs s.ir l.scope args) (Γ.checkPrint args) := by
  induction args with
  | nil => exact .ok trivial
  | cons e es ih =>
    unfold lowerPrintArgs Env.checkPrint
    refine (lowerVar_agrees h e).bind fun var ty hv => ?_
    subst hv
    by_cases hvoid : var.ty = .void
    · simp only [hvoid]
      exact .error _
    · simp only [hvoid]
      exact ih.bind_pure fun _ _ _ => trivial

/-- An assignment is lowered just if the environment admits it. -/
theorem lowerAssign_agrees (h : Represents (l :: stack) s Γ) (target : Ident) (value : Expr) (span : Span) :
    Agree (fun _ _ => True) (Checker.lowerAssign s.ir l.scope target value span)
      (Γ.checkAssign target value span) := by
  have hf := h.find? target.name
  unfold Checker.lowerAssign Env.checkAssign
  rw [hf]
  cases s.ir.lookup target.name l.scope with
  | none => exact .error _
  | some b =>
    obtain ⟨id, var⟩ := b
    simp only [Option.map_some, Local.ofVar]
    cases var.mutable with
    | false => exact .error _
    | true =>
      refine (lowerVar_agrees h value).bind fun new ty hn => ?_
      subst hn
      exact .ite_eq (fun _ => .ok trivial) fun _ => .error _

private theorem enclosing_eq {fn : Function} (h : Represents (l :: stack) s Γ) (hl : l.function = some fn) :
    Checker.enclosing s.ir l.scope = (fn.name, fn.signature.result) := by
  have hfunc : (s.ir.scope l.scope).func = some fn.name := by
    rw [h.layers.func, hl]
    rfl
  have ha := h.alternatives fn.name
  rw [h.known l List.mem_cons_self fn hl] at ha
  unfold Checker.enclosing
  rw [hfunc]
  cases hg : s.ir.ops.get? fn.name with
  | none => simp [hg] at ha
  | some op =>
    rw [hg] at ha
    have hop : op.alternatives = [fn.signature] := ha
    simp [hg, hop]

/-- In the body of a known function the rule for `return` is that function's. -/
theorem lowerReturn_agrees {fn : Function} (h : Represents (l :: stack) s Γ) (hl : l.function = some fn)
    (value : Option Expr) (span : Span) :
    Agree (fun _ _ => True) (Checker.lowerReturn s.ir l.scope value span) (Γ.checkReturn fn value span) := by
  have henclosing : Checker.enclosing s.ir l.scope = (fn.name, fn.signature.result) := enclosing_eq h hl
  unfold Checker.lowerReturn Env.checkReturn
  rw [henclosing]
  cases value with
  | none =>
    exact .ite_eq (fun _ => .ok trivial) fun _ => .error _
  | some e =>
    refine (lowerVar_agrees h e).bind fun var ty hv => ?_
    subst hv
    exact .ite_eq (fun _ => .ok trivial) fun _ => .error _

/-- The elements of what a loop runs over have the type that the environment gives them. -/
theorem iterable_agrees (h : Represents (l :: stack) s Γ) (iterable : Iterable) :
    Agree (fun r ty => r.2 = ty) (iterable.lower s.ir l.scope) (Γ.elementOf iterable) := by
  cases iterable with
  | range first last step span =>
    unfold Iterable.lower Env.elementOf
    by_cases hz : step = 0
    · simp only [hz]
      exact .error _
    · simp only [hz]
      exact .ok rfl
  | expr e =>
    unfold Iterable.lower Env.elementOf
    refine (lowerVar_agrees h e).bind fun var ty hv => ?_
    subst hv
    exact .ite_eq (fun _ => .ok rfl) fun _ => .error _

private theorem const_agrees {γ δ : Type} {R : γ → δ → Prop} (subject : Ty) (c : Const) {f : Var → Checked γ}
    {g : Checked δ} (h : ∀ var, Agree R (f var) g) : Agree R (c.lower subject >>= f)
      (if c.literal.ty ≠ subject then throw ⟨c.span, .caseMismatch subject c.literal.ty⟩ >>= fun _ : PUnit => g
        else g) := by
  unfold Const.lower
  by_cases hc : c.literal.ty = subject
  · rw [if_pos hc, if_neg (not_not_intro hc)]
    exact h _
  · rw [if_neg hc, if_pos hc]
    exact .error _

private theorem consts_agree (subject : Ty) (cs : List Const) :
    Agree (fun _ _ => True) (cs.mapM (·.lower subject)) (Env.checkConsts subject cs) := by
  induction cs with
  | nil => exact .ok trivial
  | cons c cs ih =>
    rw [List.mapM_cons]
    unfold Env.checkConsts
    exact const_agrees subject c fun var => ih.bind_pure fun _ _ _ => trivial

private theorem comparator_agrees (subject : Var) (c : Comparator) (span : Span) (isLast : Bool) :
    Agree (fun _ _ => True) (c.lower subject) (Env.checkComparator subject.ty (some c) span isLast) := by
  cases c with
  | const c =>
    unfold Comparator.lower Env.checkComparator Env.checkConsts
    exact const_agrees subject.ty c fun _ => .ok trivial
  | oneOf cs =>
    unfold Comparator.lower Env.checkComparator
    exact (consts_agree subject.ty cs).bind_pure fun _ _ _ => trivial
  | range lo hi range =>
    unfold Comparator.lower Env.checkComparator
    exact .ite_eq (fun _ => .ok trivial) fun _ => .error _

/-- A case is lowered just if its comparator suits the type of the subject. -/
theorem lowerCase_agrees (subject : Var) (comparator : Option Comparator) (span : Span) (isLast : Bool) :
    Agree (fun _ _ => True) (Checker.lowerCase subject comparator span isLast)
      (Env.checkComparator subject.ty comparator span isLast) := by
  cases comparator with
  | some c => exact (comparator_agrees subject c span isLast).map fun _ _ _ => trivial
  | none =>
    cases isLast with
    | true => exact .ok trivial
    | false => exact .error _

end Scriptlet
