import Scriptlet.Proofs.Typing.Rules
import Scriptlet.Proofs.Typing.Run

/-!
# Lowering obeys the rules

What is found for an expression in a scope is a value that has its type there (`lower_typed`).  From this the parts of
statements follow: the guards that are found for loops and cases are guards by `Guard`, and the arguments found for an
assignment, a `print`, a `return` or a call make an action by `Ir.Action`.
-/

namespace Scriptlet

open Checker

variable {ir : Ir} {scope : Nat}

/-- An operator that applies is in the table, and has an alternative for the types of the arguments. -/
private theorem apply_eq_ok {t : OperatorTable} {op : String} {args : List Var} {span : Span} {ty : Ty}
    (h : t.apply op args span = .ok ty) : ∃ o, t.get? op = some o ∧ o.Yields (args.map Var.ty) ty := by
  unfold OperatorTable.apply at h
  cases ho : t.get? op with
  | none => simp [ho] at h
  | some o =>
    cases hr : o.resolve (args.map Var.ty) with
    | none => simp [ho, hr] at h
    | some r =>
      simp only [ho, Option.bind_some, hr, Except.ok.injEq] at h
      exact ⟨o, rfl, Operator.resolve_eq_some.1 (h ▸ hr)⟩

/-- A check that must hold before the rest, and does. -/
theorem unless_eq_ok {α : Type} {c : Prop} [Decidable c] {e : Located TypeError} {f : Checked α} {a : α}
    (h : (if c then f else throw e >>= fun _ : PUnit => f) = .ok a) : c ∧ f = .ok a := by
  by_cases hc : c
  · rw [if_pos hc] at h
    exact ⟨hc, h⟩
  · rw [if_neg hc] at h
    cases h

/-- A check that must fail before the rest, and does. -/
theorem when_eq_ok {α : Type} {c : Prop} [Decidable c] {e : Located TypeError} {f : Checked α} {a : α}
    (h : (if c then throw e >>= fun _ : PUnit => f else f) = .ok a) : ¬ c ∧ f = .ok a := by
  by_cases hc : c
  · rw [if_pos hc] at h
    cases h
  · rw [if_neg hc] at h
    exact ⟨hc, h⟩

/-- A check that must hold for the result, and does. -/
theorem guarded_eq_ok {α : Type} {c : Prop} [Decidable c] {e : Located TypeError} {f : Checked α} {a : α}
    (h : (if c then f else throw e) = .ok a) : c ∧ f = .ok a := by
  by_cases hc : c
  · rw [if_pos hc] at h
    exact ⟨hc, h⟩
  · rw [if_neg hc] at h
    cases h

/-! ### Expressions -/

private theorem applied_typed {op : String} {args : List Var} {span : Span} {v : Value} {ty : Ty}
    (hargs : ∀ a ∈ args, ir.HasTypeAt scope a.value a.ty)
    (h : (do return (Value.apply op args, ← ir.ops.apply op args span)) = (.ok (v, ty) : Checked (Value × Ty))) :
    ir.HasTypeAt scope v ty := by
  obtain ⟨r, hr, he⟩ := bind_eq_ok.1 h
  cases he
  obtain ⟨o, hop, hty⟩ := apply_eq_ok hr
  exact .apply hop hargs hty

mutual

/-- The value that is found for an expression has the type that is found with it. -/
theorem lower_typed : (e : Expr) → ∀ ⦃v : Value⦄ ⦃ty : Ty⦄, e.lower ir scope = .ok (v, ty) → ir.HasTypeAt scope v ty
  | .literal l _ => by
    intro v ty h
    unfold Expr.lower at h
    cases h
    exact .atom _ _
  | .name n _ => by
    intro v ty h
    unfold Expr.lower at h
    cases hl : ir.lookup n scope with
    | none =>
      rw [hl] at h
      cases h
    | some b =>
      rw [hl] at h
      cases h
      exact .ref ⟨_, hl, rfl⟩
  | .call callee args _ => by
    intro v ty h
    unfold Expr.lower at h
    obtain ⟨-, h⟩ := unless_eq_ok h
    obtain ⟨vars, hvars, h⟩ := bind_eq_ok.1 h
    exact applied_typed (lowerList_typed args hvars) h
  | .unary op operand _ => by
    intro v ty h
    unfold Expr.lower at h
    obtain ⟨⟨value, t⟩, hv, h⟩ := bind_eq_ok.1 h
    refine applied_typed (fun a ha => ?_) h
    rw [List.mem_singleton.1 ha]
    exact lower_typed operand hv
  | .binary op lhs rhs _ => by
    intro v ty h
    unfold Expr.lower at h
    obtain ⟨⟨left, leftTy⟩, hl, h⟩ := bind_eq_ok.1 h
    obtain ⟨⟨right, rightTy⟩, hr, h⟩ := bind_eq_ok.1 h
    refine applied_typed (fun a ha => ?_) h
    simp only [List.mem_cons, List.not_mem_nil, or_false] at ha
    rcases ha with rfl | rfl
    · exact lower_typed lhs hl
    · exact lower_typed rhs hr

private theorem lowerList_typed : (es : List Expr) → ∀ ⦃vars : List Var⦄, Expr.lowerList ir scope es = .ok vars →
    ∀ a ∈ vars, ir.HasTypeAt scope a.value a.ty
  | [] => by
    intro vars h a ha
    unfold Expr.lowerList at h
    cases h
    cases ha
  | e :: es => by
    intro vars h a ha
    unfold Expr.lowerList at h
    obtain ⟨⟨value, ty⟩, hv, h⟩ := bind_eq_ok.1 h
    obtain ⟨rest, hrest, h⟩ := bind_eq_ok.1 h
    cases h
    rcases List.mem_cons.1 ha with rfl | ha
    · exact lower_typed e hv
    · exact lowerList_typed es hrest a ha

end

/-- A variable that is made of an expression has its type. -/
theorem lowerVar_typed {e : Expr} {var : Var} (h : e.lowerVar ir scope = .ok var) :
    ir.HasTypeAt scope var.value var.ty := by
  obtain ⟨⟨value, ty⟩, hv, h⟩ := bind_eq_ok.1 h
  cases h
  exact lower_typed e hv

/-- A condition is of type `Bool`. -/
theorem lowerCond_typed {e : Expr} {v : Value} (h : e.lowerCond ir scope = .ok v) : ir.HasTypeAt scope v .bool := by
  obtain ⟨⟨value, ty⟩, hv, h⟩ := bind_eq_ok.1 h
  obtain ⟨hty, h⟩ := unless_eq_ok h
  cases h
  exact hty ▸ lower_typed e hv

/-! ### Guards -/

private theorem constant_ofLiteral (l : Literal) (span : Span) : (Var.ofLiteral l span).Constant l.ty :=
  ⟨rfl, l.atomText, rfl⟩

/-- What a loop runs over makes a guard, together with the variable of the loop. -/
theorem iterable_guard {iterable : Iterable} {guard : Value} {ty : Ty} (name : Ident)
    (h : iterable.lower ir scope = .ok (guard, ty)) :
    Guard (ir.HasTypeAt scope) .loop [(name.name, .mk .arg ty name.span false)] (some guard) := by
  cases iterable with
  | range first last step span =>
    obtain ⟨-, h⟩ := when_eq_ok h
    cases h
    exact .range (constant_ofLiteral (.int first) span) (constant_ofLiteral (.int last) span)
      (constant_ofLiteral (.int step) span)
  | expr e =>
    obtain ⟨var, hv, h⟩ := bind_eq_ok.1 h
    obtain ⟨hty, h⟩ := unless_eq_ok h
    cases h
    exact .string (hty ▸ lowerVar_typed hv) hty

private theorem const_constant {subject : Ty} {c : Const} {var : Var} (h : c.lower subject = .ok var) :
    var.Constant subject := by
  obtain ⟨hc, h⟩ := guarded_eq_ok h
  cases h
  exact hc ▸ constant_ofLiteral c.literal c.span

private theorem consts_constant {subject : Ty} {cs : List Const} {vars : List Var}
    (h : cs.mapM (·.lower subject) = .ok vars) : ∀ var ∈ vars, var.Constant subject := by
  induction cs generalizing vars with
  | nil =>
    cases h
    simp
  | cons c cs ih =>
    rw [List.mapM_cons] at h
    obtain ⟨var, hv, h⟩ := bind_eq_ok.1 h
    obtain ⟨rest, hrest, h⟩ := bind_eq_ok.1 h
    cases h
    intro a ha
    rcases List.mem_cons.1 ha with rfl | ha
    · exact const_constant hv
    · exact ih hrest a ha

/-- A case makes a guard that compares the subject with constants of its type, or none for a `default`. -/
theorem case_guard {subject : Var} {comparator : Option Comparator} {span : Span} {isLast : Bool}
    {guard : Option Value} (hs : ir.HasTypeAt scope subject.value subject.ty)
    (h : lowerCase subject comparator span isLast = .ok guard) : Guard (ir.HasTypeAt scope) .caseBranch [] guard := by
  cases comparator with
  | none =>
    unfold lowerCase at h
    cases isLast with
    | false => cases h
    | true =>
      cases h
      exact .default
  | some c =>
    obtain ⟨v, hv, h⟩ := bind_eq_ok.1 (show (c.lower subject >>= fun v => pure (some v)) = .ok guard from h)
    cases h
    cases c with
    | const c =>
      obtain ⟨var, hvar, h⟩ := bind_eq_ok.1 hv
      cases h
      exact .caseIs hs (const_constant hvar)
    | oneOf cs =>
      obtain ⟨vars, hvars, h⟩ := bind_eq_ok.1 hv
      cases h
      exact .caseOf hs (consts_constant hvars)
    | range lo hi span =>
      obtain ⟨hty, h⟩ := unless_eq_ok hv
      cases h
      exact .caseIn (hty ▸ hs) hty (constant_ofLiteral (.int lo) span) (constant_ofLiteral (.int hi) span)

/-! ### Actions -/

/-- An assignment that is accepted is one to a mutable binding of the type of the value. -/
theorem assign_action (hw : ir.WellFormed) {target : Ident} {value : Expr} {span : Span} {args : List Var}
    (h : lowerAssign ir scope target value span = .ok args) :
    ir.Action (ir.HasTypeAt scope) scope OpName.assign args := by
  unfold lowerAssign at h
  cases hl : ir.lookup target.name scope with
  | none =>
    rw [hl] at h
    cases h
  | some r =>
    obtain ⟨b, var⟩ := r
    have hb := hw.binding?_of_lookup hl
    rw [hl] at h
    by_cases hm : var.mutable = true
    · simp only [hm, Bool.not_true, Bool.false_eq_true, if_false] at h
      obtain ⟨new, hnew, h⟩ := bind_eq_ok.1 h
      obtain ⟨hty, h⟩ := guarded_eq_ok h
      cases h
      exact .assign hb hm (.ref ⟨var, hl, rfl⟩) (lowerVar_typed hnew) hty
    · simp only [Bool.not_eq_true] at hm
      simp only [hm, Bool.not_false, if_true] at h
      cases h

/-- What is printed has a value. -/
theorem print_action {es : List Expr} {args : List Var} (h : lowerPrintArgs ir scope es = .ok args) :
    ir.Action (ir.HasTypeAt scope) scope OpName.print args := by
  refine .print ?_
  induction es generalizing args with
  | nil =>
    cases h
    simp
  | cons e es ih =>
    unfold lowerPrintArgs at h
    obtain ⟨var, hv, h⟩ := bind_eq_ok.1 h
    obtain ⟨hvoid, h⟩ := when_eq_ok h
    obtain ⟨rest, hrest, h⟩ := bind_eq_ok.1 h
    cases h
    intro a ha
    rcases List.mem_cons.1 ha with rfl | ha
    · exact ⟨lowerVar_typed hv, hvoid⟩
    · exact ih hrest a ha

private theorem enclosing_of_signed {signature : Signature} (h : ir.Signed scope signature) :
    ∃ f, enclosing ir scope = (f, signature.result) := by
  obtain ⟨f, hf, hop⟩ := h
  exact ⟨f, by simp [enclosing, hf, hop]⟩

/-- A `return` that is accepted suits the signature of its function. -/
theorem return_action {signature : Signature} (hs : ir.Signed scope signature) {value : Option Expr} {span : Span}
    {args : List Var} (h : lowerReturn ir scope value span = .ok args) :
    ir.Action (ir.HasTypeAt scope) scope OpName.ret args := by
  obtain ⟨f, hf⟩ := enclosing_of_signed hs
  unfold lowerReturn at h
  rw [hf] at h
  cases value with
  | none =>
    obtain ⟨hvoid, h⟩ := guarded_eq_ok h
    cases h
    exact .retVoid hs hvoid.symm
  | some e =>
    obtain ⟨var, hv, h⟩ := bind_eq_ok.1 h
    obtain ⟨hty, h⟩ := guarded_eq_ok h
    cases h
    exact .retValue hs (lowerVar_typed hv) hty

/-- A call that is accepted suits an alternative of what is called. -/
theorem call_action {callee : Ident} {es : List Expr} {span : Span} {args : List Var}
    (h : lowerCall ir scope callee es span = .ok args) : ir.Action (ir.HasTypeAt scope) scope callee.name args := by
  obtain ⟨-, h⟩ := unless_eq_ok h
  obtain ⟨vars, hvars, h⟩ := bind_eq_ok.1 h
  obtain ⟨ty, hty, h⟩ := bind_eq_ok.1 h
  cases h
  obtain ⟨o, hop, hr⟩ := apply_eq_ok hty
  exact .call hop (lowerList_typed es hvars) hr

end Scriptlet
