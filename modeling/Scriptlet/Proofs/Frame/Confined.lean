import Scriptlet.Proofs.Frame.Steps
import Scriptlet.Proofs.Typing.Lowering
import Scriptlet.Proofs.Typing.Statements

/-!
# Checks that write to one scope

`Confined A x` says that the steps of the check `x`, whether it succeeds or fails, add only to scopes in `A` and to
scopes that did not exist when it began.  There is one rule for each way to put checks together; the one for opening a
scope lets the rest of the check add to it as well.  The check of a part in a scope is confined to that scope
(`checkStmt_confined` and its companions): the blocks in it write to scopes of their own.
-/

namespace Scriptlet

open Typing Checker
open Ir (Step)

variable {α β : Type} {A B : Nat → Prop} {x : Checker α} {f : α → Checker β} {s : Typing.State} {scope : Nat}

namespace Checker

/-! ### Where a check ends -/

/-- The state in which a check ends, also if it fails. -/
def endOf (x : Checker α) (s : Typing.State) : Typing.State :=
  match x s with
  | .ok _ t | .error _ t => t

/-- A check that succeeds ends in the state that it gives. -/
theorem endOf_of_ok {r : α × Typing.State} (h : after x s = .ok r) : endOf x s = r.2 := by
  unfold after at h
  unfold endOf
  cases hx : x s with
  | ok a t =>
    rw [hx] at h
    cases h
    rfl
  | error e t =>
    rw [hx] at h
    cases h

private theorem endOf_bind (x : Checker α) (f : α → Checker β) (s : Typing.State) :
    endOf (x >>= f) s = match after x s with
      | .ok r => endOf (f r.1) r.2
      | .error _ => endOf x s := by
  unfold after endOf
  rw [show (x >>= f) s = _ from EStateM.run_bind x f]
  simp only [EStateM.run]
  cases x s <;> rfl

/-- A sequence whose first part succeeds ends where the rest ends. -/
theorem endOf_bind_of_ok {r : α × Typing.State} (h : after x s = .ok r) (f : α → Checker β) :
    endOf (x >>= f) s = endOf (f r.1) r.2 := by
  rw [endOf_bind, h]

/-- A sequence whose first part fails ends where that part failed. -/
theorem endOf_bind_of_error {e : Located TypeError} (h : after x s = .error e) (f : α → Checker β) :
    endOf (x >>= f) s = endOf x s := by
  rw [endOf_bind, h]

end Checker

/-- The steps of the check add to scopes in `A` and to new ones only. -/
def Confined (A : Nat → Prop) (x : Checker α) : Prop :=
  ∀ s : Typing.State, s.Leads (Step.AddsTo fun id => A id ∨ s.ir.scopes.size ≤ id) (endOf x s)

namespace Confined

private theorem of_endOf_eq (h : ∀ s, endOf x s = s) : Confined A x := by
  intro s
  rw [h s]
  exact .refl _ s

private theorem pure (a : α) : Confined A (Pure.pure a : Checker α) := .of_endOf_eq fun _ => rfl

private theorem throw (e : Located TypeError) : Confined A (throw e : Checker α) := .of_endOf_eq fun _ => rfl

private theorem get : Confined A (get : Checker Typing.State) := .of_endOf_eq fun _ => rfl

private theorem getIr : Confined A getIr := .of_endOf_eq fun _ => rfl

private theorem lift (c : Checked α) : Confined A (lift c) := by
  cases c with
  | ok a => exact .pure a
  | error e => exact .throw e

private theorem mono (h : Confined A x) (hAB : ∀ id, A id → B id) : Confined B x := by
  intro s
  exact (h s).mono fun step hs => hs.mono fun id hid => hid.imp_left (hAB id)

private theorem perform {step : Step} (h : step.AddsTo A) : Confined A (perform step) := by
  intro s
  exact .single (h.mono fun _ hid => Or.inl hid) s

/-- The second check may add to scopes that are new since the first began. -/
private theorem leads_of_ok {r : α × Typing.State} (h : after x s = .ok r) (hx : Confined A x)
    (hf : Confined A (f r.1)) : s.Leads (Step.AddsTo fun id => A id ∨ s.ir.scopes.size ≤ id) (endOf (f r.1) r.2) := by
  have hfirst := hx s
  rw [endOf_of_ok h] at hfirst
  have hsize : s.ir.scopes.size ≤ r.2.ir.scopes.size := hfirst.grows.size
  refine hfirst.trans ((hf r.2).mono fun step hs => hs.mono fun id hid => ?_)
  exact hid.imp_right (Nat.le_trans hsize)

private theorem bind_of (hx : Confined A x) (hf : ∀ s r, after x s = .ok r → Confined A (f r.1)) :
    Confined A (x >>= f) := by
  intro s
  cases h : after x s with
  | ok r =>
    rw [endOf_bind_of_ok h]
    exact leads_of_ok h hx (hf s r h)
  | error e =>
    rw [endOf_bind_of_error h]
    exact hx s

private theorem bind (hx : Confined A x) (hf : ∀ a, Confined A (f a)) : Confined A (x >>= f) :=
  hx.bind_of fun _ r _ => hf r.1

/-- What follows a value that has been found may rely on it. -/
private theorem lift_bind {c : Checked α} (hf : ∀ a, c = .ok a → Confined A (f a)) :
    Confined A (Checker.lift c >>= f) := by
  refine (Confined.lift c).bind_of fun s r h => ?_
  rw [after_lift] at h
  cases c with
  | ok a =>
    cases h
    exact hf a rfl
  | error e => cases h

private theorem getIr_bind {f : Ir → Checker β} (hf : ∀ ir, Confined A (f ir)) : Confined A (Checker.getIr >>= f) :=
  Confined.getIr.bind hf

private theorem ite {c : Prop} [Decidable c] {x y : Checker α} (hx : Confined A x) (hy : ¬ c → Confined A y) :
    Confined A (if c then x else y) := by
  by_cases hc : c
  · rw [if_pos hc]
    exact hx
  · rw [if_neg hc]
    exact hy hc

/-- What follows the opening of a scope may add to it. -/
private theorem openScope {kind : ScopeKind} {parent : ScopeId} {func : Option String} {born : List (String × Var)}
    {f : ScopeId → Checker β} (hf : ∀ inner : Nat, Confined (fun id => id = inner ∨ A id) (f inner)) :
    Confined A (Checker.openScope kind parent func born >>= f) := by
  intro s
  rw [endOf_bind_of_ok (after_openScope kind parent func born s)]
  have hopen : Step.AddsTo (fun id => A id ∨ s.ir.scopes.size ≤ id)
      (.openScope s.ir.scopes.size kind parent func born) := Step.addsTo_of_none rfl trivial
  have hsize : (s.perform (.openScope s.ir.scopes.size kind parent func born)).ir.scopes.size =
      s.ir.scopes.size + 1 := Ir.size_openScope _ _ _ _
  refine (State.Leads.single hopen s).trans ((hf _ _).mono fun step hs => hs.mono fun id hid => ?_)
  -- the scope just opened is a new one
  rw [hsize] at hid
  rcases hid with (hid | hid) | hid
  · exact Or.inr (Nat.le_of_eq hid.symm)
  · exact Or.inl hid
  · exact Or.inr (Nat.le_of_succ_le hid)

end Confined

/-! ### Simple statements -/

private theorem checkDecl_confined (scope : Nat) (d : Decl) (span : Span) (mutable : Bool) :
    Confined (· = scope) (checkDecl scope d span mutable) := by
  unfold checkDecl
  refine .getIr_bind fun ir => .lift_bind fun r hv => ?_
  obtain ⟨value, ty⟩ := r
  refine .ite (.throw _) fun _ => (Confined.lift _).bind fun _ => .perform (Step.addsTo_of_some rfl ?_)
  exact (lower_typed d.value hv).isArg

private theorem act_confined (scope : Nat) (op : String) (c : Ir → Checked (List Var)) :
    Confined (· = scope) (do
      let args ← lift (c (← getIr))
      Checker.perform (.act scope op args)) :=
  .getIr_bind fun _ => (Confined.lift _).bind fun _ => .perform (Step.addsTo_of_some rfl trivial)

/-- The entry of a scope that is closed is added to its parent. -/
theorem closeScope_confined (inner : Nat) (kind : ScopeKind) (scope : Nat) (born : List String)
    (guard : Option Value) : Confined (· = scope) (Checker.perform (.closeScope inner kind scope born guard)) :=
  .perform (Step.addsTo_of_some rfl trivial)

/-! ### Functions and blocks -/

private theorem register_confined (name : Ident) (signature : Signature) : Confined A (register name signature) := by
  unfold register
  have hregister : Step.AddsTo A (.register name.name signature) := Step.addsTo_of_none rfl trivial
  refine Confined.get.bind fun s => (Confined.perform hregister).bind fun _ => .ite (.throw _) fun _ => ?_
  -- where the function was declared is no part of the representation
  intro t
  exact ⟨[], by simp, rfl, rfl⟩

/-- What follows the opening of a function's scope may add to it. -/
private theorem openFunc_confined {scope : Nat} {name : Ident} {params : List Param} {f : ScopeId → Checker β}
    (hf : ∀ inner : Nat, Confined (fun id => id = inner ∨ A id) (f inner)) :
    Confined A (openFunc scope name params >>= f) := by
  rw [openFunc_bind]
  refine .openScope fun inner => ?_
  cases (splitParams [] params).2 with
  | none => exact hf inner
  | some p => exact .throw _

private theorem inner_confined {scope : Nat} {kind : ScopeKind} {born : List (String × Var)} {guard : Option Value}
    {body : Block} (hbody : ∀ inner : Nat, Confined (· = inner) (checkBlock inner body)) :
    Confined (· = scope) (checkInner scope kind born guard body) := by
  unfold checkInner
  refine .openScope fun inner => ((hbody inner).mono fun _ => Or.inl).bind fun _ => ?_
  exact (closeScope_confined inner kind scope (born.map Prod.fst) guard).mono fun _ => Or.inr

mutual

theorem checkItem_confined : (i : Item) → (scope : Nat) → Confined (· = scope) (checkItem scope i)
  | .letDecl d span, scope => checkDecl_confined scope d span false
  | .func name params result body span, scope => by
    unfold checkItem
    refine (register_confined _ _).bind fun _ => openFunc_confined fun inner => ?_
    refine ((checkBlock_confined body inner).mono fun _ => Or.inl).bind fun _ => ?_
    exact (closeScope_confined inner .func scope _ none).mono fun _ => Or.inr

/-- The check of a statement adds entries to its own scope and to new ones, and to no other. -/
theorem checkStmt_confined : (stmt : Stmt) → (scope : Nat) → Confined (· = scope) (checkStmt scope stmt)
  | .item i, scope => checkItem_confined i scope
  | .varDecl d span, scope => checkDecl_confined scope d span true
  | .assign target value span, scope =>
    act_confined scope OpName.assign fun ir => lowerAssign ir scope target value span
  | .print args span, scope => act_confined scope OpName.print fun ir => lowerPrintArgs ir scope args
  | .ret value span, scope => act_confined scope OpName.ret fun ir => lowerReturn ir scope value span
  | .call callee args span, scope => act_confined scope callee.name fun ir => lowerCall ir scope callee args span
  | .forLoop var iterable body span, scope => by
    rw [checkStmt_forLoop]
    exact .getIr_bind fun ir => (Confined.lift _).bind fun _ => inner_confined (checkBlock_confined body)
  | .whileLoop cond body span, scope => by
    rw [checkStmt_whileLoop]
    exact .getIr_bind fun ir => (Confined.lift _).bind fun _ => inner_confined (checkBlock_confined body)
  | .ifThen cond body span, scope => by
    rw [checkStmt_ifThen]
    exact .getIr_bind fun ir => (Confined.lift _).bind fun _ => inner_confined (checkBlock_confined body)
  | .ifElse cond thenBlock elseBlock span, scope => by
    rw [checkStmt_ifElse]
    refine .getIr_bind fun ir => (Confined.lift _).bind fun _ => ?_
    exact (inner_confined (checkBlock_confined thenBlock)).bind fun _ => inner_confined (checkBlock_confined elseBlock)
  | .switch subject cases span, scope => by
    rw [checkStmt_switch]
    exact .getIr_bind fun ir => (Confined.lift _).bind fun var => checkCases_confined cases var scope

private theorem checkBlock_confined : (block : Block) → (scope : Nat) → Confined (· = scope) (checkBlock scope block)
  | .mk stmts _, scope => checkStmts_confined stmts scope

theorem checkStmts_confined : (stmts : List Stmt) → (scope : Nat) → Confined (· = scope) (checkStmts scope stmts)
  | [], _ => .pure ()
  | stmt :: stmts, scope => (checkStmt_confined stmt scope).bind fun _ => checkStmts_confined stmts scope

theorem checkCases_confined : (cases : List Case) → (subject : Var) → (scope : Nat) →
    Confined (· = scope) (checkCases scope subject cases)
  | [], _, _ => .pure ()
  | .mk comparator body span :: cases, subject, scope => by
    rw [checkCases_cons]
    refine (Confined.lift _).bind fun _ => ?_
    exact (inner_confined (checkBlock_confined body)).bind fun _ => checkCases_confined cases subject scope

end

theorem checkInner_confined (scope : Nat) (kind : ScopeKind) (born : List (String × Var)) (guard : Option Value)
    (body : Block) : Confined (· = scope) (checkInner scope kind born guard body) :=
  inner_confined (checkBlock_confined body)

/-- The check of items adds entries to their own scope and to new ones, and to no other. -/
theorem checkItems_confined (items : List Item) (scope : Nat) : Confined (· = scope) (checkItems scope items) := by
  induction items with
  | nil => exact .pure ()
  | cons i items ih => exact (checkItem_confined i scope).bind fun _ => ih

end Scriptlet
