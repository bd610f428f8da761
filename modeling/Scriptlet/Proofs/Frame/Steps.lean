import Scriptlet.Proofs.Ir.Growth
import Scriptlet.Typing.Check

/-!
# Steps that touch one scope

A step adds to one scope, its target, or to none.  The other scopes that were there stay as they are
(`scope_apply_of_ne`), and the target only grows, provided that what is declared has a value (`grows_apply`).  Steps
that spare some scopes therefore leave them the same from the first moment to the last (`untouched_of_spares`).

`Leads A s t` says of two states of a check that the second comes after the first, by steps that have the property `A`.
-/

namespace Scriptlet

namespace Ir

variable {ir ir' ir'' : Ir} {step : Step} {steps : List Step} {id : Nat}

/-- The scope that a step adds to. -/
def Step.target? : Step → Option Nat
  | .register _ _ | .openScope .. => none
  | .declare scope _ _ | .act scope _ _ | .closeScope _ _ scope _ _ => some scope

/-- What the step declares has a value: it is no parameter and no loop variable. -/
def Step.Valued : Step → Prop
  | .declare _ _ var => var.value.isArg = false
  | .register _ _ | .openScope .. | .act .. | .closeScope .. => True

/-- A step that may be taken where the scopes in `A` are written to. -/
structure Step.AddsTo (A : Nat → Prop) (step : Step) : Prop where
  target : ∀ id, step.target? = some id → A id
  valued : step.Valued

theorem Step.AddsTo.mono {A B : Nat → Prop} (h : step.AddsTo A) (hAB : ∀ id, A id → B id) : step.AddsTo B where
  target id ht := hAB id (h.target id ht)
  valued := h.valued

/-- A step adds an entry to the scope that it is for. -/
theorem Step.addsTo_of_some {scope : Nat} (ht : step.target? = some scope) (hv : step.Valued) :
    step.AddsTo (· = scope) where
  target _ hid := Option.some.inj (hid.symm.trans ht)
  valued := hv

/-- A step that is for no scope adds no entry. -/
theorem Step.addsTo_of_none {A : Nat → Prop} (ht : step.target? = none) (hv : step.Valued) : step.AddsTo A where
  target _ hid := by
    rw [ht] at hid
    cases hid
  valued := hv

/-- A later representation; of the scopes that were there, `scope` alone may differ, by what has been added to it. -/
structure ExtendsAt (scope : Nat) (ir ir' : Ir) : Prop where
  lt : scope < ir.scopes.size
  grows : ir.Grows ir'
  others : ∀ id : Nat, id < ir.scopes.size → id ≠ scope → ir'.scope id = ir.scope id

/-! ### One step -/

/-- A step leaves every scope as it is but the one that it is for. -/
theorem scope_apply_of_ne (ht : step.target? ≠ some id) (hlt : id < ir.scopes.size) :
    (ir.apply step).scope id = ir.scope id := by
  cases step with
  | register _ _ => rfl
  | openScope _ _ parent func born => exact scope_openScope_of_ne (Nat.ne_of_lt hlt) parent func born
  | declare target _ _ | act target _ _ | closeScope _ _ target _ _ =>
    have hne : id ≠ target := fun h => ht (congrArg some h.symm)
    exact scope_modifyScope_of_ne hne _

/-- Every step with values only adds to the representation. -/
theorem grows_apply (ir : Ir) (h : step.Valued) : ir.Grows (ir.apply step) := by
  cases step with
  | register name signature =>
    by_cases hc : ir.ops.contains name = true
    · -- a name that is taken keeps its meaning
      have hops : ir.ops.define? name signature = none := if_pos hc
      have hsame : ir.apply (.register name signature) = ir := by simp only [apply, hops, Option.getD_none]
      rw [hsame]
      exact .refl ir
    · exact grows_register (Bool.eq_false_iff.2 hc) signature
  | openScope _ _ parent func born => exact grows_openScope ir parent func born
  | declare _ name var =>
    obtain ⟨value, ty, span, mutable⟩ := var
    exact grows_modifyScope ir _ fun s => (s.adds_declare name h ty span mutable).extends
  | act _ _ _ => exact grows_modifyScope ir _ fun s => (s.adds_push rfl).extends
  | closeScope _ _ _ _ _ => exact grows_modifyScope ir _ fun s => (s.adds_push rfl).extends

/-! ### Several steps -/

/-- The representation after some steps. -/
def applyAll (ir : Ir) (steps : List Step) : Ir := steps.foldl apply ir

/-- Steps with values only add to the representation. -/
theorem grows_applyAll (ir : Ir) (h : ∀ step ∈ steps, step.Valued) : ir.Grows (ir.applyAll steps) := by
  induction steps generalizing ir with
  | nil => exact .refl ir
  | cons step steps ih =>
    have hstep := grows_apply ir (h step List.mem_cons_self)
    exact hstep.trans (ih (ir.apply step) fun step hs => h step (List.mem_cons_of_mem _ hs))

private theorem scope_applyAll_of_ne (hv : ∀ step ∈ steps, step.Valued) (ht : ∀ step ∈ steps, step.target? ≠ some id)
    (hlt : id < ir.scopes.size) : (ir.applyAll steps).scope id = ir.scope id := by
  induction steps generalizing ir with
  | nil => rfl
  | cons step steps ih =>
    have hlt' : id < (ir.apply step).scopes.size :=
      Nat.lt_of_lt_of_le hlt (grows_apply ir (hv step List.mem_cons_self)).size
    have hrest : ((ir.apply step).applyAll steps).scope id = (ir.apply step).scope id :=
      ih (fun step hs => hv step (List.mem_cons_of_mem _ hs)) (fun step hs => ht step (List.mem_cons_of_mem _ hs)) hlt'
    exact hrest.trans (scope_apply_of_ne (ht step List.mem_cons_self) hlt)

/-- While some steps are taken, the scopes from number `n` on that are there are not touched, and the others only
grow. -/
structure Untouched (n : Nat) (ir : Ir) (steps : List Step) : Prop where
  target : ∀ step ∈ steps, ∀ id : Nat, n ≤ id → id < ir.scopes.size → step.target? ≠ some id
  kept : ∀ first, first <+: steps → ∀ id : Nat, n ≤ id → id < ir.scopes.size →
    (ir.applyAll first).scope id = ir.scope id
  grows : ∀ first, first <+: steps → ir.Grows (ir.applyAll first)

/-- Steps that only add to early scopes and to new ones leave those between untouched. -/
theorem untouched_of_spares {n : Nat} (h : ∀ step ∈ steps, step.AddsTo fun id => id < n ∨ ir.scopes.size ≤ id) :
    ir.Untouched n steps := by
  have htarget : ∀ step ∈ steps, ∀ id : Nat, n ≤ id → id < ir.scopes.size → step.target? ≠ some id := by
    intro step hs id hn hlt ht
    rcases (h step hs).target id ht with hid | hid
    · omega
    · omega
  refine ⟨htarget, fun first hfirst id hn hlt => ?_, fun first hfirst => ?_⟩
  · have hv : ∀ step ∈ first, step.Valued := fun step hs => (h step (hfirst.subset hs)).valued
    exact scope_applyAll_of_ne hv (fun step hs => htarget step (hfirst.subset hs) id hn hlt) hlt
  · exact grows_applyAll ir fun step hs => (h step (hfirst.subset hs)).valued

end Ir

/-! ### States of a check -/

namespace Typing

open Ir (Step)

variable {A B : Step → Prop} {s t u : Typing.State}

/-- The state `t` comes after `s`, by steps that have the property `A`. -/
def State.Leads (A : Step → Prop) (s t : Typing.State) : Prop :=
  ∃ steps : List Step, (∀ step ∈ steps, A step) ∧ t.ir = s.ir.applyAll steps ∧ t.history = steps.reverse ++ s.history

namespace State.Leads

theorem refl (A : Step → Prop) (s : Typing.State) : s.Leads A s := ⟨[], by simp, rfl, rfl⟩

theorem single {step : Step} (h : A step) (s : Typing.State) : s.Leads A (s.perform step) :=
  ⟨[step], by simpa using h, rfl, rfl⟩

/-- What leads to a state leads on from there. -/
theorem trans (h : s.Leads A t) (h' : t.Leads A u) : s.Leads A u := by
  obtain ⟨steps, hA, hir, hhistory⟩ := h
  obtain ⟨steps', hA', hir', hhistory'⟩ := h'
  refine ⟨steps ++ steps', ?_, ?_, ?_⟩
  · intro step hs
    rcases List.mem_append.1 hs with hs | hs
    · exact hA step hs
    · exact hA' step hs
  · rw [hir', hir]
    exact (List.foldl_append ..).symm
  · rw [hhistory', hhistory, List.reverse_append, List.append_assoc]

/-- Steps that are allowed are so under a weaker condition. -/
theorem mono (h : s.Leads A t) (hAB : ∀ step, A step → B step) : s.Leads B t := by
  obtain ⟨steps, hA, hir, hhistory⟩ := h
  exact ⟨steps, fun step hs => hAB step (hA step hs), hir, hhistory⟩

/-- On the way to a state the representation only grows. -/
theorem grows {P : Nat → Prop} (h : s.Leads (Step.AddsTo P) t) : s.ir.Grows t.ir := by
  obtain ⟨steps, hA, hir, -⟩ := h
  rw [hir]
  exact Ir.grows_applyAll s.ir fun step hs => (hA step hs).valued

/-- Steps that add to one of the scopes that were there, and to new ones. -/
theorem extendsAt {scope : Nat} (hscope : scope < s.ir.scopes.size)
    (h : s.Leads (Step.AddsTo fun id => id = scope ∨ s.ir.scopes.size ≤ id) t) : s.ir.ExtendsAt scope t.ir := by
  refine ⟨hscope, h.grows, fun id hlt hne => ?_⟩
  obtain ⟨steps, hA, hir, -⟩ := h
  rw [hir]
  refine Ir.scope_applyAll_of_ne (fun step hs => (hA step hs).valued) (fun step hs ht => ?_) hlt
  rcases (hA step hs).target id ht with hid | hid
  · exact hne hid
  · omega

end State.Leads

end Typing

end Scriptlet
