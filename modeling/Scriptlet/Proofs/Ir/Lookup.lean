import Scriptlet.Proofs.Ir.Scopes

/-!
# Finding a name

The search for a name goes from a scope to the one around it, and the numbers get smaller on the way
(`Ir.Nested`), so that it is never cut short.  `Ir.lookup` therefore obeys the rule of block structure: a name that
the scope declares is the one meant (`lookup_of_visible`), any other name means what it means outside
(`lookup_of_parent`), and a name that no scope declares is not found (`lookup_of_root`).
-/

namespace Scriptlet.Ir

variable {ir : Ir} {name : String} {id parent i : Nat}

/-- Every scope lies in one with a smaller number, or in none. -/
def Nested (ir : Ir) : Prop := ∀ id parent : Nat, (ir.scope id).parent = some parent → parent < id

/-- A name that is bound in the scope is found there. -/
theorem lookup_of_visible (hv : (ir.scope id).visible.lookup name = some i) :
    ir.lookup name id = (ir.binding? ⟨id, i⟩).map fun b => (⟨id, i⟩, b.2) := by
  unfold lookup lookupWithin
  rw [hv]

/-- A name that is not bound at the root is not found. -/
theorem lookup_of_root (hv : (ir.scope id).visible.lookup name = none) (hp : (ir.scope id).parent = none) :
    ir.lookup name id = none := by
  unfold lookup lookupWithin
  rw [hv, hp]

/-- More fuel than the number of the scope changes nothing. -/
theorem lookupWithin_eq_lookup (h : ir.Nested) (name : String) :
    ∀ id fuel : Nat, id < fuel → ir.lookupWithin name fuel id = ir.lookup name id := by
  intro id
  induction id using Nat.strongRecOn with
  | ind id ih =>
    intro fuel hf
    obtain ⟨fuel, rfl⟩ : ∃ m, fuel = m + 1 := ⟨fuel - 1, by omega⟩
    unfold lookup lookupWithin
    cases hv : (ir.scope id).visible.lookup name with
    | some i => rfl
    | none =>
      cases hp : (ir.scope id).parent with
      | none => rfl
      | some parent =>
        have hlt : parent < id := h id parent hp
        have hf' : parent < fuel := Nat.lt_of_lt_of_le hlt (Nat.le_of_lt_succ hf)
        exact (ih parent hlt fuel hf').trans (ih parent hlt id hlt).symm

/-- A name that is not bound in the scope means what it means around it. -/
theorem lookup_of_parent (h : ir.Nested) (hv : (ir.scope id).visible.lookup name = none)
    (hp : (ir.scope id).parent = some parent) : ir.lookup name id = ir.lookup name parent := by
  have hlt : parent < id := h id parent hp
  rw [← lookupWithin_eq_lookup h name parent id hlt]
  conv => lhs; unfold lookup lookupWithin
  rw [hv, hp]

/-- A name that its scope declares means the latest variable of that name there. -/
theorem lookup_of_var (h : (ir.scope id).Indexed) {var : Var} (hv : (ir.scope id).var? name = some var) :
    ∃ i, ir.lookup name id = some (⟨id, i⟩, var) ∧ LastAt name (ir.scope id).names i := by
  unfold Scope.var? at hv
  cases hl : (ir.scope id).visible.lookup name with
  | none => rw [hl] at hv; cases hv
  | some i =>
    rw [hl] at hv
    refine ⟨i, ?_, h.last name i hl⟩
    rw [lookup_of_visible hl, binding?_eq]
    cases hb : (ir.scope id).bindings[i]? with
    | none => simp [hb] at hv
    | some b => simpa [hb] using hv

theorem visible_of_var?_eq_none (h : (ir.scope id).Indexed) (hv : (ir.scope id).var? name = none) :
    (ir.scope id).visible.lookup name = none := by
  unfold Scope.var? at hv
  cases hl : (ir.scope id).visible.lookup name with
  | none => rfl
  | some i =>
    have hi := (h.last name i hl).lt
    rw [Scope.length_names] at hi
    simp [hl, Array.getElem?_eq_getElem hi] at hv

end Scriptlet.Ir
