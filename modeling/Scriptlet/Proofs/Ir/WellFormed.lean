import Scriptlet.Proofs.Ir.Lookup

/-!
# Well-formed representations

In a well-formed representation names can be looked up: scopes lie in scopes with smaller numbers, and the list of
latest bindings of each is right.  Every building step keeps it so.
-/

namespace Scriptlet.Ir

variable {ir : Ir} {id parent : Nat}

/-- Names can be looked up. -/
structure WellFormed (ir : Ir) : Prop where
  nested : ir.Nested
  indexed : ∀ id : Nat, (ir.scope id).Indexed

/-- What a name means is a binding of that name. -/
theorem WellFormed.binding?_of_lookup (h : ir.WellFormed) {name : String} {b : BindingId} {var : Var}
    (hl : ir.lookup name id = some (b, var)) : ir.binding? b = some (name, var) := by
  induction id using Nat.strongRecOn with
  | ind id ih =>
    cases hv : (ir.scope id).visible.lookup name with
    | some i =>
      rw [lookup_of_visible hv] at hl
      obtain ⟨⟨other, var'⟩, hb, he⟩ := Option.map_eq_some_iff.1 hl
      cases he
      -- the index of the scope leads to a binding with the name that was looked up
      have hname := ((h.indexed id).last name i hv).1
      rw [binding?_eq] at hb ⊢
      have hother : (ir.scope id).names[i]? = some other := by
        rw [Scope.names, List.getElem?_map, Array.getElem?_toList, hb]
        rfl
      rw [hname] at hother
      cases hother
      exact hb
    | none =>
      cases hp : (ir.scope id).parent with
      | none =>
        rw [lookup_of_root hv hp] at hl
        cases hl
      | some parent =>
        rw [lookup_of_parent h.nested hv hp] at hl
        exact ih parent (h.nested id parent hp) hl

/-- The representation of no program is well-formed. -/
theorem wellFormed_initial : initial.WellFormed := by
  refine ⟨fun id parent hp => ?_, fun id => ?_⟩
  · rw [scope_initial] at hp
    cases hp
  · rw [scope_initial]
    exact Scope.indexed_empty _ _

private theorem WellFormed.modifyScope (h : ir.WellFormed) {f : Scope → Scope} (hp : ∀ s, (f s).parent = s.parent)
    (hi : ∀ s : Scope, s.Indexed → (f s).Indexed) (id : Nat) : (ir.modifyScope id f).WellFormed := by
  refine ⟨fun other parent hparent => ?_, fun other => ?_⟩
  · rcases scope_modifyScope ir id other f with ⟨rfl, -, ho⟩ | ho
    · rw [ho, hp] at hparent
      exact h.nested other parent hparent
    · rw [ho] at hparent
      exact h.nested other parent hparent
  · rcases scope_modifyScope ir id other f with ⟨-, -, ho⟩ | ho
    · rw [ho]
      exact hi _ (h.indexed id)
    · rw [ho]
      exact h.indexed other

private theorem WellFormed.push (h : ir.WellFormed) (id : Nat) (e : Entry) :
    (ir.modifyScope id (·.push e)).WellFormed :=
  h.modifyScope (f := fun s => s.push e) (fun _ => rfl) (fun _ hs => hs.push e) id

/-- A scope inside one that is there keeps the representation well-formed. -/
theorem WellFormed.openScope (h : ir.WellFormed) (hp : parent < ir.scopes.size) (func : Option String)
    (born : List (String × Var)) : (ir.openScope parent func born).WellFormed := by
  refine ⟨fun id outer hparent => ?_, fun id => ?_⟩
  · rcases scope_openScope ir id parent func born with ⟨rfl, ho⟩ | ⟨-, ho⟩
    · rw [ho, Scope.parent_bindAll] at hparent
      cases hparent
      exact hp
    · rw [ho] at hparent
      exact h.nested id outer hparent
  · rcases scope_openScope ir id parent func born with ⟨-, ho⟩ | ⟨-, ho⟩
    · rw [ho]
      exact (Scope.indexed_empty _ _).bindAll born
    · rw [ho]
      exact h.indexed id

/-- A declaration keeps the representation well-formed. -/
theorem WellFormed.declare (h : ir.WellFormed) (id : ScopeId) (name : String) (var : Var) :
    (ir.apply (.declare id name var)).WellFormed :=
  h.modifyScope (f := fun s => (s.push (.newVar name var)).bind name var) (fun _ => rfl)
    (fun _ hs => (hs.push _).bind name var) id

theorem WellFormed.act (h : ir.WellFormed) (id : ScopeId) (op : String) (args : List Var) :
    (ir.apply (.act id op args)).WellFormed := h.push id _

theorem WellFormed.closeScope (h : ir.WellFormed) (id : ScopeId) (kind : ScopeKind) (parent : ScopeId)
    (born : List String) (dependency : Option Value) :
    (ir.apply (.closeScope id kind parent born dependency)).WellFormed := h.push parent _

theorem WellFormed.register (h : ir.WellFormed) (name : String) (signature : Signature) :
    (ir.apply (.register name signature)).WellFormed := ⟨h.nested, h.indexed⟩

end Scriptlet.Ir
