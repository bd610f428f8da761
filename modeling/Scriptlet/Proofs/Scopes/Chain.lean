import Scriptlet.Proofs.Scopes.Orderly

/-!
# The way to the root

From every scope a way leads outwards to the root, through ever older scopes (`Ir.Chain`).  A name means the latest
binding in the nearest scope on the way that has one (`Ir.Nearest`): this is what the search finds, and it finds
nothing just if no scope on the way has one (`Ir.Orderly.searches`).
-/

namespace Scriptlet.Ir

variable {ir : Ir} {begun : List (List (String × Var))} {name : String} {id : Nat} {ids : List Nat} {b : BindingId}

/-- The scopes on the way from a scope to the root, both included. -/
inductive Chain (ir : Ir) : Nat → List Nat → Prop where
  | root {id : Nat} (h : (ir.scope id).parent = none) : Chain ir id [id]
  | inner {id outer : Nat} {ids : List Nat} (h : (ir.scope id).parent = some outer) (rest : Chain ir outer ids) :
    Chain ir id (id :: ids)

/-- The binding is the latest of its name in its scope, and no scope before that one has the name. -/
def Nearest (ir : Ir) (name : String) (ids : List Nat) (b : BindingId) : Prop :=
  ∃ before after, ids = before ++ b.scope :: after ∧ (∀ id ∈ before, name ∉ (ir.scope id).names) ∧
    LastAt name (ir.scope b.scope).names b.index

private theorem nearest_cons_of_mem (h : name ∈ (ir.scope id).names) :
    ir.Nearest name (id :: ids) b ↔ b.scope = id ∧ LastAt name (ir.scope id).names b.index := by
  constructor
  · rintro ⟨before, after, heq, hbefore, hlast⟩
    cases before with
    | nil =>
      cases heq
      exact ⟨rfl, hlast⟩
    | cons first before =>
      cases heq
      exact absurd h (hbefore id List.mem_cons_self)
  · rintro ⟨hscope, hlast⟩
    rw [← hscope] at hlast ⊢
    exact ⟨[], ids, rfl, by simp, hlast⟩

private theorem nearest_cons_of_notMem (h : name ∉ (ir.scope id).names) :
    ir.Nearest name (id :: ids) b ↔ ir.Nearest name ids b := by
  constructor
  · rintro ⟨before, after, heq, hbefore, hlast⟩
    cases before with
    | nil =>
      cases heq
      exact absurd hlast.mem h
    | cons first before =>
      cases heq
      exact ⟨before, after, rfl, fun other ho => hbefore other (List.mem_cons_of_mem _ ho), hlast⟩
  · rintro ⟨before, after, rfl, hbefore, hlast⟩
    refine ⟨id :: before, after, rfl, fun other ho => ?_, hlast⟩
    rcases List.mem_cons.1 ho with rfl | ho
    · exact h
    · exact hbefore other ho

private theorem not_nearest_nil : ¬ ir.Nearest name [] b := by
  rintro ⟨before, after, heq, -⟩
  simp at heq

/-! ### The way -/

/-- The way from a scope, where every scope lies in one with a smaller number. -/
private theorem Nested.exists_chain (h : ir.Nested) (id : Nat) : ∃ ids, ir.Chain id ids := by
  induction id using Nat.strongRecOn with
  | ind id ih =>
    cases hp : (ir.scope id).parent with
    | none => exact ⟨[id], .root hp⟩
    | some outer =>
      obtain ⟨ids, hids⟩ := ih outer (h id outer hp)
      exact ⟨id :: ids, .inner hp hids⟩

private theorem Chain.le (hn : ir.Nested) (h : ir.Chain id ids) : ∀ other ∈ ids, other ≤ id := by
  induction h with
  | root hp =>
    intro other ho
    exact Nat.le_of_eq (List.mem_singleton.1 ho)
  | inner hp _ ih =>
    intro other ho
    rcases List.mem_cons.1 ho with rfl | ho
    · exact Nat.le_refl other
    · exact Nat.le_trans (ih other ho) (Nat.le_of_lt (hn _ _ hp))

/-- On the way, the numbers get smaller. -/
private theorem Chain.descending (hn : ir.Nested) (h : ir.Chain id ids) : ids.Pairwise (· > ·) := by
  induction h with
  | root hp => exact List.pairwise_singleton _ _
  | inner hp rest ih =>
    refine List.pairwise_cons.2 ⟨fun other ho => ?_, ih⟩
    exact Nat.lt_of_le_of_lt (rest.le hn other ho) (hn _ _ hp)

/-- The way ends at the root. -/
private theorem Chain.getLast?_eq (ho : ir.Orderly begun) (h : ir.Chain id ids) (hlt : id < ir.scopes.size) :
    ids.getLast? = some ScopeId.root := by
  induction h with
  | @root id hp =>
    -- only the root lies in no scope
    by_cases hroot : id = ScopeId.root
    · rw [hroot]
      rfl
    · obtain ⟨outer, -, houter⟩ := ho.parent id hroot hlt
      rw [hp] at houter
      cases houter
  | inner hp rest ih =>
    have hlt' := Nat.lt_trans (ho.nested _ _ hp) hlt
    rw [List.getLast?_cons, ih hlt']
    rfl

/-! ### The search -/

/-- A search along the way finds the latest binding in the nearest scope that has the name. -/
private theorem Chain.lookup_eq_some (hw : ir.WellFormed) (h : ir.Chain id ids) {var : Var} :
    ir.lookup name id = some (b, var) ↔ ir.Nearest name ids b ∧ ir.binding? b = some (name, var) := by
  -- the first scope of the way has the name
  have hhere : ∀ {id i : Nat} {ids : List Nat}, (ir.scope id).visible.lookup name = some i →
      (ir.lookup name id = some (b, var) ↔ ir.Nearest name (id :: ids) b ∧ ir.binding? b = some (name, var)) := by
    intro id i ids hv
    have hlast := (hw.indexed id).last name i hv
    rw [nearest_cons_of_mem hlast.mem]
    constructor
    · intro hl
      have hbinding := hw.binding?_of_lookup hl
      rw [lookup_of_visible hv] at hl
      obtain ⟨x, -, hx⟩ := Option.map_eq_some_iff.1 hl
      cases hx
      exact ⟨⟨rfl, hlast⟩, hbinding⟩
    · rintro ⟨⟨hscope, hindex⟩, hbinding⟩
      have hb : b = ⟨id, i⟩ := by
        obtain ⟨scope, index⟩ := b
        rw [show scope = id from hscope, show index = i from hindex.unique hlast]
      rw [lookup_of_visible hv, ← hb, hbinding]
      rfl
  induction h with
  | @root id hp =>
    cases hv : (ir.scope id).visible.lookup name with
    | some i => exact hhere hv
    | none =>
      rw [lookup_of_root hv hp, nearest_cons_of_notMem ((hw.indexed id).unbound name hv)]
      simp [not_nearest_nil]
  | @inner id outer ids hp _ ih =>
    cases hv : (ir.scope id).visible.lookup name with
    | some i => exact hhere hv
    | none =>
      rw [lookup_of_parent hw.nested hv hp, nearest_cons_of_notMem ((hw.indexed id).unbound name hv)]
      exact ih

/-- A name that some scope on the way has means a binding. -/
private theorem Chain.exists_lookup (hw : ir.WellFormed) (h : ir.Chain id ids) {scope : Nat} (hs : scope ∈ ids)
    (hname : name ∈ (ir.scope scope).names) : ∃ b var, ir.lookup name id = some (b, var) := by
  have hhere : ∀ {id i : Nat}, (ir.scope id).visible.lookup name = some i →
      ∃ b var, ir.lookup name id = some (b, var) := by
    intro id i hv
    have hlt := ((hw.indexed id).last name i hv).lt
    rw [Scope.length_names] at hlt
    refine ⟨⟨id, i⟩, (ir.scope id).bindings[i].2, ?_⟩
    rw [lookup_of_visible hv, binding?_eq, Array.getElem?_eq_getElem hlt]
    rfl
  induction h with
  | @root id hp =>
    rw [List.mem_singleton.1 hs] at hname
    cases hv : (ir.scope id).visible.lookup name with
    | some i => exact hhere hv
    | none => exact absurd hname ((hw.indexed id).unbound name hv)
  | @inner id outer ids hp _ ih =>
    cases hv : (ir.scope id).visible.lookup name with
    | some i => exact hhere hv
    | none =>
      rw [lookup_of_parent hw.nested hv hp]
      rcases List.mem_cons.1 hs with rfl | hs
      · exact absurd hname ((hw.indexed _).unbound name hv)
      · exact ih hs

private theorem Chain.lookup_eq_none (hw : ir.WellFormed) (h : ir.Chain id ids) :
    ir.lookup name id = none ↔ ∀ scope ∈ ids, name ∉ (ir.scope scope).names := by
  constructor
  · intro hl scope hs hname
    obtain ⟨b, var, hsome⟩ := h.exists_lookup hw hs hname
    rw [hl] at hsome
    cases hsome
  · intro hnone
    cases hl : ir.lookup name id with
    | none => rfl
    | some found =>
      obtain ⟨b, var⟩ := found
      obtain ⟨⟨before, after, rfl, -, hlast⟩, -⟩ := (h.lookup_eq_some hw).1 hl
      exact absurd hlast.mem (hnone b.scope (by simp))

/-- What searches from a scope come to.  The way to the root is finite, and it takes no more scopes than the search
may visit; the search finds the latest binding of the name in the nearest scope on the way that has one, with the
variable that it binds, and finds nothing just if no scope on the way has one. -/
structure Searches (ir : Ir) (id : Nat) (ids : List Nat) : Prop where
  chain : ir.Chain id ids
  descending : ids.Pairwise (· > ·)
  root : ids.getLast? = some ScopeId.root
  ends : ∀ name fuel, id < fuel → ir.lookupWithin name fuel id = ir.lookup name id
  found : ∀ name b var,
    ir.lookup name id = some (b, var) ↔ ir.Nearest name ids b ∧ ir.binding? b = some (name, var)
  missing : ∀ name, ir.lookup name id = none ↔ ∀ scope ∈ ids, name ∉ (ir.scope scope).names

/-- From every scope the search for a name comes to the root. -/
theorem Orderly.searches (h : ir.Orderly begun) (hlt : id < ir.scopes.size) : ∃ ids, ir.Searches id ids := by
  obtain ⟨ids, hids⟩ := h.nested.exists_chain id
  exact ⟨ids, hids, hids.descending h.nested, hids.getLast?_eq h hlt,
    fun name fuel => lookupWithin_eq_lookup h.nested name id fuel,
    fun _ _ _ => hids.lookup_eq_some h.wellFormed, fun _ => hids.lookup_eq_none h.wellFormed⟩

end Scriptlet.Ir
