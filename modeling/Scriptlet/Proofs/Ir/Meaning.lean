import Scriptlet.Proofs.Ir.Growth
import Scriptlet.Proofs.Ir.WellFormed

/-!
# What a name means at an entry

The rule of block structure, read off the representation as it is at the end.  Before an entry, a scope has declared
the variables that it begins with and those of the entries before (`Scope.declaredBefore`).  A name means the last of
these that has the name; if there is none, it means what it means outside, at the entry that stands for the scope
(`Ir.Means`).

Unlike `Ir.lookup`, which goes by what has been declared so far, the meaning at an entry does not change any more
when the representation grows (`Ir.Means.grow`).
-/

namespace Scriptlet

/-- The entry stands for the scope of that number. -/
def Entry.isScope (id : Nat) : Entry → Bool
  | .scoped _ _ _ inner => decide (inner = id)
  | _ => false

namespace Scope

variable {s t : Scope} {e e' : Entry} {id k : Nat}

/-- What a scope has declared before its entry number `k`. -/
def declaredBefore (s : Scope) (k : Nat) : List (String × Var) :=
  s.born ++ (s.entries.toList.take k).filterMap Entry.declared?

/-- The names that a scope has declared before its entry number `k`. -/
def namesBefore (s : Scope) (k : Nat) : List String := (s.declaredBefore k).map Prod.fst

/-- The bindings are what the scope begins with and what its entries declare, in order. -/
def Aligned (s : Scope) : Prop := s.bindings.toList = s.declaredBefore s.entries.size

/-- The number of the entry that stands for a scope; the number of entries if there is none yet. -/
def place (s : Scope) (id : Nat) : Nat := s.entries.toList.findIdx (·.isScope id)

/-! ### Growth of a scope -/

private theorem Extends.declaredBefore (h : s.Extends t) (hk : k ≤ s.entries.size) :
    t.declaredBefore k = s.declaredBefore k := by
  obtain ⟨rest, hrest⟩ := h.entries
  unfold Scope.declaredBefore
  rw [h.born, ← hrest, List.take_append_of_le_length (by simpa using hk)]

/-- The bindings of a scope are in line with its entries after a new one. -/
theorem Adds.aligned (h : Adds e s t) (hs : s.Aligned) : t.Aligned := by
  unfold Aligned Scope.declaredBefore at *
  have hall : t.entries.toList.take t.entries.size = s.entries.toList ++ [e] := by
    rw [h.entries, ← Array.length_toList, List.take_length, Array.toList_push]
  have hall' : s.entries.toList.take s.entries.size = s.entries.toList := by
    rw [← Array.length_toList, List.take_length]
  rw [h.bindings, hs, hall, hall', h.born, List.filterMap_append, List.append_assoc]
  cases hd : e.declared? <;> simp [hd]

/-- A scope just begun has its parameters as bindings, and no entries. -/
theorem aligned_bindAll_empty (parent : Option ScopeId) (func : Option String) {born : List (String × Var)}
    (h : ∀ b ∈ born, b.2.value.isArg = true) : ((empty parent func).bindAll born).Aligned := by
  have hall : born.filter (·.2.value.isArg) = born := List.filter_eq_self.2 h
  unfold Aligned declaredBefore Scope.born
  rw [bindings_bindAll, entries_bindAll]
  simp [empty, hall]

/-- The names of the bindings, for a scope whose bindings are in line with its entries. -/
theorem Aligned.names_eq (h : s.Aligned) : s.names = s.namesBefore s.entries.size := congrArg (List.map Prod.fst) h

/-- An entry is an old one or the one that was added. -/
theorem Adds.getElem?_entries (h : Adds e s t) (he : t.entries[k]? = some e') :
    s.entries[k]? = some e' ∨ (k = s.entries.size ∧ e' = e) := by
  rw [h.entries, Array.getElem?_push] at he
  by_cases hk : k = s.entries.size
  · rw [if_pos hk] at he
    cases he
    exact Or.inr ⟨hk, rfl⟩
  · rw [if_neg hk] at he
    exact Or.inl he

/-! ### Places -/

private theorem place_le (s : Scope) (id : Nat) : s.place id ≤ s.entries.size := by
  rw [← Array.length_toList]
  exact List.findIdx_le_length

/-- The place of a scope does not change when it has its entry, or gets it. -/
theorem Adds.place_eq (h : Adds e s t) (hp : s.place id < s.entries.size ∨ e.isScope id = true) :
    t.place id = s.place id := by
  unfold place at *
  rw [h.entries, Array.toList_push, List.findIdx_append, Array.length_toList]
  rcases hp with hp | hp
  · rw [if_pos hp]
  · by_cases hlt : s.entries.toList.findIdx (·.isScope id) < s.entries.size
    · rw [if_pos hlt]
    · have hle := s.place_le id
      unfold place at hle
      rw [if_neg hlt, List.findIdx_cons, hp]
      simp only [cond_true]
      omega

/-- A scope without an entry has the place after the last one. -/
theorem place_eq_size (h : ∀ e ∈ s.entries, e.isScope id = false) : s.place id = s.entries.size := by
  unfold place
  rw [← Array.length_toList, List.findIdx_eq_length]
  simpa using h

theorem Adds.getElem?_place (h : Adds e s t) (hp : s.place id = s.entries.size) (he : e.isScope id = true) :
    t.entries[t.place id]? = some e := by
  rw [h.place_eq (Or.inr he), hp, h.entries]
  exact Array.getElem?_push_size

end Scope

namespace Ir

variable {ir ir' : Ir} {name : String} {scope k : Nat} {b : BindingId}

/-- What a name means before an entry of a scope. -/
inductive Means (ir : Ir) (name : String) : Nat → Nat → BindingId → Prop where
  | here {scope k i : Nat} (h : LastAt name ((ir.scope scope).namesBefore k) i) : Means ir name scope k ⟨scope, i⟩
  | outer {scope k parent : Nat} {b : BindingId} (hn : name ∉ (ir.scope scope).namesBefore k)
    (hp : (ir.scope scope).parent = some parent) (h : Means ir name parent ((ir.scope parent).place scope) b) :
    Means ir name scope k b

/-- A name means at most one binding. -/
theorem Means.unique {b' : BindingId} (h : ir.Means name scope k b) (h' : ir.Means name scope k b') : b = b' := by
  induction h with
  | here h =>
    cases h' with
    | here h' => rw [h.unique h']
    | outer hn _ _ => exact absurd h.mem hn
  | outer hn hp _ ih =>
    cases h' with
    | here h' => exact absurd h'.mem hn
    | outer _ hp' h' =>
      cases hp.symm.trans hp'
      exact ih h'

/-- Every scope has the same place among the entries of the scope around it. -/
def KeepsPlaces (ir ir' : Ir) : Prop :=
  ∀ id parent : Nat, (ir.scope id).parent = some parent → (ir'.scope parent).place id = (ir.scope parent).place id

/-- Opening a scope moves no entry. -/
theorem keepsPlaces_openScope (ir : Ir) (parent : ScopeId) (func : Option String) (born : List (String × Var)) :
    ir.KeepsPlaces (ir.openScope parent func born) := by
  intro id outer _
  unfold Scope.place
  rw [entries_openScope]

/-- A meaning does not change when the representation grows. -/
theorem Means.grow (h : ir.Means name scope k b) (hn : ir.Nested) (hg : ir.Grows ir') (hp : ir.KeepsPlaces ir')
    (hlt : scope < ir.scopes.size) (hk : k ≤ (ir.scope scope).entries.size) : ir'.Means name scope k b := by
  have hnames : ∀ {scope k : Nat}, scope < ir.scopes.size → k ≤ (ir.scope scope).entries.size →
      (ir'.scope scope).namesBefore k = (ir.scope scope).namesBefore k := fun hlt hk =>
    congrArg (List.map Prod.fst) ((hg.scope _ hlt).declaredBefore hk)
  induction h with
  | here h =>
    rw [← hnames hlt hk] at h
    exact .here h
  | @outer scope k parent b hnot hparent _ ih =>
    rw [← hnames hlt hk] at hnot
    have hlt' : parent < ir.scopes.size := Nat.lt_trans (hn scope parent hparent) hlt
    have hmeans := ih hlt' (Scope.place_le _ _)
    rw [← hp scope parent hparent] at hmeans
    exact .outer hnot ((hg.scope scope hlt).parent.trans hparent) hmeans

end Ir

end Scriptlet
