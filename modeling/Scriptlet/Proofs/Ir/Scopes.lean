import Scriptlet.Ir.Basic

/-!
# Scopes and their bindings

A scope finds a name by the list of latest bindings.  `Scope.Indexed` says that this list is right: it holds the
position of the last binding of a name (`LastAt`), and nothing for a name that is not bound.  Binding a name keeps it
so (`Scope.Indexed.bind`).

What a building step does to one scope of the representation is then said scope by scope: a change to one leaves the
others as they are, and a new scope stands behind all others.
-/

namespace Scriptlet

/-- The last occurrence of a name in a list stands at position `i`. -/
def LastAt (name : String) (names : List String) (i : Nat) : Prop :=
  names[i]? = some name ∧ ∀ j, i < j → names[j]? ≠ some name

namespace LastAt

variable {name other : String} {names : List String} {i j : Nat}

theorem lt (h : LastAt name names i) : i < names.length := by
  obtain ⟨hi, -⟩ := h
  exact (List.getElem?_eq_some_iff.1 hi).1

theorem mem (h : LastAt name names i) : name ∈ names := List.mem_of_getElem? h.1

/-- A name stands last at one place only. -/
theorem unique (h : LastAt name names i) (h' : LastAt name names j) : i = j := by
  have hle : j ≤ i := Nat.not_lt.1 fun hlt => h.2 j hlt h'.1
  have hge : i ≤ j := Nat.not_lt.1 fun hlt => h'.2 i hlt h.1
  omega

/-- A name that is added stands last at the end. -/
theorem append_self (name : String) (names : List String) : LastAt name (names ++ [name]) names.length := by
  refine ⟨by simp, fun j hj => ?_⟩
  rw [List.getElem?_eq_none (by simp; omega)]
  simp

/-- Another name does not change where a name stands last. -/
theorem append_other (hne : other ≠ name) (h : LastAt name names i) : LastAt name (names ++ [other]) i := by
  refine ⟨?_, fun j hj => ?_⟩
  · rw [List.getElem?_append_left h.lt]
    exact h.1
  · rcases Nat.lt_trichotomy j names.length with hlt | heq | hgt
    · rw [List.getElem?_append_left hlt]
      exact h.2 j hj
    · simp [heq, hne]
    · rw [List.getElem?_eq_none (by simp; omega)]
      simp

end LastAt

namespace Scope

variable {s : Scope} {name other : String} {var : Var} {i : Nat}

/-- The names of the bindings, in order. -/
def names (s : Scope) : List String := s.bindings.toList.map Prod.fst

/-- The list of latest bindings is right. -/
structure Indexed (s : Scope) : Prop where
  last : ∀ name i, s.visible.lookup name = some i → LastAt name s.names i
  unbound : ∀ name, s.visible.lookup name = none → name ∉ s.names

private theorem lookup_setVisible (name other : String) (i : Nat) (vs : List (String × Nat)) :
    (setVisible name i vs).lookup other = if name = other then some i else vs.lookup other := by
  induction vs with
  | nil =>
    by_cases h : name = other
    · simp [setVisible, h]
    · simp [setVisible, h, Ne.symm h]
  | cons v vs ih =>
    obtain ⟨n, k⟩ := v
    unfold setVisible
    by_cases hn : n = name
    · subst hn
      by_cases h : n = other
      · simp [h]
      · simp [h, List.lookup_cons, beq_false_of_ne (Ne.symm h)]
    · rw [if_neg hn]
      by_cases ho : other = n
      · subst ho
        simp [Ne.symm hn]
      · simp only [List.lookup_cons, beq_false_of_ne ho]
        exact ih

@[simp] theorem names_bind (s : Scope) (name : String) (var : Var) : (s.bind name var).names = s.names ++ [name] := by
  simp [names, bind]

theorem length_names (s : Scope) : s.names.length = s.bindings.size := by simp [names]

/-- In a scope without bindings no name is to be found. -/
theorem indexed_empty (parent : Option ScopeId) (func : Option String) : (empty parent func).Indexed where
  last name i h := by simp [empty] at h
  unbound name _ := by simp [names, empty]

theorem Indexed.push (h : s.Indexed) (e : Entry) : (s.push e).Indexed := ⟨h.last, h.unbound⟩

/-- A name that is bound is found at its last binding, whether it was bound before or not. -/
theorem Indexed.bind (h : s.Indexed) (name : String) (var : Var) : (s.bind name var).Indexed where
  last n i hi := by
    rw [names_bind]
    have hv : (s.bind name var).visible.lookup n = if name = n then some s.bindings.size else s.visible.lookup n :=
      lookup_setVisible name n _ _
    rw [hv] at hi
    by_cases hn : name = n
    · subst hn
      rw [if_pos rfl] at hi
      cases hi
      rw [← length_names]
      exact LastAt.append_self name s.names
    · rw [if_neg hn] at hi
      exact LastAt.append_other hn (h.last n i hi)
  unbound n hi := by
    have hv : (s.bind name var).visible.lookup n = if name = n then some s.bindings.size else s.visible.lookup n :=
      lookup_setVisible name n _ _
    rw [hv] at hi
    by_cases hn : name = n
    · rw [if_pos hn] at hi
      cases hi
    · rw [if_neg hn] at hi
      rw [names_bind]
      simpa [Ne.symm hn] using h.unbound n hi

/-- What a name means after a declaration. -/
theorem Indexed.var?_bind (h : s.Indexed) (name other : String) (var : Var) :
    (s.bind name var).var? other = if name = other then some var else s.var? other := by
  have hv : (s.bind name var).visible.lookup other =
      if name = other then some s.bindings.size else s.visible.lookup other := lookup_setVisible name other _ _
  unfold var?
  rw [hv]
  by_cases hn : name = other
  · simp [hn, Scope.bind]
  · rw [if_neg hn, if_neg hn]
    cases hl : s.visible.lookup other with
    | none => rfl
    | some i =>
      have hi := (h.last other i hl).lt
      rw [length_names] at hi
      have hb : (s.bind name var).bindings[i]? = s.bindings[i]? := by
        unfold Scope.bind
        exact Array.getElem?_push_lt hi |>.trans (Array.getElem?_eq_getElem hi).symm
      simp only [Option.bind_some, hb]

/-- The scope with some names declared one after another. -/
def bindAll (s : Scope) (born : List (String × Var)) : Scope := born.foldl (fun s b => s.bind b.1 b.2) s

@[simp] theorem bindAll_nil (s : Scope) : s.bindAll [] = s := rfl

@[simp] theorem bindAll_cons (s : Scope) (b : String × Var) (born : List (String × Var)) :
    s.bindAll (b :: born) = (s.bind b.1 b.2).bindAll born := rfl

/-- The index is right after several bindings as after one. -/
theorem Indexed.bindAll (h : s.Indexed) (born : List (String × Var)) : (s.bindAll born).Indexed := by
  induction born generalizing s with
  | nil => exact h
  | cons b born ih => exact ih (h.bind b.1 b.2)

@[simp] theorem bindings_bindAll (s : Scope) (born : List (String × Var)) :
    (s.bindAll born).bindings.toList = s.bindings.toList ++ born := by
  induction born generalizing s with
  | nil => simp
  | cons b born ih => simp [ih, Scope.bind]

@[simp] theorem parent_bindAll (s : Scope) (born : List (String × Var)) : (s.bindAll born).parent = s.parent := by
  induction born generalizing s with
  | nil => rfl
  | cons b born ih => exact ih _

@[simp] theorem func_bindAll (s : Scope) (born : List (String × Var)) : (s.bindAll born).func = s.func := by
  induction born generalizing s with
  | nil => rfl
  | cons b born ih => exact ih _

@[simp] theorem entries_bindAll (s : Scope) (born : List (String × Var)) : (s.bindAll born).entries = s.entries := by
  induction born generalizing s with
  | nil => rfl
  | cons b born ih => exact ih _

end Scope

/-! ### One scope among others -/

namespace Ir

variable {ir : Ir} {id other : Nat}

/-- There is no scope but those that have been opened. -/
theorem scope_of_size_le (h : ir.scopes.size ≤ id) : ir.scope id = .empty none none := by
  unfold scope
  rw [Array.getElem?_eq_none h]
  rfl

theorem scope_initial (id : Nat) : initial.scope id = .empty none none := by
  cases id with
  | zero => rfl
  | succ id => exact scope_of_size_le (Nat.succ_le_succ (Nat.zero_le id))

/-- A scope that lies in another is there. -/
theorem lt_of_parent {parent : Nat} (h : (ir.scope id).parent = some parent) : id < ir.scopes.size := by
  rcases Nat.lt_or_ge id ir.scopes.size with hlt | hge
  · exact hlt
  · rw [scope_of_size_le hge] at h
    cases h

/-- A scope with entries has been opened. -/
theorem lt_of_mem_entries {e : Entry} (h : e ∈ (ir.scope id).entries) : id < ir.scopes.size := by
  rcases Nat.lt_or_ge id ir.scopes.size with hlt | hge
  · exact hlt
  · rw [scope_of_size_le hge] at h
    simp [Scope.empty] at h

theorem binding?_eq (ir : Ir) (b : BindingId) : ir.binding? b = (ir.scope b.scope).bindings[b.index]? := by
  unfold binding? scope
  cases ir.scopes[b.scope]? with
  | none => simp [Scope.empty]
  | some s => rfl

@[simp] theorem size_modifyScope (ir : Ir) (id : ScopeId) (f : Scope → Scope) :
    (ir.modifyScope id f).scopes.size = ir.scopes.size := by
  simp [modifyScope]

/-- A change of a scope is seen there. -/
theorem scope_modifyScope_self (h : id < ir.scopes.size) (f : Scope → Scope) :
    (ir.modifyScope id f).scope id = f (ir.scope id) := by
  simp [modifyScope, scope, Array.getElem?_modify, Array.getElem?_eq_getElem h]

/-- A change of a scope is not seen in the others. -/
theorem scope_modifyScope_of_ne (h : other ≠ id) (f : Scope → Scope) :
    (ir.modifyScope id f).scope other = ir.scope other := by
  simp [modifyScope, scope, Array.getElem?_modify, Ne.symm h]

/-- A scope after a change to one of them: the changed one, or one that is as it was. -/
theorem scope_modifyScope (ir : Ir) (id other : Nat) (f : Scope → Scope) :
    (other = id ∧ id < ir.scopes.size ∧ (ir.modifyScope id f).scope other = f (ir.scope id)) ∨
      (ir.modifyScope id f).scope other = ir.scope other := by
  by_cases ho : other = id
  · subst ho
    by_cases hlt : other < ir.scopes.size
    · exact Or.inl ⟨rfl, hlt, scope_modifyScope_self hlt f⟩
    · have hle : ir.scopes.size ≤ other := Nat.not_lt.1 hlt
      rw [scope_of_size_le hle, scope_of_size_le (by simpa using hle)]
      exact Or.inr rfl
  · exact Or.inr (scope_modifyScope_of_ne ho f)

@[simp] theorem size_openScope (ir : Ir) (parent : ScopeId) (func : Option String) (born : List (String × Var)) :
    (ir.openScope parent func born).scopes.size = ir.scopes.size + 1 := by
  simp [openScope]

/-- A scope that is opened belongs to the function of its parent, if not to one of its own, and has the bindings it
begins with. -/
theorem scope_openScope_self (ir : Ir) (parent : ScopeId) (func : Option String) (born : List (String × Var)) :
    (ir.openScope parent func born).scope ir.scopes.size =
      (Scope.empty (some parent) (func <|> (ir.scope parent).func)).bindAll born := by
  simp [openScope, scope, Scope.bindAll]

/-- Opening a scope changes no other scope. -/
theorem scope_openScope_of_ne (h : other ≠ ir.scopes.size) (parent : ScopeId) (func : Option String)
    (born : List (String × Var)) : (ir.openScope parent func born).scope other = ir.scope other := by
  simp [openScope, scope, Array.getElem?_push, h]

/-- A scope after one is added: the new one, or one that is as it was. -/
theorem scope_openScope (ir : Ir) (other : Nat) (parent : ScopeId) (func : Option String)
    (born : List (String × Var)) :
    (other = ir.scopes.size ∧ (ir.openScope parent func born).scope other =
      (Scope.empty (some parent) (func <|> (ir.scope parent).func)).bindAll born) ∨
      (other ≠ ir.scopes.size ∧ (ir.openScope parent func born).scope other = ir.scope other) := by
  by_cases ho : other = ir.scopes.size
  · subst ho
    exact Or.inl ⟨rfl, scope_openScope_self ir parent func born⟩
  · exact Or.inr ⟨ho, scope_openScope_of_ne ho parent func born⟩

/-- A new scope has no entries, like one that is not there. -/
theorem entries_openScope (ir : Ir) (parent : ScopeId) (func : Option String) (born : List (String × Var))
    (id : Nat) : ((ir.openScope parent func born).scope id).entries = (ir.scope id).entries := by
  rcases scope_openScope ir id parent func born with ⟨rfl, ho⟩ | ⟨-, ho⟩
  · rw [ho, Scope.entries_bindAll, scope_of_size_le (Nat.le_refl _)]
    rfl
  · rw [ho]

end Ir

end Scriptlet
