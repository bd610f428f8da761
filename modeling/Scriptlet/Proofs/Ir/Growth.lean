import Scriptlet.Proofs.Ir.Scopes
import Scriptlet.Proofs.Ir.Table

/-!
# Growth of the representation

While a program is checked, its representation only grows: operators are added, and scopes get further bindings and
entries behind those they have (`Ir.Grows`).  What has been said of an operator or a binding therefore remains true
(`Ir.Grows.binding?`), and so does what a scope began with (`Scope.born`).
-/

namespace Scriptlet

/-- A parameter or loop variable. -/
def Value.isArg : Value → Bool
  | arg => true
  | _ => false

theorem Value.eq_arg_of_isArg {v : Value} (h : v.isArg = true) : v = .arg := by
  cases v with
  | arg => rfl
  | ref | atom | apply => cases h

/-- The variable that an entry declares. -/
def Entry.declared? : Entry → Option (String × Var)
  | newVar name var => some (name, var)
  | _ => none

namespace Scope

/-- The bindings that a scope begins with: parameters and loop variables. -/
def born (s : Scope) : List (String × Var) := s.bindings.toList.filter (·.2.value.isArg)

/-- A later state of a scope. -/
structure Extends (s t : Scope) : Prop where
  parent : t.parent = s.parent
  func : t.func = s.func
  bindings : s.bindings.toList <+: t.bindings.toList
  entries : s.entries.toList <+: t.entries.toList
  born : t.born = s.born

variable {s t u : Scope}

private theorem Extends.refl (s : Scope) : s.Extends s := ⟨rfl, rfl, List.prefix_rfl, List.prefix_rfl, rfl⟩

private theorem Extends.trans (h : s.Extends t) (h' : t.Extends u) : s.Extends u where
  parent := h'.parent.trans h.parent
  func := h'.func.trans h.func
  bindings := h.bindings.trans h'.bindings
  entries := h.entries.trans h'.entries
  born := h'.born.trans h.born

/-- A scope with one more entry, and one more binding if the entry declares a variable. -/
structure Adds (e : Entry) (s t : Scope) : Prop where
  parent : t.parent = s.parent
  func : t.func = s.func
  bindings : t.bindings.toList = s.bindings.toList ++ e.declared?.toList
  entries : t.entries = s.entries.push e
  born : t.born = s.born

/-- A scope that gets an entry is extended. -/
theorem Adds.extends {e : Entry} (h : Adds e s t) : s.Extends t where
  parent := h.parent
  func := h.func
  bindings := ⟨_, h.bindings.symm⟩
  entries := by simp [h.entries]
  born := h.born

/-- An entry that declares nothing is added without a binding. -/
theorem adds_push (s : Scope) {e : Entry} (he : e.declared? = none) : Adds e s (s.push e) where
  parent := rfl
  func := rfl
  bindings := by simp [push, he]
  entries := rfl
  born := rfl

/-- A declaration is added with its entry and its binding. -/
theorem adds_declare (s : Scope) (name : String) {v : Value} (h : v.isArg = false) (ty : Ty) (span : Span)
    (mutable : Bool) : Adds (.newVar name (.mk v ty span mutable)) s
      ((s.push (.newVar name (.mk v ty span mutable))).bind name (.mk v ty span mutable)) where
  parent := rfl
  func := rfl
  bindings := by simp [push, bind, Entry.declared?]
  entries := rfl
  born := by simp [Scope.born, push, bind, Var.value, h]

private theorem getElem?_of_prefix {α : Type} {xs ys : Array α} (h : xs.toList <+: ys.toList) {i : Nat} {a : α}
    (ha : xs[i]? = some a) : ys[i]? = some a := by
  obtain ⟨rest, hrest⟩ := h
  rw [← Array.getElem?_toList] at ha ⊢
  rw [← hrest, List.getElem?_append_left (List.getElem?_eq_some_iff.1 ha).1]
  exact ha

private theorem Extends.getElem?_bindings (h : s.Extends t) {i : Nat} {b : String × Var}
    (hb : s.bindings[i]? = some b) : t.bindings[i]? = some b := getElem?_of_prefix h.bindings hb

theorem Extends.getElem?_entries (h : s.Extends t) {i : Nat} {e : Entry} (he : s.entries[i]? = some e) :
    t.entries[i]? = some e := getElem?_of_prefix h.entries he

end Scope

namespace Ir

variable {ir ir' ir'' : Ir}

/-- A later state of the representation. -/
structure Grows (ir ir' : Ir) : Prop where
  ops : ∀ op o, ir.ops.get? op = some o → ir'.ops.get? op = some o
  size : ir.scopes.size ≤ ir'.scopes.size
  scope : ∀ id : Nat, id < ir.scopes.size → (ir.scope id).Extends (ir'.scope id)

namespace Grows

theorem refl (ir : Ir) : ir.Grows ir := ⟨fun _ _ h => h, Nat.le_refl _, fun _ _ => .refl _⟩

theorem trans (h : ir.Grows ir') (h' : ir'.Grows ir'') : ir.Grows ir'' where
  ops op o ho := h'.ops op o (h.ops op o ho)
  size := Nat.le_trans h.size h'.size
  scope id hid := (h.scope id hid).trans (h'.scope id (Nat.lt_of_lt_of_le hid h.size))

/-- A binding stays what it is when the representation grows. -/
theorem binding? (h : ir.Grows ir') {b : BindingId} {x : String × Var} (hb : ir.binding? b = some x) :
    ir'.binding? b = some x := by
  rw [binding?_eq] at hb ⊢
  have hlt : (b.scope : Nat) < ir.scopes.size := by
    rcases Nat.lt_or_ge b.scope ir.scopes.size with hlt | hge
    · exact hlt
    · rw [scope_of_size_le hge] at hb
      simp [Scope.empty] at hb
  exact (h.scope b.scope hlt).getElem?_bindings hb

end Grows

/-- A representation grows if one of its scopes is extended. -/
theorem grows_modifyScope (ir : Ir) (id : Nat) {f : Scope → Scope} (hf : ∀ s : Scope, s.Extends (f s)) :
    ir.Grows (ir.modifyScope id f) where
  ops _ _ h := h
  size := Nat.le_of_eq (size_modifyScope ir id f).symm
  scope other ho := by
    by_cases h : other = id
    · subst h
      rw [scope_modifyScope_self ho]
      exact hf _
    · rw [scope_modifyScope_of_ne h]
      exact .refl _

/-- A representation grows if a scope is opened. -/
theorem grows_openScope (ir : Ir) (parent : ScopeId) (func : Option String) (born : List (String × Var)) :
    ir.Grows (ir.openScope parent func born) where
  ops _ _ h := h
  size := by simp
  scope other ho := by
    rw [scope_openScope_of_ne (Nat.ne_of_lt ho)]
    exact .refl _

/-- A scope just added begins with the variables given for it. -/
theorem born_openScope (ir : Ir) (parent : ScopeId) (func : Option String) {born : List (String × Var)}
    (h : ∀ b ∈ born, b.2.value.isArg = true) :
    ((ir.openScope parent func born).scope ir.scopes.size).born = born := by
  rw [scope_openScope_self]
  unfold Scope.born
  rw [Scope.bindings_bindAll]
  simpa [Scope.empty] using h

/-- A representation grows if a function with a free name is registered. -/
theorem grows_register {name : String} (h : ir.ops.contains name = false) (signature : Signature) :
    ir.Grows (ir.apply (.register name signature)) where
  ops op o ho := by
    show ((ir.ops.define? name signature).getD ir.ops).get? op = some o
    have hne : op ≠ name := by
      rintro rfl
      simp [OperatorTable.contains, ho] at h
    rw [OperatorTable.get?_define h, if_neg hne]
    exact ho
  size := Nat.le_refl _
  scope _ _ := .refl _

/-- A function that is registered has just its own signature. -/
theorem get?_register {name : String} (h : ir.ops.contains name = false) (signature : Signature) :
    (ir.apply (.register name signature)).ops.get? name = some ⟨[signature], true⟩ := by
  show ((ir.ops.define? name signature).getD ir.ops).get? name = _
  rw [OperatorTable.get?_define h, if_pos rfl]

end Ir

end Scriptlet
