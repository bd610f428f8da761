import Scriptlet.Dump.Ir

/-!
# Walks

A walk goes through the entries of a scope in their order and, at an entry that opens a scope, through the entries of
that scope before it goes on (`Ir.Walk`).  A walk is finite, but it need not exist: the scopes of a representation are
found by their numbers, which could lead round in circles.

They do not if the entries open the scopes in the order of their numbers (`Ir.Numbered`).  Then there is just one walk;
it meets each scope once and in order (`Numbered.exists_walk`), it meets each entry of each scope once (`Walk.perm`),
and the dump of the representation has the lines of the entries that it meets (`Numbered.lines_eq`).
-/

namespace Scriptlet

/-- The scope that an entry opens. -/
def Entry.inner? : Entry → Option Nat
  | .scoped _ _ _ id => some id
  | _ => none

theorem Entry.exists_of_inner? : {e : Entry} → {id : Nat} → e.inner? = some id →
    ∃ kind born guard, e = .scoped kind born guard id
  | .scoped kind born guard _, _, rfl => ⟨kind, born, guard, rfl⟩

/-- The lines of an entry in a dump, without those of the scope that it opens. -/
def Entry.lines (i : Nat) : Entry → List Dump.Line
  | newVar name var =>
    let keyword := if var.mutable then "var " else "let "
    ⟨i, keyword ++ name ++ ": " ++ var.ty.text ++ " (" ++ var.span.text ++ ")"⟩ :: var.value.lines (i + 1)
  | action op args => ⟨i, "expr " ++ op⟩ :: Var.linesOfList (i + 1) args
  | .scoped kind born dependency scope => scopedLines i kind born dependency scope

/-- An entry that a walk meets: how many scopes lie around that of the entry, which scope that is, and the place of the
entry there. -/
structure Visit where
  level : Nat
  scope : Nat
  index : Nat
  entry : Entry

namespace Visit

/-- The scope and the index of the entry. -/
def place (v : Visit) : Nat × Nat := (v.scope, v.index)

/-- The lines of the entry in a dump. -/
def lines (v : Visit) : List Dump.Line := v.entry.lines v.level

end Visit

/-- The scopes that a walk enters, in order. -/
def entered (vs : List Visit) : List Nat := vs.filterMap fun v => v.entry.inner?

private theorem entered_append (us vs : List Visit) : entered (us ++ vs) = entered us ++ entered vs :=
  List.filterMap_append

private theorem entered_of_plain {v : Visit} (h : v.entry.inner? = none) (vs : List Visit) :
    entered (v :: vs) = entered vs :=
  List.filterMap_cons_none h

private theorem entered_of_nested {v : Visit} {id : Nat} (h : v.entry.inner? = some id) (vs : List Visit) :
    entered (v :: vs) = id :: entered vs := List.filterMap_cons_some h

namespace Ir

variable {ir : Ir} {level scope k n m n' : Nat} {es es' : List Entry} {vs vs' : List Visit}

/-- What a walk meets that goes through entries of a scope, the first of which has the index `k` there. -/
inductive Walk (ir : Ir) : (level scope k : Nat) → List Entry → List Visit → Prop where
  | nil {level scope k : Nat} : Walk ir level scope k [] []
  | plain {level scope k : Nat} {e : Entry} {es : List Entry} {vs : List Visit} (he : e.inner? = none) :
    Walk ir level scope (k + 1) es vs → Walk ir level scope k (e :: es) (⟨level, scope, k, e⟩ :: vs)
  | nested {level scope k : Nat} {e : Entry} {id : Nat} {es : List Entry} {us vs : List Visit}
    (he : e.inner? = some id) : Walk ir (level + 1) id 0 (ir.scope id).entries.toList us →
      Walk ir level scope (k + 1) es vs → Walk ir level scope k (e :: es) (⟨level, scope, k, e⟩ :: (us ++ vs))

/-- What a walk through the whole representation meets, from the root on. -/
def Walked (ir : Ir) (vs : List Visit) : Prop :=
  ir.Walk 0 ScopeId.root 0 (ir.scope ScopeId.root).entries.toList vs

/-- The entries open the scopes from `n` up to `n'` in order, directly or inside other scopes. -/
inductive Numbered (ir : Ir) : List Entry → Nat → Nat → Prop where
  | nil {n : Nat} : Numbered ir [] n n
  | plain {e : Entry} {es : List Entry} {n n' : Nat} (he : e.inner? = none) :
    Numbered ir es n n' → Numbered ir (e :: es) n n'
  | nested {e : Entry} {es : List Entry} {n m n' : Nat} (he : e.inner? = some n) :
    Numbered ir (ir.scope n).entries.toList (n + 1) m → Numbered ir es m n' → Numbered ir (e :: es) n n'

/-! ### Entries of a walk -/

namespace Walk

/-- A walk has no choice. -/
theorem unique (h : ir.Walk level scope k es vs) (h' : ir.Walk level scope k es vs') : vs = vs' := by
  induction h generalizing vs' with
  | nil =>
    cases h'
    rfl
  | plain he _ ih =>
    cases h' with
    | plain _ h' => rw [ih h']
    | nested he' => rw [he] at he'; cases he'
  | nested he _ _ ih ih' =>
    cases h' with
    | plain he' => rw [he] at he'; cases he'
    | nested he' h' h'' =>
      cases he.symm.trans he'
      rw [ih h', ih' h'']

/-- Every entry that is met stands where the walk says. -/
theorem getElem? (h : ir.Walk level scope k es vs) (hes : (ir.scope scope).entries.toList.drop k = es) :
    ∀ v ∈ vs, (ir.scope v.scope).entries[v.index]? = some v.entry := by
  -- the entries that are left begin with the one at `k`, and those after it are left next
  have hcons {scope k : Nat} {e : Entry} {es : List Entry} (h : (ir.scope scope).entries.toList.drop k = e :: es) :
      (ir.scope scope).entries[k]? = some e ∧ (ir.scope scope).entries.toList.drop (k + 1) = es := by
    have htail := congrArg List.tail h
    have hhead := congrArg List.head? h
    rw [List.tail_drop] at htail
    rw [List.head?_drop, Array.getElem?_toList] at hhead
    exact ⟨hhead, htail⟩
  induction h with
  | nil => simp
  | plain _ _ ih =>
    obtain ⟨hhead, htail⟩ := hcons hes
    exact List.forall_mem_cons.2 ⟨hhead, ih htail⟩
  | nested _ _ _ ih ih' =>
    obtain ⟨hhead, htail⟩ := hcons hes
    exact List.forall_mem_cons.2 ⟨hhead, List.forall_mem_append.2 ⟨ih List.drop_zero, ih' htail⟩⟩

end Walk

/-! ### Places -/

/-- The places of the entries of a scope. -/
def places (ir : Ir) (id : Nat) : List (Nat × Nat) := (List.range (ir.scope id).entries.size).map (id, ·)

private theorem places_eq (ir : Ir) (id : Nat) :
    ir.places id = (List.range' 0 (ir.scope id).entries.toList.length).map (id, ·) := by
  rw [Array.length_toList, ← List.range_eq_range']
  rfl

/-- A walk meets the entries that it goes through, and all entries of the scopes that it enters. -/
theorem Walk.perm (h : ir.Walk level scope k es vs) :
    (vs.map Visit.place).Perm ((List.range' k es.length).map (scope, ·) ++ (entered vs).flatMap ir.places) := by
  induction h with
  | nil => exact .nil
  | @plain level scope k e es vs he _ ih =>
    rw [entered_of_plain he]
    exact ih.cons (scope, k)
  | @nested level scope k e id es us vs he _ _ ih ih' =>
    rw [← places_eq] at ih
    rw [entered_of_nested he, entered_append, List.flatMap_cons, List.flatMap_append, List.map_cons, List.map_append,
      List.length_cons, List.range'_succ, List.map_cons, List.cons_append]
    -- the entries after this one come behind those of the scope that it opens
    refine List.Perm.cons (scope, k) ((ih.append ih').trans ?_)
    rw [← List.append_assoc (ir.places id)]
    exact List.perm_append_comm_assoc _ _ _

/-- A walk that enters all scopes but the root meets every entry. -/
theorem Walked.perm (h : ir.Walked vs) (hids : entered vs = List.range' 1 (ir.scopes.size - 1))
    (hpos : 1 ≤ ir.scopes.size) : (vs.map Visit.place).Perm ((List.range ir.scopes.size).flatMap ir.places) := by
  have hall : List.range ir.scopes.size = ScopeId.root :: List.range' 1 (ir.scopes.size - 1) := by
    rw [List.range_eq_range', ← Nat.sub_add_cancel hpos, List.range'_succ]
    rfl
  have hperm := Walk.perm h
  rwa [← places_eq, hids, ← List.flatMap_cons, ← hall] at hperm

/-! ### Scopes in the order of their numbers -/

namespace Numbered

/-- The numbers of scopes go up. -/
theorem le (h : ir.Numbered es n n') : n ≤ n' := by
  induction h with
  | nil => exact Nat.le_refl _
  | plain _ _ ih => exact ih
  | nested _ _ _ ih ih' => omega

/-- Entries that are numbered on from others are numbered together with them. -/
theorem append (h : ir.Numbered es n m) (h' : ir.Numbered es' m n') : ir.Numbered (es ++ es') n n' := by
  induction h with
  | nil => exact h'
  | plain he _ ih => exact .plain he (ih h')
  | nested he hin _ _ ih => exact .nested he hin (ih h')

theorem single {e : Entry} (he : e.inner? = none) : ir.Numbered [e] n n := .plain he .nil

/-- An entry for the scope `n`. -/
theorem ofScope {kind : ScopeKind} {born : List String} {guard : Option Value}
    (h : ir.Numbered (ir.scope n).entries.toList (n + 1) n') : ir.Numbered [.scoped kind born guard n] n n' :=
  .nested rfl h .nil

/-- There is a walk, and it enters each of the scopes once, in order. -/
theorem exists_walk (h : ir.Numbered es n n') (level scope k : Nat) :
    ∃ vs, ir.Walk level scope k es vs ∧ entered vs = List.range' n (n' - n) := by
  induction h generalizing level scope k with
  | @nil n => exact ⟨[], .nil, by rw [Nat.sub_self]; rfl⟩
  | @plain e es n n' he _ ih =>
    obtain ⟨vs, hvs, hids⟩ := ih level scope (k + 1)
    refine ⟨⟨level, scope, k, e⟩ :: vs, .plain he hvs, ?_⟩
    rw [entered_of_plain he, hids]
  | @nested e es n m n' he hin hes ih ih' =>
    obtain ⟨us, hus, hin'⟩ := ih (level + 1) n 0
    obtain ⟨vs, hvs, hes'⟩ := ih' level scope (k + 1)
    refine ⟨⟨level, scope, k, e⟩ :: (us ++ vs), .nested he hus hvs, ?_⟩
    rw [entered_of_nested he, entered_append, hin', hes']
    have hlt := hin.le
    have hle := hes.le
    rw [show n' - n = (m - (n + 1) + (n' - m)) + 1 by omega, List.range'_succ, ← List.range'_append_1]
    congr 3
    omega

end Numbered

/-! ### The dump -/

/-- The lines of an entry, with those of the scopes inside it as far as `fuel` levels down. -/
def entryLines (ir : Ir) (fuel i : Nat) (e : Entry) : List Dump.Line :=
  e.lines i ++ (e.inner?.map (ir.scopeLines fuel (i + 1))).getD []

theorem scopeLines_succ (ir : Ir) (fuel i : Nat) (id : ScopeId) :
    ir.scopeLines (fuel + 1) i id = (ir.scope id).entries.toList.flatMap (ir.entryLines fuel i) := by
  unfold scopeLines
  congr 1
  funext e
  cases e <;> simp [entryLines, Entry.lines, Entry.inner?]

/-- The dump has the lines of the entries that a walk meets, in the same order; as many levels as there are scopes are
enough. -/
theorem Numbered.lines_eq (h : ir.Numbered es n n') (hw : ir.Walk level scope k es vs) {fuel : Nat}
    (hfuel : n' - n ≤ fuel) : es.flatMap (ir.entryLines fuel level) = vs.flatMap Visit.lines := by
  induction h generalizing level scope k vs fuel with
  | nil =>
    cases hw
    rfl
  | @plain e es n n' he _ ih =>
    cases hw with
    | plain _ hw =>
      rw [List.flatMap_cons, List.flatMap_cons, ih hw hfuel]
      simp [entryLines, he, Visit.lines]
    | nested he' => rw [he] at he'; cases he'
  | @nested e es n m n' he hin hes ih ih' =>
    have hlt := hin.le
    have hle := hes.le
    cases hw with
    | plain he' => rw [he] at he'; cases he'
    | nested he' hin' hw =>
      cases he.symm.trans he'
      obtain ⟨fuel, rfl⟩ : ∃ f, fuel = f + 1 := ⟨fuel - 1, by omega⟩
      have hinner := ih hin' (show m - (n + 1) ≤ fuel by omega)
      rw [List.flatMap_cons, List.flatMap_cons, List.flatMap_append, ih' hw (by omega), ← hinner,
        ← List.append_assoc]
      simp [entryLines, he, scopeLines_succ, Visit.lines]

end Ir

end Scriptlet
