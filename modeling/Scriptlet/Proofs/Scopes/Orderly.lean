import Mathlib.Data.List.Induction
import Scriptlet.Proofs.Frame.Steps
import Scriptlet.Proofs.Ir.WellFormed

/-!
# Scopes in order

A scope says three times what it declares: by its bindings, by the catalogue of the latest ones, and by its entries.
`Scope.Orderly` says that the three agree, `Ir.Orderly` that they do in every scope and that every scope lies in an
older one.  Both keep account of what each scope began with, its parameters or loop variable.

A check takes only steps that fit (`Ir.Fits`), and a step that fits leaves everything in order (`Ir.Orderly.apply`);
so does a run of them, from the first on (`Ir.Orderly.applyAll`).
-/

namespace Scriptlet

/-! ### The catalogue of names -/

/-- A name that occurs has a last occurrence. -/
private theorem exists_lastAt {name : String} {names : List String} (h : name ∈ names) : ∃ i, LastAt name names i := by
  induction names using List.reverseRecOn with
  | nil => cases h
  | append_singleton names other ih =>
    by_cases ho : other = name
    · subst ho
      exact ⟨names.length, LastAt.append_self other names⟩
    · have hmem : name ∈ names := by simpa [Ne.symm ho] using h
      obtain ⟨i, hi⟩ := ih hmem
      exact ⟨i, LastAt.append_other ho hi⟩

private theorem mem_iff_lookup {vs : List (String × Nat)} (h : (vs.map Prod.fst).Nodup) (name : String) (i : Nat) :
    (name, i) ∈ vs ↔ vs.lookup name = some i := by
  induction vs with
  | nil => simp
  | cons v vs ih =>
    obtain ⟨n, k⟩ := v
    obtain ⟨hn, hvs⟩ := List.nodup_cons.1 h
    by_cases he : name = n
    · subst he
      -- the name occurs at the head only
      have habsent : (name, i) ∉ vs := fun hmem => hn (List.mem_map.2 ⟨_, hmem, rfl⟩)
      simp [habsent, eq_comm]
    · rw [List.lookup_cons, beq_false_of_ne he, ← ih hvs]
      simp [he]

namespace Scope

variable {s t : Scope} {name : String} {begun : List (String × Var)} {e : Entry} {i : Nat}

/-- The catalogue of a scope lists the names of its bindings, each once and with the position of the last binding. -/
structure Catalogued (s : Scope) : Prop where
  nodup : (s.visible.map Prod.fst).Nodup
  mem_iff : ∀ name i, (name, i) ∈ s.visible ↔ LastAt name s.names i

private theorem Catalogued.lookup_iff (h : s.Catalogued) : s.visible.lookup name = some i ↔ LastAt name s.names i :=
  (mem_iff_lookup h.nodup name i).symm.trans (h.mem_iff name i)

private theorem Catalogued.indexed (h : s.Catalogued) : s.Indexed where
  last _ _ hl := h.lookup_iff.1 hl
  unbound name hl hmem := by
    obtain ⟨i, hi⟩ := exists_lastAt hmem
    rw [h.lookup_iff.2 hi] at hl
    cases hl

/-- A scope that finds its names by the latest bindings lists them all. -/
private theorem Indexed.catalogued (h : s.Indexed) (hnodup : (s.visible.map Prod.fst).Nodup) : s.Catalogued where
  nodup := hnodup
  mem_iff name i := by
    rw [mem_iff_lookup hnodup]
    refine ⟨h.last name i, fun hi => ?_⟩
    cases hl : s.visible.lookup name with
    | none => exact absurd hi.mem (h.unbound name hl)
    | some j => rw [(h.last name j hl).unique hi]

private theorem mem_keys_setVisible {other : String} {vs : List (String × Nat)}
    (h : other ∈ (setVisible name i vs).map Prod.fst) : other = name ∨ other ∈ vs.map Prod.fst := by
  induction vs with
  | nil => simpa [setVisible] using h
  | cons v vs ih =>
    obtain ⟨n, k⟩ := v
    unfold setVisible at h
    by_cases hn : n = name
    · rw [if_pos hn] at h
      exact Or.inr h
    · rw [if_neg hn] at h
      rcases List.mem_cons.1 h with rfl | h
      · exact Or.inr List.mem_cons_self
      · exact (ih h).imp_right (List.mem_cons_of_mem n)

private theorem nodup_keys_setVisible {vs : List (String × Nat)} (h : (vs.map Prod.fst).Nodup) :
    ((setVisible name i vs).map Prod.fst).Nodup := by
  induction vs with
  | nil => simp [setVisible]
  | cons v vs ih =>
    obtain ⟨n, k⟩ := v
    obtain ⟨hn, hvs⟩ := List.nodup_cons.1 h
    unfold setVisible
    by_cases he : n = name
    · rw [if_pos he]
      exact h
    · rw [if_neg he]
      refine List.nodup_cons.2 ⟨fun hmem => ?_, ih hvs⟩
      rcases mem_keys_setVisible hmem with hmem | hmem
      · exact he hmem
      · exact hn hmem

private theorem catalogued_empty (parent : Option ScopeId) (func : Option String) : (empty parent func).Catalogued :=
  (indexed_empty parent func).catalogued (by simp [empty])

private theorem Catalogued.push (h : s.Catalogued) (e : Entry) : (s.push e).Catalogued := ⟨h.nodup, h.mem_iff⟩

private theorem Catalogued.bind (h : s.Catalogued) (name : String) (var : Var) : (s.bind name var).Catalogued :=
  (h.indexed.bind name var).catalogued (nodup_keys_setVisible h.nodup)

private theorem Catalogued.bindAll (h : s.Catalogued) (born : List (String × Var)) : (s.bindAll born).Catalogued := by
  induction born generalizing s with
  | nil => exact h
  | cons b born ih => exact ih (h.bind b.1 b.2)

/-! ### Scopes -/

/-- The variables that the entries of a scope declare, in order. -/
def declared (s : Scope) : List (String × Var) := s.entries.toList.filterMap Entry.declared?

/-- The bindings, the catalogue and the entries of a scope agree: the bindings are what the scope began with, all of
it parameters or loop variables, and then what its entries declare, none of which is either. -/
structure Orderly (begun : List (String × Var)) (s : Scope) : Prop where
  catalogued : s.Catalogued
  bindings : s.bindings.toList = begun ++ s.declared
  begun : ∀ b ∈ begun, b.2.value.isArg = true
  declared : ∀ b ∈ s.declared, b.2.value.isArg = false

private theorem Orderly.born_eq (h : s.Orderly begun) : s.born = begun := by
  have hbegun : begun.filter (·.2.value.isArg) = begun := List.filter_eq_self.2 h.begun
  have hdeclared : s.declared.filter (·.2.value.isArg) = [] := by
    refine List.filter_eq_nil_iff.2 fun b hb harg => ?_
    rw [h.declared b hb] at harg
    cases harg
  rw [Scope.born, h.bindings, List.filter_append, hbegun, hdeclared, List.append_nil]

private theorem orderly_empty (parent : Option ScopeId) (func : Option String) : (empty parent func).Orderly [] where
  catalogued := catalogued_empty parent func
  bindings := rfl
  begun _ hb := by cases hb
  declared _ hb := by cases hb

/-- A scope just begun. -/
private theorem orderly_bindAll (parent : Option ScopeId) (func : Option String)
    (h : ∀ b ∈ begun, b.2.value.isArg = true) : ((empty parent func).bindAll begun).Orderly begun := by
  have hdeclared : ((empty parent func).bindAll begun).declared = [] := by
    rw [Scope.declared, entries_bindAll]
    rfl
  refine ⟨(catalogued_empty parent func).bindAll begun, ?_, h, fun b hb => ?_⟩
  · rw [bindings_bindAll, hdeclared, List.append_nil]
    rfl
  · rw [hdeclared] at hb
    cases hb

private theorem declared_push (s : Scope) (e : Entry) : (s.push e).declared = s.declared ++ e.declared?.toList := by
  cases he : e.declared? <;> simp [Scope.declared, push, he]

/-- An entry that declares nothing. -/
private theorem Orderly.push (h : s.Orderly begun) (he : e.declared? = none) : (s.push e).Orderly begun := by
  have hdeclared : (s.push e).declared = s.declared := by simp [declared_push, he]
  refine ⟨h.catalogued.push e, ?_, h.begun, ?_⟩
  · rw [hdeclared]
    exact h.bindings
  · rw [hdeclared]
    exact h.declared

/-- A declaration: an entry, and the binding of its name. -/
private theorem Orderly.declare (h : s.Orderly begun) (name : String) {var : Var} (hvar : var.value.isArg = false) :
    ((s.push (.newVar name var)).bind name var).Orderly begun := by
  have hdeclared : ((s.push (.newVar name var)).bind name var).declared = s.declared ++ [(name, var)] :=
    declared_push s (.newVar name var)
  refine ⟨(h.catalogued.push _).bind name var, ?_, h.begun, fun b hb => ?_⟩
  · rw [hdeclared, ← List.append_assoc, ← h.bindings]
    exact Array.toList_push
  · rw [hdeclared, List.mem_append, List.mem_singleton] at hb
    rcases hb with hb | rfl
    · exact h.declared b hb
    · exact hvar

end Scope

/-! ### Representations -/

namespace Ir

variable {ir : Ir} {begun : List (List (String × Var))} {step : Step} {steps rest : List Step} {id : Nat}

/-- What the scope that a step opens begins with. -/
def Step.begins? : Step → Option (List (String × Var))
  | .openScope _ _ _ _ born => some born
  | .register .. | .declare .. | .act .. | .closeScope .. => none

/-- The step may be taken next.  A scope gets the next number, lies in one that is there, and begins with parameters
or a loop variable; what is declared is neither.  A scope takes its place in the scope it lies in, under the names
that it began with. -/
def Fits (ir : Ir) : Step → Prop
  | .openScope id _ parent _ born =>
    id = ir.scopes.size ∧ parent < ir.scopes.size ∧ ∀ b ∈ born, b.2.value.isArg = true
  | .declare _ _ var => var.value.isArg = false
  | .closeScope id _ parent names _ =>
    (ir.scope id).parent = some parent ∧ names = (ir.scope id).born.map Prod.fst
  | .register .. | .act .. => True

private theorem Fits.valued (h : ir.Fits step) : step.Valued := by
  cases step with
  | declare scope name var => exact h
  | register | openScope | act | closeScope => exact trivial

/-- Every scope is in order and lies in an older one, all but the root; `begun` is what each of them began with, by
their numbers.  The entry that stands for a scope is in the scope around it, and names what the scope began with. -/
structure Orderly (ir : Ir) (begun : List (List (String × Var))) : Prop where
  size : ir.scopes.size = begun.length
  scope : ∀ id born, begun[id]? = some born → (ir.scope id).Orderly born
  begunRoot : begun[ScopeId.root]? = some []
  root : (ir.scope .root).parent = none
  parent : ∀ id : Nat, id ≠ ScopeId.root → id < ir.scopes.size →
    ∃ outer : Nat, outer < id ∧ (ir.scope id).parent = some outer
  entry : ∀ (id : Nat) kind names guard inner, .scoped kind names guard inner ∈ (ir.scope id).entries →
    (ir.scope inner).parent = some id ∧ ∃ born, begun[inner]? = some born ∧ names = born.map Prod.fst

namespace Orderly

theorem root_lt (h : ir.Orderly begun) : ScopeId.root < ir.scopes.size := by
  obtain ⟨hlt, -⟩ := List.getElem?_eq_some_iff.1 h.begunRoot
  exact Nat.lt_of_lt_of_eq hlt h.size.symm

private theorem exists_begun (h : ir.Orderly begun) (hlt : id < ir.scopes.size) : ∃ born, begun[id]? = some born :=
  ⟨_, List.getElem?_eq_getElem (h.size ▸ hlt)⟩

theorem nested (h : ir.Orderly begun) : ir.Nested := by
  intro id parent hp
  by_cases hroot : id = ScopeId.root
  · rw [hroot, h.root] at hp
    cases hp
  · obtain ⟨outer, hlt, houter⟩ := h.parent id hroot (lt_of_parent hp)
    cases houter.symm.trans hp
    exact hlt

private theorem indexed (h : ir.Orderly begun) (id : Nat) : (ir.scope id).Indexed := by
  rcases Nat.lt_or_ge id ir.scopes.size with hlt | hge
  · obtain ⟨born, hborn⟩ := h.exists_begun hlt
    exact (h.scope id born hborn).catalogued.indexed
  · rw [scope_of_size_le hge]
    exact Scope.indexed_empty none none

/-- Scopes in order are nested and find their names. -/
theorem wellFormed (h : ir.Orderly begun) : ir.WellFormed := ⟨h.nested, h.indexed⟩

/-- At the beginning there is only the root, which begins with nothing. -/
theorem initial : Ir.initial.Orderly [[]] where
  size := rfl
  scope id born hb := by
    cases id with
    | zero =>
      cases hb
      exact Scope.orderly_empty none none
    | succ id => simp at hb
  begunRoot := rfl
  root := rfl
  parent id hroot hlt := by
    have hsize : Ir.initial.scopes.size = 1 := rfl
    exact absurd (Nat.lt_one_iff.1 (hsize ▸ hlt)) hroot
  entry id kind names guard inner he := by
    rw [scope_initial] at he
    simp [Scope.empty] at he

/-! ### Steps -/

/-- A change to one scope that keeps it in order, keeps its parent, and adds at most an entry for a scope that lies
in it. -/
private theorem modifyScope (h : ir.Orderly begun) {f : Scope → Scope} (hparent : ∀ s, (f s).parent = s.parent)
    (hf : ∀ (s : Scope) born, s.Orderly born → (f s).Orderly born)
    (hentry : ∀ (s : Scope) kind names guard inner, .scoped kind names guard inner ∈ (f s).entries →
      .scoped kind names guard inner ∈ s.entries ∨
        (ir.scope inner).parent = some id ∧ ∃ born, begun[inner]? = some born ∧ names = born.map Prod.fst) :
    (ir.modifyScope id f).Orderly begun := by
  have hparents (other : Nat) : ((ir.modifyScope id f).scope other).parent = (ir.scope other).parent := by
    rcases scope_modifyScope ir id other f with ⟨rfl, -, ho⟩ | ho
    · rw [ho, hparent]
    · rw [ho]
  refine ⟨(size_modifyScope ir id f).trans h.size, fun other born hborn => ?_, h.begunRoot,
    (hparents ScopeId.root).trans h.root, fun other hroot hlt => ?_, fun other kind names guard inner he => ?_⟩
  · rcases scope_modifyScope ir id other f with ⟨rfl, -, ho⟩ | ho
    · rw [ho]
      exact hf _ born (h.scope other born hborn)
    · rw [ho]
      exact h.scope other born hborn
  · rw [hparents]
    exact h.parent other hroot (Nat.lt_of_lt_of_eq hlt (size_modifyScope ir id f))
  · rw [hparents]
    rcases scope_modifyScope ir id other f with ⟨rfl, -, ho⟩ | ho
    · rw [ho] at he
      rcases hentry _ kind names guard inner he with he | he
      · exact h.entry other kind names guard inner he
      · exact he
    · rw [ho] at he
      exact h.entry other kind names guard inner he

private theorem declare (h : ir.Orderly begun) (name : String) {var : Var} (hvar : var.value.isArg = false) :
    (ir.apply (.declare id name var)).Orderly begun := by
  refine h.modifyScope (f := fun s => (s.push (.newVar name var)).bind name var) (fun _ => rfl)
    (fun _ _ hs => hs.declare name hvar) fun s kind names guard inner he => Or.inl ?_
  have hpush : .scoped kind names guard inner ∈ s.entries.push (.newVar name var) := he
  simpa using hpush

private theorem act (h : ir.Orderly begun) (op : String) (args : List Var) :
    (ir.apply (.act id op args)).Orderly begun := by
  refine h.modifyScope (f := fun s => s.push (.action op args)) (fun _ => rfl) (fun _ _ hs => hs.push rfl)
    fun s kind names guard inner he => Or.inl ?_
  have hpush : .scoped kind names guard inner ∈ s.entries.push (.action op args) := he
  simpa using hpush

private theorem closeScope (h : ir.Orderly begun) {outer : Nat} {kind : ScopeKind} {names : List String}
    (guard : Option Value) (hparent : (ir.scope id).parent = some outer)
    (hnames : names = (ir.scope id).born.map Prod.fst) :
    (ir.apply (.closeScope id kind outer names guard)).Orderly begun := by
  refine h.modifyScope (f := fun s => s.push (.scoped kind names guard id)) (fun _ => rfl)
    (fun _ _ hs => hs.push rfl) fun s kind' names' guard' inner he => ?_
  have hpush : .scoped kind' names' guard' inner ∈ s.entries.push (.scoped kind names guard id) := he
  rcases Array.mem_push.1 hpush with he | he
  · exact Or.inl he
  · cases he
    obtain ⟨born, hborn⟩ := h.exists_begun (lt_of_parent hparent)
    rw [(h.scope id born hborn).born_eq] at hnames
    exact Or.inr ⟨hparent, born, hborn, hnames⟩

private theorem openScope (h : ir.Orderly begun) {outer : Nat} (hlt : outer < ir.scopes.size) (func : Option String)
    {born : List (String × Var)} (hborn : ∀ b ∈ born, b.2.value.isArg = true) :
    (ir.openScope outer func born).Orderly (begun ++ [born]) := by
  have hold {id : Nat} (hid : id < ir.scopes.size) : (ir.openScope outer func born).scope id = ir.scope id :=
    scope_openScope_of_ne (Nat.ne_of_lt hid) outer func born
  have hbegun {id : Nat} {b : List (String × Var)} (hb : begun[id]? = some b) : (begun ++ [born])[id]? = some b := by
    obtain ⟨hid, -⟩ := List.getElem?_eq_some_iff.1 hb
    rw [List.getElem?_append_left hid, hb]
  refine ⟨by simp [h.size], fun id b hb => ?_, hbegun h.begunRoot, ?_, fun id hroot hid => ?_,
    fun id kind names guard inner he => ?_⟩
  · rcases Nat.lt_trichotomy id begun.length with hid | rfl | hid
    · rw [List.getElem?_append_left hid] at hb
      rw [hold (h.size ▸ hid)]
      exact h.scope id b hb
    · rw [List.getElem?_append_right (Nat.le_refl _)] at hb
      cases (by simpa using hb : born = b)
      rw [← h.size, scope_openScope_self]
      exact Scope.orderly_bindAll _ _ hborn
    · rw [List.getElem?_eq_none (by simp; omega)] at hb
      cases hb
  · rw [hold h.root_lt]
    exact h.root
  · rcases scope_openScope ir id outer func born with ⟨rfl, ho⟩ | ⟨hne, ho⟩
    · exact ⟨outer, hlt, by rw [ho, Scope.parent_bindAll]; rfl⟩
    · rw [ho]
      rw [size_openScope] at hid
      exact h.parent id hroot (by omega)
  · rw [entries_openScope] at he
    obtain ⟨hparent, b, hb, hnames⟩ := h.entry id kind names guard inner he
    refine ⟨?_, b, hbegun hb, hnames⟩
    rw [hold (lt_of_parent hparent)]
    exact hparent

/-- A step that fits leaves everything in order. -/
theorem apply (h : ir.Orderly begun) (hs : ir.Fits step) :
    (ir.apply step).Orderly (begun ++ step.begins?.toList) := by
  cases step with
  | openScope id kind outer func born =>
    obtain ⟨-, hlt, hborn⟩ := hs
    exact h.openScope hlt func hborn
  | declare id name var =>
    rw [show (Step.declare id name var).begins?.toList = [] from rfl, List.append_nil]
    exact h.declare name hs
  | act id op args =>
    rw [show (Step.act id op args).begins?.toList = [] from rfl, List.append_nil]
    exact h.act op args
  | closeScope id kind outer names guard =>
    rw [show (Step.closeScope id kind outer names guard).begins?.toList = [] from rfl, List.append_nil]
    obtain ⟨hparent, hnames⟩ := hs
    exact h.closeScope guard hparent hnames
  | register name signature =>
    rw [show (Step.register name signature).begins?.toList = [] from rfl, List.append_nil]
    exact ⟨h.size, h.scope, h.begunRoot, h.root, h.parent, h.entry⟩

end Orderly

/-! ### Runs -/

/-- Each of the steps fits when it is taken. -/
def FitsAll (ir : Ir) : List Step → Prop
  | [] => True
  | step :: steps => ir.Fits step ∧ (ir.apply step).FitsAll steps

/-- Steps fit a representation if the first ones do and the others fit what these make of it. -/
theorem fitsAll_append : ir.FitsAll (steps ++ rest) ↔ ir.FitsAll steps ∧ (ir.applyAll steps).FitsAll rest := by
  induction steps generalizing ir with
  | nil => exact (iff_of_eq (true_and _)).symm
  | cons step steps ih =>
    show ir.Fits step ∧ (ir.apply step).FitsAll (steps ++ rest) ↔ _
    rw [ih, ← and_assoc]
    rfl

theorem FitsAll.valued (h : ir.FitsAll steps) : ∀ step ∈ steps, step.Valued := by
  induction steps generalizing ir with
  | nil =>
    intro step hs
    cases hs
  | cons first steps ih =>
    intro step hs
    obtain ⟨hfirst, hrest⟩ := h
    rcases List.mem_cons.1 hs with rfl | hs
    · exact hfirst.valued
    · exact ih hrest step hs

/-- Steps that fit leave everything in order, one after the other. -/
theorem Orderly.applyAll (h : ir.Orderly begun) (hs : ir.FitsAll steps) :
    (ir.applyAll steps).Orderly (begun ++ steps.filterMap Step.begins?) := by
  induction steps generalizing ir begun with
  | nil =>
    rw [List.filterMap_nil, List.append_nil]
    exact h
  | cons step steps ih =>
    obtain ⟨hfits, hrest⟩ := hs
    have hstep := ih (h.apply hfits) hrest
    have hbegun : begun ++ step.begins?.toList ++ steps.filterMap Step.begins? =
        begun ++ (step :: steps).filterMap Step.begins? := by
      cases hb : step.begins? <;> simp [hb]
    rw [hbegun] at hstep
    exact hstep

end Ir

end Scriptlet
