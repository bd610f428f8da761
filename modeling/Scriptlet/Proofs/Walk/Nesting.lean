import Scriptlet.Proofs.Typing.Traversal

/-!
# Nested scopes and their functions

`typecheck_nests`: in the representation of a program that is accepted, a scope lies in the scope whose entry opens it,
and belongs to the same function, unless the entry is for a function.  That function is in the table, with the
parameters that its scope begins with, and it begins with no other scope.

A scope is opened some time before it gets its entry, so the invariant `Building.Nests` speaks of open scopes as well.
What it says of a scope is settled when that is opened (`Ir.Lies.grow`).
-/

namespace Scriptlet

namespace Ir

variable {ir ir' : Ir} {scope id id' : Nat} {kind : ScopeKind} {born : List String} {name : String}

/-- The function begins with the scope, which belongs to it, while the scope around it does not. -/
def Begins (ir : Ir) (name : String) (id : Nat) : Prop :=
  (ir.scope id).func = some name ∧
    ∃ parent : Nat, (ir.scope id).parent = some parent ∧ (ir.scope parent).func ≠ some name

/-- A scope of a kind lies in the scope `scope` and begins with variables of these names. -/
structure Lies (ir : Ir) (scope : Nat) (kind : ScopeKind) (born : List String) (id : Nat) : Prop where
  parent : (ir.scope id).parent = some scope
  born : (ir.scope id).born.map Prod.fst = born
  inherits : kind ≠ .func → (ir.scope id).func = (ir.scope scope).func
  begins : kind = .func → (∃ name, ir.Begins name id) ∧
    ∃ signature, ir.Signed id signature ∧ signature.args = (ir.scope id).born.map (·.2.ty)

/-- Every entry for a scope says rightly where and what that is, and no function begins twice. -/
structure Nests (ir : Ir) : Prop where
  lies : ∀ (scope : Nat) (kind : ScopeKind) (born : List String) (guard : Option Value) (id : Nat),
    .scoped kind born guard id ∈ (ir.scope scope).entries → ir.Lies scope kind born id
  once : ∀ name id id', ir.Begins name id → ir.Begins name id' → id = id'

/-! ### Growth -/

private theorem Begins.grow (h : ir.Begins name id) (hn : ir.Nested) (hg : ir.Grows ir') : ir'.Begins name id := by
  obtain ⟨hfunc, parent, hp, hout⟩ := h
  have hid := lt_of_parent hp
  have hparent : parent < ir.scopes.size := Nat.lt_trans (hn id parent hp) hid
  refine ⟨(hg.scope id hid).func.trans hfunc, parent, (hg.scope id hid).parent.trans hp, ?_⟩
  rwa [(hg.scope parent hparent).func]

/-- Growth does not move a scope. -/
theorem Lies.grow (h : ir.Lies scope kind born id) (hn : ir.Nested) (hg : ir.Grows ir') :
    ir'.Lies scope kind born id := by
  have hid := lt_of_parent h.parent
  have hscope : scope < ir.scopes.size := Nat.lt_trans (hn id scope h.parent) hid
  have hext := hg.scope id hid
  refine ⟨hext.parent.trans h.parent, hext.born ▸ h.born, fun hk => ?_, fun hk => ?_⟩
  · rw [hext.func, (hg.scope scope hscope).func]
    exact h.inherits hk
  · obtain ⟨⟨name, hbegins⟩, signature, hs, hargs⟩ := h.begins hk
    exact ⟨⟨name, hbegins.grow hn hg⟩, signature, hg.signed hid hs, hext.born ▸ hargs⟩

/-! ### A new scope -/

private theorem parent_openScope (ir : Ir) (parent : Nat) (func : Option String) (born : List (String × Var)) :
    ((ir.openScope parent func born).scope ir.scopes.size).parent = some parent := by
  rw [scope_openScope_self, Scope.parent_bindAll]
  rfl

private theorem func_openScope (ir : Ir) (parent : Nat) (func : Option String) (born : List (String × Var)) :
    ((ir.openScope parent func born).scope ir.scopes.size).func = (func <|> (ir.scope parent).func) := by
  rw [scope_openScope_self, Scope.func_bindAll]
  rfl

/-- The scope of a function that has just entered the table. -/
private theorem lies_openFunc (hfree : ir.ops.contains name = false) {parent : Nat} (hlt : parent < ir.scopes.size)
    (hout : (ir.scope parent).func ≠ some name) {signature : Signature} {born : List (String × Var)}
    (hborn : ∀ b ∈ born, b.2.value.isArg = true) (hargs : signature.args = born.map (·.2.ty)) :
    ((ir.apply (.register name signature)).openScope parent (some name) born).Lies parent .func (born.map Prod.fst)
      ir.scopes.size := by
  let registered := ir.apply (.register name signature)
  have hb : ((registered.openScope parent (some name) born).scope ir.scopes.size).born = born :=
    born_openScope registered parent (some name) hborn
  have hp := parent_openScope registered parent (some name) born
  have hparent : (registered.openScope parent (some name) born).scope parent = ir.scope parent :=
    scope_openScope_of_ne (Nat.ne_of_lt hlt) parent (some name) born
  refine ⟨hp, congrArg (List.map Prod.fst) hb, fun hk => absurd rfl hk,
    fun _ => ⟨⟨name, ?_, parent, hp, ?_⟩, signature, ?_, ?_⟩⟩
  · exact func_openScope registered parent (some name) born
  · rwa [hparent]
  · exact signed_openFunc hfree signature parent born
  · rw [hb]
    exact hargs

/-- The scope of a block, inside a function. -/
private theorem lies_openBlock {parent : Nat} (hlt : parent < ir.scopes.size) {born : List (String × Var)}
    (hborn : ∀ b ∈ born, b.2.value.isArg = true) (hk : kind ≠ .func) :
    (ir.openScope parent none born).Lies parent kind (born.map Prod.fst) ir.scopes.size := by
  refine ⟨parent_openScope ir parent none born, congrArg (List.map Prod.fst) (born_openScope ir parent none hborn),
    fun _ => ?_, fun h => absurd h hk⟩
  rw [func_openScope, scope_openScope_of_ne (Nat.ne_of_lt hlt)]
  rfl

end Ir

/-- No guard is for a function. -/
private theorem Guard.kind_ne {T : Value → Ty → Prop} {kind : ScopeKind} {born : List (String × Var)}
    {guard : Option Value} (h : Guard T kind born guard) : kind ≠ .func := by
  cases h <;> simp

variable {P : String → Prop} {ir ir' : Ir} {frames : List Frame} {name : String}

/-- The open scopes lie in each other as their frames say. -/
inductive Opened (ir : Ir) : List Frame → Prop where
  | root : Opened ir []
  | inner {f : Frame} {frames : List Frame} (h : ir.Lies (current frames) f.kind (f.born.map Prod.fst) f.id) :
    Opened ir frames → Opened ir (f :: frames)

private theorem Opened.grow (h : Opened ir frames) (hn : ir.Nested) (hg : ir.Grows ir') : Opened ir' frames := by
  induction h with
  | root => exact .root
  | inner h _ ih => exact .inner (h.grow hn hg) ih

/-! ### The invariant -/

/-- The scopes so far nest; they belong to functions of the table. -/
structure Building.Nests (b : Building) : Prop where
  coherent : b.Coherent
  known : ∀ (id : Nat) name, (b.ir.scope id).func = some name → b.ir.ops.contains name = true
  opened : Opened b.ir b.frames
  nests : b.ir.Nests

private theorem nests_initial : Building.Nests ⟨.initial, []⟩ := by
  refine ⟨coherent_initial, fun id name hf => ?_, .root, fun scope kind born guard id he => ?_,
    fun name id id' h => ?_⟩
  · rw [Ir.scope_initial] at hf
    cases hf
  · rw [Ir.scope_initial] at he
    simp [Scope.empty] at he
  · obtain ⟨hf, -⟩ := h
    rw [Ir.scope_initial] at hf
    cases hf

namespace Building.Nests

/-- A new entry, for a scope that lies where the entry is or for none. -/
private theorem add (h : Building.Nests ⟨ir, frames⟩) {left : List Frame} {target : Nat} {f : Scope → Scope} {e : Entry}
    (hf : ∀ s, Scope.Adds e s (f s)) (hc : Building.Coherent ⟨ir.modifyScope target f, left⟩) (ho : Opened ir left)
    (he : ∀ kind born guard id, e = .scoped kind born guard id → ir.Lies target kind born id) :
    Building.Nests ⟨ir.modifyScope target f, left⟩ := by
  have hg : ir.Grows (ir.modifyScope target f) := Ir.grows_modifyScope ir target fun s => (hf s).extends
  have hn := h.coherent.wellFormed.nested
  have hsame (id : Nat) : ((ir.modifyScope target f).scope id).func = (ir.scope id).func ∧
      ((ir.modifyScope target f).scope id).parent = (ir.scope id).parent := by
    rcases Ir.scope_modifyScope ir target id f with ⟨rfl, -, ho⟩ | ho
    · rw [ho]
      exact ⟨(hf _).func, (hf _).parent⟩
    · rw [ho]
      exact ⟨rfl, rfl⟩
  have hbegins {name : String} {id : Nat} (hb : (ir.modifyScope target f).Begins name id) : ir.Begins name id := by
    obtain ⟨hfunc, parent, hp, hout⟩ := hb
    exact ⟨(hsame id).1 ▸ hfunc, parent, (hsame id).2 ▸ hp, (hsame parent).1 ▸ hout⟩
  refine ⟨hc, fun id name hid => h.known id name ((hsame id).1 ▸ hid), ho.grow hn hg,
    fun scope kind born guard id hmem => ?_,
    fun name id id' hb hb' => h.nests.once name id id' (hbegins hb) (hbegins hb')⟩
  rcases Ir.scope_modifyScope ir target scope f with ⟨rfl, -, ho⟩ | ho
  · rw [ho, (hf _).entries] at hmem
    rcases Array.mem_push.1 hmem with hmem | heq
    · exact (h.nests.lies _ kind born guard id hmem).grow hn hg
    · exact (he kind born guard id heq.symm).grow hn hg
  · rw [ho] at hmem
    exact (h.nests.lies scope kind born guard id hmem).grow hn hg

/-- A new scope, which belongs to the function of the scope around it or to one that no scope belongs to. -/
private theorem openScope (h : Building.Nests ⟨ir, frames⟩) {func : Option String} {born : List (String × Var)}
    {f : Frame} (hc : Building.Coherent ⟨ir.openScope (current frames) func born, f :: frames⟩)
    (hknown : ∀ name ∈ func, ir.ops.contains name = true)
    (hnew : ∀ name ∈ func, ∀ id : Nat, (ir.scope id).func ≠ some name)
    (hlies : (ir.openScope (current frames) func born).Lies (current frames) f.kind (f.born.map Prod.fst) f.id) :
    Building.Nests ⟨ir.openScope (current frames) func born, f :: frames⟩ := by
  have hg := Ir.grows_openScope ir (current frames) func born
  have hn := h.coherent.wellFormed.nested
  have hbegins {name : String} {id : Nat} (hb : (ir.openScope (current frames) func born).Begins name id) :
      id = ir.scopes.size ∧ func = some name ∨ ir.Begins name id := by
    obtain ⟨hfunc, parent, hp, hout⟩ := hb
    rcases Ir.scope_openScope ir id (current frames) func born with ⟨rfl, -⟩ | ⟨hne, ho⟩
    · have hcurrent : parent = current frames := by
        rw [Ir.scope_openScope_self, Scope.parent_bindAll] at hp
        cases hp
        rfl
      rw [hcurrent, Ir.scope_openScope_of_ne (Nat.ne_of_lt h.coherent.chain.current_lt)] at hout
      rw [Ir.func_openScope] at hfunc
      cases func with
      | none => exact absurd hfunc hout
      | some g => exact .inl ⟨rfl, hfunc⟩
    · rw [ho] at hfunc hp
      have hlt : parent < ir.scopes.size := Nat.lt_trans (hn id parent hp) (Ir.lt_of_parent hp)
      rw [Ir.scope_openScope_of_ne (Nat.ne_of_lt hlt)] at hout
      exact .inr ⟨hfunc, parent, hp, hout⟩
  refine ⟨hc, fun id name hfunc => ?_, .inner hlies (h.opened.grow hn hg), fun scope kind born' guard id he => ?_,
    fun name id id' hb hb' => ?_⟩
  · rcases Ir.scope_openScope ir id (current frames) func born with ⟨rfl, -⟩ | ⟨-, ho⟩
    · rw [Ir.func_openScope] at hfunc
      cases func with
      | none => exact h.known _ _ hfunc
      | some g =>
        cases hfunc
        exact hknown name rfl
    · rw [ho] at hfunc
      exact h.known id name hfunc
  · rw [Ir.entries_openScope] at he
    exact (h.nests.lies scope kind born' guard id he).grow hn hg
  · rcases hbegins hb with ⟨rfl, hfunc⟩ | hb <;> rcases hbegins hb' with ⟨rfl, hfunc'⟩ | hb'
    · rfl
    · exact absurd hb'.1 (hnew name hfunc id')
    · exact absurd hb.1 (hnew name hfunc' id)
    · exact h.nests.once name id id' hb hb'

end Building.Nests

private theorem Move.nests {b b' : Building} (hb : b.Nests) (h : Move P b b') : b'.Nests := by
  have hc := h.coherent hb.coherent
  cases h with
  | @declare ir frames name v ty span mutable hv _ =>
    exact hb.add (fun s => s.adds_declare name hv.isArg ty span mutable) hc hb.opened fun _ _ _ _ he => nomatch he
  | @act ir frames op args _ =>
    exact hb.add (fun s => s.adds_push (e := .action op args) rfl) hc hb.opened fun _ _ _ _ he => nomatch he
  | @func ir frames name signature born hfree _ hborn hargs =>
    have hg := Ir.grows_register hfree signature
    have hn := hb.coherent.wellFormed.nested
    -- no scope belongs to a function that is not in the table
    have hnew (id : Nat) : (ir.scope id).func ≠ some name := fun hf => by
      rw [hb.known id name hf] at hfree
      cases hfree
    have hregistered : Building.Nests ⟨ir.apply (.register name signature), frames⟩ := by
      refine ⟨⟨hb.coherent.wellFormed.register name signature, hb.coherent.chain.grow hg⟩, fun id other hf => ?_,
        hb.opened.grow hn hg, fun scope kind born guard id he => ?_, fun other id id' hb₁ hb₂ => ?_⟩
      · obtain ⟨o, ho⟩ := Option.isSome_iff_exists.1 (hb.known id other hf)
        exact Option.isSome_iff_exists.2 ⟨o, hg.ops other o ho⟩
      · exact (hb.nests.lies scope kind born guard id he).grow hn hg
      · exact hb.nests.once other id id' hb₁ hb₂
    have hknown : (ir.apply (.register name signature)).ops.contains name = true :=
      Option.isSome_iff_exists.2 ⟨_, Ir.get?_register hfree signature⟩
    refine hregistered.openScope hc ?_ ?_ (Ir.lies_openFunc hfree hb.coherent.chain.current_lt (hnew _) hborn hargs)
    · rintro _ ⟨⟩
      exact hknown
    · rintro _ ⟨⟩
      exact hnew
  | @block ir f frames kind born guard hguard =>
    exact hb.openScope hc (fun _ h => nomatch h) (fun _ h => nomatch h)
      (Ir.lies_openBlock hb.coherent.chain.current_lt hguard.isArg_of_mem hguard.kind_ne)
  | @close ir f frames =>
    cases hb.opened with
    | inner hlies ho =>
      refine hb.add (fun s => s.adds_push (e := .scoped f.kind (f.born.map Prod.fst) f.guard f.id) rfl) hc ho ?_
      rintro kind born guard id ⟨⟩
      exact hlies

/-- The scopes of a program that is accepted nest, and belong to its functions. -/
theorem typecheck_nests {p : Program} {ir : Ir} (h : typecheck p = .ok ir) : Building.Nests ⟨ir, []⟩ := by
  have hpath : Path (fun _ => True) ⟨.initial, []⟩ ⟨ir, []⟩ := typecheck_path (fun _ _ => trivial) h
  exact hpath.preserves (fun _ _ => Move.nests) nests_initial

end Scriptlet
