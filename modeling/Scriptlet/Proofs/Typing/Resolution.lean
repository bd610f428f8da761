import Scriptlet.Proofs.Ir.Meaning
import Scriptlet.Proofs.Typing.Traversal

/-!
# Names are resolved lexically

In the representation of a program that is accepted, every use of a name refers to the binding that the name means at
the entry with the use: `typecheck_lexical`.

The name was looked up when the entry was about to be added, with the bindings there were at the time.  The
invariant `Building.Lexical` says of every entry added so far that its names mean their bindings, and of every open
scope that it has no entry yet (`Pending`), so that looking a name up gives what it means at the next entry
(`means_of_lookup`).
-/

namespace Scriptlet

/-- A name with its binding occurs in an entry. -/
inductive Entry.Mentions (name : String) (b : BindingId) : Entry → Prop where
  | newVar {n : String} {var : Var} (h : var.value.Mentions name b) : Mentions name b (.newVar n var)
  | action {op : String} {args : List Var} {a : Var} (ha : a ∈ args) (h : a.value.Mentions name b) :
    Mentions name b (.action op args)
  | guard {kind : ScopeKind} {born : List String} {v : Value} {id : Nat} (h : v.Mentions name b) :
    Mentions name b (.scoped kind born (some v) id)

namespace Ir

variable {ir ir' : Ir} {name : String} {scope k : Nat} {b : BindingId}

/-- A use of a name before an entry refers to what the name means there, which is a binding of that name. -/
def Resolves (ir : Ir) (name : String) (scope k : Nat) (b : BindingId) : Prop :=
  ir.Means name scope k b ∧ ∃ var, ir.binding? b = some (name, var)

/-- Every use of a name refers to what the name means at the entry with the use. -/
def AllResolve (ir : Ir) : Prop := ∀ (scope k : Nat) (e : Entry), (ir.scope scope).entries[k]? = some e →
  ∀ name b, e.Mentions name b → ir.Resolves name scope k b

/-- A scope has an entry in the scope around it, with the names it begins with. -/
def HasEntry (ir : Ir) (id parent : Nat) : Prop := ∃ kind guard,
  (ir.scope parent).entries[(ir.scope parent).place id]? =
    some (.scoped kind ((ir.scope id).born.map Prod.fst) guard id)

/-- Bindings are declared by entries in order, scopes have entries in the scopes around them, and every use of a name
refers to what the name means where it is used. -/
structure Lexical (ir : Ir) : Prop where
  aligned : ∀ id : Nat, (ir.scope id).Aligned
  nested : ∀ id parent : Nat, (ir.scope id).parent = some parent → parent < id ∧ ir.HasEntry id parent
  resolves : ir.AllResolve

/-! ### Growth -/

private theorem Resolves.grow (h : ir.Resolves name scope k b) (hw : ir.WellFormed) (hg : ir.Grows ir')
    (hp : ir.KeepsPlaces ir') (hlt : scope < ir.scopes.size) (hk : k ≤ (ir.scope scope).entries.size) :
    ir'.Resolves name scope k b := by
  obtain ⟨hmeans, var, hb⟩ := h
  exact ⟨hmeans.grow hw.nested hg hp hlt hk, var, hg.binding? hb⟩

private theorem HasEntry.place_lt {id parent : Nat} (h : ir.HasEntry id parent) :
    (ir.scope parent).place id < (ir.scope parent).entries.size := by
  obtain ⟨_, _, he⟩ := h
  exact (Array.getElem?_eq_some_iff.1 he).1

private theorem HasEntry.grow {id parent : Nat} (h : ir.HasEntry id parent) (hp : (ir.scope id).parent = some parent)
    (hw : ir.WellFormed) (hg : ir.Grows ir') (hk : ir.KeepsPlaces ir') : ir'.HasEntry id parent := by
  obtain ⟨kind, guard, he⟩ := h
  have hid := lt_of_parent hp
  have hparent : parent < ir.scopes.size := Nat.lt_trans (hw.nested id parent hp) hid
  refine ⟨kind, guard, ?_⟩
  rw [hk id parent hp, (hg.scope id hid).born]
  exact (hg.scope parent hparent).getElem?_entries he

private theorem hasEntry_push {id parent : Nat} {kind : ScopeKind} {born : List (String × Var)} {guard : Option Value}
    (hid : id < ir.scopes.size) (hparent : parent < ir.scopes.size) (hborn : (ir.scope id).born = born)
    (hplace : (ir.scope parent).place id = (ir.scope parent).entries.size) :
    (ir.modifyScope parent (·.push (.scoped kind (born.map Prod.fst) guard id))).HasEntry id parent := by
  have hf := fun s : Scope => s.adds_push (e := .scoped kind (born.map Prod.fst) guard id) rfl
  have hg := grows_modifyScope ir parent fun s => (hf s).extends
  refine ⟨kind, guard, ?_⟩
  rw [(hg.scope id hid).born, hborn, scope_modifyScope_self hparent]
  exact (hf _).getElem?_place hplace (by simp [Entry.isScope])

variable {id : Nat} {f : Scope → Scope} {e : Entry}

private theorem aligned_modifyScope (h : ∀ id : Nat, (ir.scope id).Aligned) (hf : ∀ s, Scope.Adds e s (f s))
    (id other : Nat) : ((ir.modifyScope id f).scope other).Aligned := by
  rcases scope_modifyScope ir id other f with ⟨-, -, ho⟩ | ho
  · rw [ho]
    exact (hf _).aligned (h id)
  · rw [ho]
    exact h other

private theorem AllResolve.grow (h : ir.AllResolve) (hw : ir.WellFormed) (hg : ir.Grows ir') (hp : ir.KeepsPlaces ir')
    (hsame : ∀ id : Nat, (ir'.scope id).entries = (ir.scope id).entries) : ir'.AllResolve := by
  intro scope k e he name b hm
  rw [hsame] at he
  have hlt := lt_of_mem_entries (Array.mem_of_getElem? he)
  have hk : k < (ir.scope scope).entries.size := (Array.getElem?_eq_some_iff.1 he).1
  exact (h scope k e he name b hm).grow hw hg hp hlt (Nat.le_of_lt hk)

/-- A new entry whose names mean their bindings at the end of its scope. -/
private theorem AllResolve.modifyScope (h : ir.AllResolve) (hw : ir.WellFormed) (hf : ∀ s, Scope.Adds e s (f s))
    (hp : ir.KeepsPlaces (ir.modifyScope id f))
    (he : ∀ name b, e.Mentions name b → ir.Resolves name id (ir.scope id).entries.size b) :
    (ir.modifyScope id f).AllResolve := by
  have hg : ir.Grows (ir.modifyScope id f) := grows_modifyScope ir id fun s => (hf s).extends
  intro scope k e' he' name b hm
  have hold (hk : (ir.scope scope).entries[k]? = some e') : (ir.modifyScope id f).Resolves name scope k b := by
    have hlt := lt_of_mem_entries (Array.mem_of_getElem? hk)
    exact (h scope k e' hk name b hm).grow hw hg hp hlt (Nat.le_of_lt (Array.getElem?_eq_some_iff.1 hk).1)
  rcases scope_modifyScope ir id scope f with ⟨rfl, hlt, ho⟩ | ho
  · rw [ho] at he'
    rcases (hf _).getElem?_entries he' with hk | ⟨rfl, rfl⟩
    · exact hold hk
    · exact (he name b hm).grow hw hg hp hlt (Nat.le_refl _)
  · rw [ho] at he'
    exact hold he'

end Ir

/-! ### Open scopes -/

/-- The open scopes have no entries yet, and the names in their guards mean what they mean at the entries to come. -/
inductive Pending (ir : Ir) : List Frame → Prop where
  | root : Pending ir []
  | inner {f : Frame} {frames : List Frame} (hborn : (ir.scope f.id).born = f.born)
    (hplace : (ir.scope (current frames)).place f.id = (ir.scope (current frames)).entries.size)
    (hguard : ∀ v, f.guard = some v → ∀ name b, v.Mentions name b →
      ir.Resolves name (current frames) (ir.scope (current frames)).entries.size b) (h : Pending ir frames) :
    Pending ir (f :: frames)

variable {P : String → Prop} {ir ir' : Ir} {frames : List Frame} {name : String} {b : BindingId} {var : Var}

/-- Scopes outside the innermost open one do not change. -/
private theorem Pending.grow (h : Pending ir frames) (hw : ir.WellFormed) (hc : Chain ir frames) (hg : ir.Grows ir')
    (hp : ir.KeepsPlaces ir') (hsame : ∀ id : Nat, id < current frames → ir'.scope id = ir.scope id) :
    Pending ir' frames := by
  induction h with
  | root => exact .root
  | @inner f frames hborn hplace hguard _ ih =>
    cases hc with
    | inner hlt hparent _ hc =>
      have hlt' : current frames < f.id := hw.nested _ _ hparent
      have hscope := hsame (current frames) hlt'
      refine .inner ((hg.scope f.id hlt).born.trans hborn) ?_ (fun v hv name b hm => ?_) (ih hc fun id hid => ?_)
      · rw [hscope]
        exact hplace
      · rw [hscope]
        exact (hguard v hv name b hm).grow hw hg hp hc.current_lt (Nat.le_refl _)
      · exact hsame id (Nat.lt_trans hid hlt')

/-- What a name is found to be is what it means at the next entry. -/
theorem means_of_lookup (hw : ir.WellFormed) (ha : ∀ id : Nat, (ir.scope id).Aligned) (hc : Chain ir frames)
    (hp : Pending ir frames) (hl : ir.lookup name (current frames) = some (b, var)) :
    ir.Means name (current frames) (ir.scope (current frames)).entries.size b := by
  -- a name that the scope declares is the last one declared before its next entry
  have hvisible {id i : Nat} (hv : (ir.scope id).visible.lookup name = some i)
      (hl : ir.lookup name id = some (b, var)) : ir.Means name id (ir.scope id).entries.size b := by
    have hlast := (hw.indexed id).last name i hv
    rw [(ha id).names_eq] at hlast
    rw [Ir.lookup_of_visible hv] at hl
    obtain ⟨_, _, he⟩ := Option.map_eq_some_iff.1 hl
    cases he
    exact .here hlast
  induction hc with
  | root _ hparent =>
    cases hv : (ir.scope (current [])).visible.lookup name with
    | some i => exact hvisible hv hl
    | none =>
      rw [Ir.lookup_of_root hv hparent] at hl
      cases hl
  | @inner f frames _ hparent _ _ ih =>
    cases hv : (ir.scope (current (f :: frames))).visible.lookup name with
    | some i => exact hvisible hv hl
    | none =>
      have hnot := (hw.indexed _).unbound name hv
      rw [(ha _).names_eq] at hnot
      rw [Ir.lookup_of_parent hw.nested hv hparent] at hl
      cases hp with
      | inner _ hplace _ hp =>
        have hmeans := ih hp hl
        rw [← hplace] at hmeans
        exact .outer hnot hparent hmeans

/-! ### The invariant -/

/-- The representation so far is lexical, but for the open scopes. -/
structure Building.Lexical (b : Building) : Prop where
  coherent : b.Coherent
  aligned : ∀ id : Nat, (b.ir.scope id).Aligned
  nested : ∀ id parent : Nat, (b.ir.scope id).parent = some parent →
    (∃ f ∈ b.frames, f.id = id) ∨ b.ir.HasEntry id parent
  known : ∀ scope id : Nat, ∀ e ∈ (b.ir.scope scope).entries, e.isScope id = true → id < b.ir.scopes.size
  resolves : b.ir.AllResolve
  pending : Pending b.ir b.frames

private theorem lexical_initial : Building.Lexical ⟨.initial, []⟩ := by
  refine ⟨coherent_initial, fun id => ?_, fun id parent hp => ?_, fun scope id e he => ?_,
    fun scope k e he => ?_, .root⟩
  · rw [Ir.scope_initial]
    rfl
  · rw [Ir.scope_initial] at hp
    cases hp
  · rw [Ir.scope_initial] at he
    simp [Scope.empty] at he
  · rw [Ir.scope_initial] at he
    simp [Scope.empty] at he

namespace Building.Lexical

/-- The names of a typed value mean what they mean at the next entry. -/
private theorem resolves_of_mentions (h : Building.Lexical ⟨ir, frames⟩) {v : Value} {ty : Ty}
    (hv : ir.HasTypeAt (current frames) v ty) (hm : v.Mentions name b) :
    ir.Resolves name (current frames) (ir.scope (current frames)).entries.size b := by
  obtain ⟨_, var, hl, _⟩ := Value.Typed.uses_of_mentions hv hm
  have hw := h.coherent.wellFormed
  exact ⟨means_of_lookup hw h.aligned h.coherent.chain h.pending hl, var, hw.binding?_of_lookup hl⟩

/-- A new entry changes no place, if it is not for a scope that has an entry or lies elsewhere. -/
private theorem keepsPlaces (h : Building.Lexical ⟨ir, frames⟩) {f : Scope → Scope} {e : Entry}
    (hf : ∀ s, Scope.Adds e s (f s)) (target : Nat)
    (hopen : ∀ g ∈ frames, (ir.scope g.id).parent = some target → e.isScope g.id = true) :
    ir.KeepsPlaces (ir.modifyScope target f) := by
  intro id parent hp
  rcases Ir.scope_modifyScope ir target parent f with ⟨rfl, -, ho⟩ | ho
  · rw [ho]
    rcases h.nested id parent hp with ⟨g, hg, rfl⟩ | hentry
    · exact (hf _).place_eq (Or.inr (hopen g hg hp))
    · exact (hf _).place_eq (Or.inl hentry.place_lt)
  · rw [ho]

/-- A new entry at the end of the innermost scope that is open afterwards. -/
private theorem add (h : Building.Lexical ⟨ir, frames⟩) {left : List Frame} {f : Scope → Scope} {e : Entry}
    (hf : ∀ s, Scope.Adds e s (f s)) (hp : ir.KeepsPlaces (ir.modifyScope (current left) f))
    (hc : Building.Coherent ⟨ir.modifyScope (current left) f, left⟩) (hchain : Chain ir left)
    (hpending : Pending ir left) (hopen : ∀ g ∈ frames, ∀ parent : Nat, (ir.scope g.id).parent = some parent →
      g ∈ left ∨ (ir.modifyScope (current left) f).HasEntry g.id parent)
    (hknown : ∀ id : Nat, e.isScope id = true → id < ir.scopes.size)
    (he : ∀ name b, e.Mentions name b →
      ir.Resolves name (current left) (ir.scope (current left)).entries.size b) :
    Building.Lexical ⟨ir.modifyScope (current left) f, left⟩ := by
  have hw := h.coherent.wellFormed
  have hg : ir.Grows (ir.modifyScope (current left) f) := Ir.grows_modifyScope _ _ fun s => (hf s).extends
  refine ⟨hc, Ir.aligned_modifyScope h.aligned hf _, fun id parent hparent => ?_, fun scope id e' he' hid => ?_,
    h.resolves.modifyScope hw hf hp he, hpending.grow hw hchain hg hp fun id hid => ?_⟩
  · have hold : (ir.scope id).parent = some parent := by
      rcases Ir.scope_modifyScope ir (current left) id f with ⟨rfl, -, ho⟩ | ho
      · rw [ho, (hf _).parent] at hparent
        exact hparent
      · rwa [ho] at hparent
    rcases h.nested id parent hold with ⟨g, hg', rfl⟩ | hentry
    · exact (hopen g hg' parent hold).imp_left fun hleft => ⟨g, hleft, rfl⟩
    · exact Or.inr (hentry.grow hold hw hg hp)
  · rw [Ir.size_modifyScope]
    rcases Ir.scope_modifyScope ir (current left) scope f with ⟨rfl, -, ho⟩ | ho
    · rw [ho, (hf _).entries] at he'
      rcases Array.mem_push.1 he' with he' | rfl
      · exact h.known _ id e' he' hid
      · exact hknown id hid
    · rw [ho] at he'
      exact h.known scope id e' he' hid
  · exact Ir.scope_modifyScope_of_ne (Nat.ne_of_lt hid) f

private theorem register (h : Building.Lexical ⟨ir, frames⟩) {n : String} (hfree : ir.ops.contains n = false)
    (signature : Signature) : Building.Lexical ⟨ir.apply (.register n signature), frames⟩ := by
  have hw := h.coherent.wellFormed
  have hg := Ir.grows_register hfree signature
  have hp : ir.KeepsPlaces (ir.apply (.register n signature)) := fun _ _ _ => rfl
  exact ⟨⟨hw.register n signature, h.coherent.chain.grow hg⟩, h.aligned, h.nested, h.known,
    h.resolves.grow hw hg hp fun _ => rfl, h.pending.grow hw h.coherent.chain hg hp fun _ _ => rfl⟩

private theorem openScope (h : Building.Lexical ⟨ir, frames⟩) {func : Option String} {kind : ScopeKind}
    {born : List (String × Var)} {guard : Option Value} (hborn : ∀ x ∈ born, x.2.value.isArg = true)
    (hc : Building.Coherent ⟨ir.openScope (current frames) func born, ⟨ir.scopes.size, kind, born, guard⟩ :: frames⟩)
    (hguard : ∀ v, guard = some v → ∀ name b, v.Mentions name b →
      ir.Resolves name (current frames) (ir.scope (current frames)).entries.size b) :
    Building.Lexical ⟨ir.openScope (current frames) func born, ⟨ir.scopes.size, kind, born, guard⟩ :: frames⟩ := by
  have hw := h.coherent.wellFormed
  have hlt := h.coherent.chain.current_lt
  have hg := Ir.grows_openScope ir (current frames) func born
  have hp := Ir.keepsPlaces_openScope ir (current frames) func born
  have hsame := Ir.entries_openScope ir (current frames) func born
  refine ⟨hc, fun id => ?_, fun id parent hparent => ?_, fun scope id e he hscope => ?_,
    h.resolves.grow hw hg hp hsame,
    .inner (Ir.born_openScope ir (current frames) func hborn) ?_ (fun v hv name b hm => ?_) ?_⟩
  · rcases Ir.scope_openScope ir id (current frames) func born with ⟨-, ho⟩ | ⟨-, ho⟩
    · rw [ho]
      exact Scope.aligned_bindAll_empty _ _ hborn
    · rw [ho]
      exact h.aligned id
  · rcases Ir.scope_openScope ir id (current frames) func born with ⟨hnew, -⟩ | ⟨-, ho⟩
    · exact Or.inl ⟨_, List.mem_cons_self, hnew.symm⟩
    · rw [ho] at hparent
      rcases h.nested id parent hparent with ⟨f, hf, hfid⟩ | hentry
      · exact Or.inl ⟨f, List.mem_cons_of_mem _ hf, hfid⟩
      · exact Or.inr (hentry.grow hparent hw hg hp)
  · rw [hsame] at he
    rw [Ir.size_openScope]
    exact Nat.lt_succ_of_lt (h.known scope id e he hscope)
  · -- no entry so far is for the scope that begins
    refine Scope.place_eq_size fun e he => Bool.eq_false_iff.2 fun hscope => ?_
    rw [hsame] at he
    exact Nat.lt_irrefl _ (h.known (current frames) ir.scopes.size e he hscope)
  · rw [hsame]
    exact (hguard v hv name b hm).grow hw hg hp hlt (Nat.le_refl _)
  · exact h.pending.grow hw h.coherent.chain hg hp fun id hlt' =>
      Ir.scope_openScope_of_ne (Nat.ne_of_lt (Nat.lt_trans hlt' hlt)) _ _ _

end Building.Lexical

private theorem Move.lexical {b b' : Building} (hb : b.Lexical) (h : Move P b b') : b'.Lexical := by
  have hc := h.coherent hb.coherent
  have hw := hb.coherent.wellFormed
  have hchain := hb.coherent.chain
  cases h with
  | @declare ir frames name v ty span mutable hv _ =>
    have hf := fun s : Scope => s.adds_declare name hv.isArg ty span mutable
    refine hb.add hf (hb.keepsPlaces hf _ fun g hg hp => ?_) hc hchain hb.pending (fun g hg _ _ => Or.inl hg)
      (by simp [Entry.isScope]) fun n x hm => ?_
    · exact absurd (hchain.parent_lt hw hg hp) (Nat.lt_irrefl _)
    · cases hm with
      | newVar hm => exact hb.resolves_of_mentions hv hm
  | @act ir frames op args ha =>
    have hf := fun s : Scope => s.adds_push (e := .action op args) rfl
    refine hb.add hf (hb.keepsPlaces hf _ fun g hg hp => ?_) hc hchain hb.pending (fun g hg _ _ => Or.inl hg)
      (by simp [Entry.isScope]) fun n x hm => ?_
    · exact absurd (hchain.parent_lt hw hg hp) (Nat.lt_irrefl _)
    · cases hm with
      | action hmem hm => exact hb.resolves_of_mentions (ha.typed _ hmem) hm
  | @func ir frames name signature born hfree _ hborn _ =>
    exact (hb.register hfree signature).openScope hborn hc (by simp)
  | @block ir f frames kind born guard hguard =>
    refine hb.openScope hguard.isArg_of_mem hc fun v hv n x hm => ?_
    cases hv
    obtain ⟨w, ty, hw, hm⟩ := hguard.exists_of_mentions hm
    exact hb.resolves_of_mentions hw hm
  | @close ir f frames =>
    have hf := fun s : Scope => s.adds_push (e := .scoped f.kind (f.born.map Prod.fst) f.guard f.id) rfl
    cases hb.pending with
    | inner hborn hplace hguard hpending =>
      cases hchain with
      | inner hid hparent _ hchain =>
        -- of the open scopes only the one that ends lies in the scope with the new entry
        have hplaces := hb.keepsPlaces hf (current frames) fun g hg hp => by
          rcases List.mem_cons.1 hg with rfl | hg
          · simp [Entry.isScope]
          · exact absurd (hchain.parent_lt hw hg hp) (Nat.lt_irrefl _)
        refine hb.add hf hplaces hc hchain hpending (fun g hg parent hp => ?_) (fun id he => ?_) fun n x hm => ?_
        · rcases List.mem_cons.1 hg with rfl | hg
          · cases hparent.symm.trans hp
            exact Or.inr (Ir.hasEntry_push hid hchain.current_lt hborn hplace)
          · exact Or.inl hg
        · exact of_decide_eq_true he ▸ hid
        · generalize hguarded : f.guard = guard at hm
          cases hm with
          | guard hm => exact hguard _ hguarded n x hm

/-- In the representation of a program that is accepted, every use of a name refers to the last binding of that name
that is declared, in the innermost scope that declares one, before the entry with the use. -/
theorem typecheck_lexical {p : Program} {ir : Ir} (h : typecheck p = .ok ir) : ir.Lexical := by
  have hpath : Path (fun _ => True) ⟨.initial, []⟩ ⟨ir, []⟩ := typecheck_path (fun _ _ => trivial) h
  have hl : Building.Lexical ⟨ir, []⟩ := hpath.preserves (fun _ _ => Move.lexical) lexical_initial
  refine ⟨hl.aligned, fun id parent hp => ?_, hl.resolves⟩
  rcases hl.nested id parent hp with ⟨f, hf, -⟩ | hentry
  · cases hf
  · exact ⟨hl.coherent.wellFormed.nested id parent hp, hentry⟩

/-- `func f(x: Int) -> Int { let x = x + 1; while x < 9 { let x = 2; } return x; }` -/
def shadowing : Program :=
  let x (lo : Nat) : Expr := .name "x" ⟨lo, 1⟩
  let outer : Decl := ⟨⟨"x", ⟨28, 1⟩⟩, none, .binary .add (x 32) (.literal (.int 1) ⟨36, 1⟩) ⟨32, 5⟩⟩
  let inner : Decl := ⟨⟨"x", ⟨57, 1⟩⟩, none, .literal (.int 2) ⟨61, 1⟩⟩
  let loop : Stmt := .whileLoop (.binary .lt (x 45) (.literal (.int 9) ⟨49, 1⟩) ⟨45, 5⟩)
    (.mk [.item (.letDecl inner ⟨53, 10⟩)] ⟨51, 14⟩) ⟨39, 26⟩
  ⟨[.func ⟨"f", ⟨5, 1⟩⟩ [⟨⟨"x", ⟨7, 1⟩⟩, ⟨.int, ⟨10, 3⟩⟩⟩] (some ⟨.int, ⟨18, 3⟩⟩)
    (.mk [.item (.letDecl outer ⟨24, 14⟩), loop, .ret (some (x 73)) ⟨66, 9⟩] ⟨22, 55⟩) ⟨0, 77⟩]⟩

/-- The three variables `x` are told apart. -/
theorem shadowing_lexical : ∃ ir, typecheck shadowing = .ok ir ∧ ir.Lexical :=
  ⟨_, rfl, typecheck_lexical (p := shadowing) rfl⟩

end Scriptlet
