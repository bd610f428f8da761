import Mathlib.Logic.Relation
import Scriptlet.Proofs.Typing.Rules

/-!
# Moves

A representation being built is a representation with the nested scopes that are open (`Building`).  A check of a
program takes it from move to move: a declaration, an action, a scope that begins, for a function or a block, and a
scope that is complete (`Move`).  Every fact about finished representations is proved of each move, and carried along
the way from the empty one.

Two such facts are needed for all others.  A move lets the representation grow (`Move.grows`), and it keeps the open
scopes in each other and in functions of the table (`Move.coherent`).
-/

namespace Scriptlet

/-- An open scope: its number, what it is for, the variables it began with, and its guard. -/
structure Frame where
  id : Nat
  kind : ScopeKind
  born : List (String × Var)
  guard : Option Value

/-- A representation and the nested scopes that are open, the innermost first. -/
structure Building where
  ir : Ir
  frames : List Frame

/-- The scope in which the check goes on. -/
def current : List Frame → Nat
  | [] => ScopeId.root
  | f :: _ => f.id

/-- What a check may do next; `P` holds of the names of the functions of the program. -/
inductive Move (P : String → Prop) : Building → Building → Prop where
  /-- A variable is declared; its value has been found before. -/
  | declare {ir : Ir} {frames : List Frame} {name : String} {v : Value} {ty : Ty} {span : Span} {mutable : Bool}
    (hv : ir.HasTypeAt (current frames) v ty) (hty : ty ≠ .void) :
    Move P ⟨ir, frames⟩ ⟨ir.apply (.declare (current frames) name (.mk v ty span mutable)), frames⟩
  /-- An action is added. -/
  | act {ir : Ir} {frames : List Frame} {op : String} {args : List Var}
    (h : ir.Action (ir.HasTypeAt (current frames)) (current frames) op args) :
    Move P ⟨ir, frames⟩ ⟨ir.apply (.act (current frames) op args), frames⟩
  /-- A function with a new name enters the table, and its scope begins. -/
  | func {ir : Ir} {frames : List Frame} {name : String} {signature : Signature} {born : List (String × Var)}
    (hfree : ir.ops.contains name = false) (hname : P name) (hborn : ∀ b ∈ born, b.2.value.isArg = true)
    (hargs : signature.args = born.map (·.2.ty)) :
    Move P ⟨ir, frames⟩
      ⟨(ir.apply (.register name signature)).apply
        (.openScope ir.scopes.size .func (current frames) (some name) born),
        ⟨ir.scopes.size, .func, born, none⟩ :: frames⟩
  /-- A block begins, inside a function. -/
  | block {ir : Ir} {f : Frame} {frames : List Frame} {kind : ScopeKind} {born : List (String × Var)}
    {guard : Option Value} (h : Guard (ir.HasTypeAt f.id) kind born guard) :
    Move P ⟨ir, f :: frames⟩
      ⟨ir.apply (.openScope ir.scopes.size kind f.id none born), ⟨ir.scopes.size, kind, born, guard⟩ :: f :: frames⟩
  /-- The innermost scope is complete and gets its entry in the one around it. -/
  | close {ir : Ir} {f : Frame} {frames : List Frame} :
    Move P ⟨ir, f :: frames⟩
      ⟨ir.apply (.closeScope f.id f.kind (current frames) (f.born.map Prod.fst) f.guard), frames⟩

variable {P : String → Prop} {b b' : Building} {ir ir' : Ir} {frames : List Frame}

/-! ### Growth -/

/-- A move only adds to the representation. -/
theorem Move.grows (h : Move P b b') : b.ir.Grows b'.ir := by
  cases h with
  | declare hv _ => exact Ir.grows_modifyScope _ _ fun s => (s.adds_declare _ hv.isArg _ _ _).extends
  | act _ => exact Ir.grows_modifyScope _ _ fun s => (s.adds_push rfl).extends
  | func hfree _ _ _ => exact (Ir.grows_register hfree _).trans (Ir.grows_openScope _ _ _ _)
  | block _ => exact Ir.grows_openScope _ _ _ _
  | close => exact Ir.grows_modifyScope _ _ fun s => (s.adds_push rfl).extends

/-! ### The open scopes -/

/-- The open scopes lie in each other, the innermost first, up to the root, and belong to functions of the table. -/
inductive Chain (ir : Ir) : List Frame → Prop where
  | root (hlt : ScopeId.root < ir.scopes.size) (hp : (ir.scope ScopeId.root).parent = none) : Chain ir []
  | inner {f : Frame} {frames : List Frame} (hlt : f.id < ir.scopes.size)
    (hp : (ir.scope f.id).parent = some (current frames)) (hs : ∃ signature, ir.Signed f.id signature)
    (h : Chain ir frames) : Chain ir (f :: frames)

namespace Chain

/-- The scope that is being filled has been opened. -/
theorem current_lt (h : Chain ir frames) : current frames < ir.scopes.size := by
  cases h with
  | root hlt _ => exact hlt
  | inner hlt _ _ _ => exact hlt

/-- The open scopes stay a chain when the representation grows. -/
theorem grow (h : Chain ir frames) (hg : ir.Grows ir') : Chain ir' frames := by
  induction h with
  | root hlt hp => exact .root (Nat.lt_of_lt_of_le hlt hg.size) ((hg.scope _ hlt).parent.trans hp)
  | inner hlt hp hs _ ih =>
    obtain ⟨signature, hs⟩ := hs
    exact .inner (Nat.lt_of_lt_of_le hlt hg.size) ((hg.scope _ hlt).parent.trans hp) ⟨signature, hg.signed hlt hs⟩ ih

private theorem tail {f : Frame} (h : Chain ir (f :: frames)) : Chain ir frames := by
  cases h with
  | inner _ _ _ h => exact h

/-- The innermost function that is open has a signature. -/
theorem signed {f : Frame} (h : Chain ir (f :: frames)) : ∃ signature, ir.Signed f.id signature := by
  cases h with
  | inner _ _ hs _ => exact hs

/-- The open scopes have numbers up to that of the innermost. -/
private theorem lt_current (h : Chain ir frames) (hw : ir.WellFormed) : ∀ f ∈ frames.tail, f.id < current frames := by
  induction h with
  | root => simp
  | @inner f frames _ hp _ _ ih =>
    have hlt : current frames < f.id := hw.nested _ _ hp
    intro g hg
    cases frames with
    | nil => cases hg
    | cons f' frames =>
      rcases List.mem_cons.1 hg with rfl | hg
      · exact hlt
      · exact Nat.lt_trans (ih g hg) hlt

/-- The scope around an open one is outside the innermost. -/
theorem parent_lt (h : Chain ir frames) (hw : ir.WellFormed) {f : Frame} (hf : f ∈ frames) {parent : Nat}
    (hp : (ir.scope f.id).parent = some parent) : parent < current frames := by
  have hlt : parent < f.id := hw.nested f.id parent hp
  cases frames with
  | nil => cases hf
  | cons g frames =>
    rcases List.mem_cons.1 hf with rfl | hf
    · exact hlt
    · exact Nat.lt_trans hlt (h.lt_current hw f hf)

end Chain

/-- The representation is well-formed and its open scopes lie in each other. -/
structure Building.Coherent (b : Building) : Prop where
  wellFormed : b.ir.WellFormed
  chain : Chain b.ir b.frames

/-- At the beginning only the root is open. -/
theorem coherent_initial : Building.Coherent ⟨.initial, []⟩ := ⟨Ir.wellFormed_initial, .root Nat.zero_lt_one rfl⟩

namespace Ir

/-- The scope of a function belongs to it, and its name is registered with its signature. -/
theorem signed_openFunc {name : String} (hfree : ir.ops.contains name = false) (signature : Signature)
    (parent : ScopeId) (born : List (String × Var)) :
    ((ir.apply (.register name signature)).openScope parent (some name) born).Signed ir.scopes.size signature := by
  have hself := scope_openScope_self (ir.apply (.register name signature)) parent (some name) born
  exact ⟨name, (congrArg Scope.func hself).trans (Scope.func_bindAll _ _), get?_register hfree signature⟩

/-- A block belongs to the function around it. -/
private theorem Signed.openBlock {parent : Nat} {signature : Signature} (h : ir.Signed parent signature)
    (born : List (String × Var)) : (ir.openScope parent none born).Signed ir.scopes.size signature := by
  obtain ⟨name, hf, hop⟩ := h
  have hself := scope_openScope_self ir parent none born
  exact ⟨name, (congrArg Scope.func hself).trans ((Scope.func_bindAll _ _).trans hf), hop⟩

end Ir

private theorem Chain.openScope (h : Chain ir frames) {func : Option String} {born : List (String × Var)} {f : Frame}
    (hid : f.id = ir.scopes.size)
    (hs : ∃ signature, (ir.openScope (current frames) func born).Signed ir.scopes.size signature) :
    Chain (ir.openScope (current frames) func born) (f :: frames) := by
  have hself := Ir.scope_openScope_self ir (current frames) func born
  have hlt : f.id < (ir.openScope (current frames) func born).scopes.size := by
    rw [hid, Ir.size_openScope]
    exact Nat.lt_succ_self _
  have hp : ((ir.openScope (current frames) func born).scope f.id).parent = some (current frames) := by
    rw [hid, hself, Scope.parent_bindAll]
    rfl
  exact .inner hlt hp (hid ▸ hs) (h.grow (Ir.grows_openScope ir _ _ _))

/-- Every move keeps the representation well-formed and the open scopes a chain. -/
theorem Move.coherent (hb : b.Coherent) (h : Move P b b') : b'.Coherent := by
  have hw := hb.wellFormed
  have hlt := hb.chain.current_lt
  have hchain := hb.chain.grow h.grows
  cases h with
  | declare => exact ⟨hw.declare _ _ _, hchain⟩
  | act => exact ⟨hw.act _ _ _, hchain⟩
  | @func ir frames name signature born hfree _ _ _ =>
    -- the scope belongs to the function that the table has just got
    have hsigned := Ir.signed_openFunc hfree signature (current frames) born
    have hregistered := hb.chain.grow (Ir.grows_register hfree signature)
    exact ⟨(hw.register name signature).openScope hlt _ _, hregistered.openScope rfl ⟨signature, hsigned⟩⟩
  | @block ir f frames kind born guard _ =>
    obtain ⟨signature, hs⟩ := hb.chain.signed
    exact ⟨hw.openScope hlt _ _, hb.chain.openScope rfl ⟨signature, hs.openBlock born⟩⟩
  | close => exact ⟨hw.closeScope _ _ _ _ _, hchain.tail⟩

/-! ### Ways -/

/-- The representation gets from one state to the other in some moves. -/
def Path (P : String → Prop) : Building → Building → Prop := Relation.ReflTransGen (Move P)

namespace Path

/-- What every move keeps holds all the way. -/
theorem preserves {Inv : Building → Prop} (hstep : ∀ b b', Inv b → Move P b b' → Inv b') (h : Path P b b')
    (hb : Inv b) : Inv b' := by
  induction h with
  | refl => exact hb
  | tail _ hm ih => exact hstep _ _ ih hm

theorem coherent (h : Path P b b') (hb : b.Coherent) : b'.Coherent := h.preserves (fun _ _ => Move.coherent) hb

theorem grows (h : Path P b b') : b.ir.Grows b'.ir := by
  induction h with
  | refl => exact .refl b.ir
  | tail _ hm ih => exact ih.trans hm.grows

end Path

end Scriptlet
