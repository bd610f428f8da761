import Scriptlet.Proofs.Mirror.Check
import Scriptlet.Proofs.Walk.Nesting
import Scriptlet.Proofs.Walk.Printed

/-!
# The tree of scopes

`typecheck_tree`: the scopes of a program that is accepted are a tree, and a walk through the entries meets them in the
order of their numbers.

The numbers are known from what the program becomes (`Program.Becomes`), where each block takes the next one; what a
scope is and which function it belongs to is known from the entry that opens it (`Ir.Nests`).
-/

namespace Scriptlet

open Ir
open Dump (Line)

/-! ### The entries of a program open the scopes in order -/

section Numbered

variable {ir : Ir} {n n' : Nat} {es : List Entry}

mutual

private theorem numbered_of_item : (i : Item) → ∀ ⦃n : Nat⦄ ⦃es : List Entry⦄ ⦃n' : Nat⦄,
    Item.Becomes ir i n es n' → ir.Numbered es n n'
  | .letDecl _ _, _, _, _, .letDecl _ _ _ => .single rfl
  | .func _ _ _ body _, _, _, _, .func _ _ _ hb => .ofScope (numbered_of_block body hb)

private theorem numbered_of_stmt : (s : Stmt) → ∀ ⦃n : Nat⦄ ⦃es : List Entry⦄ ⦃n' : Nat⦄,
    Stmt.Becomes ir s n es n' → ir.Numbered es n n'
  | .item i, _, _, _, .item hi => numbered_of_item i hi
  | .varDecl _ _, _, _, _, .varDecl _ _ _ => .single rfl
  | .assign _ _ _, _, _, _, .assign _ _ _ _ _ _ => .single rfl
  | .print _ _, _, _, _, .print _ _ => .single rfl
  | .ret _ _, _, _, _, .ret _ _ => .single rfl
  | .call _ _ _, _, _, _, .call _ _ _ => .single rfl
  | .forLoop _ _ body _, _, _, _, .forLoop _ _ _ hb => .ofScope (numbered_of_block body hb)
  | .whileLoop _ body _, _, _, _, .whileLoop _ _ hb => .ofScope (numbered_of_block body hb)
  | .ifThen _ body _, _, _, _, .ifThen _ _ hb => .ofScope (numbered_of_block body hb)
  | .ifElse _ body other _, _, _, _, .ifElse _ _ hb hb' =>
    .nested rfl (numbered_of_block body hb) (.ofScope (numbered_of_block other hb'))
  | .switch _ cases _, _, _, _, .switch _ _ _ hc => numbered_of_cases cases hc

private theorem numbered_of_block : (b : Block) → ∀ ⦃n n' : Nat⦄,
    Block.Becomes ir b n n' → ir.Numbered (ir.scope n).entries.toList (n + 1) n'
  | .mk stmts _, _, _, .mk _ hs => numbered_of_stmts stmts hs

private theorem numbered_of_stmts : (ss : List Stmt) → ∀ ⦃n : Nat⦄ ⦃es : List Entry⦄ ⦃n' : Nat⦄,
    StmtsBecome ir ss n es n' → ir.Numbered es n n'
  | [], _, _, _, .nil => .nil
  | s :: ss, _, _, _, .cons hs hss => (numbered_of_stmt s hs).append (numbered_of_stmts ss hss)

private theorem numbered_of_cases : (cs : List Case) → ∀ ⦃subject : Var⦄ ⦃n : Nat⦄ ⦃es : List Entry⦄ ⦃n' : Nat⦄,
    CasesBecome ir subject cs n es n' → ir.Numbered es n n'
  | [], _, _, _, _, .nil => .nil
  | .mk (some _) body _ :: cs, _, _, _, _, .case _ _ hb hcs =>
    .nested rfl (numbered_of_block body hb) (numbered_of_cases cs hcs)
  | [.mk none body _], _, _, _, _, .default _ hb => .ofScope (numbered_of_block body hb)

end

private theorem numbered_of_items {is : List Item} (h : ItemsBecome ir is n es n') : ir.Numbered es n n' := by
  induction h with
  | nil => exact .nil
  | cons hi _ ih => exact (numbered_of_item _ hi).append ih

/-- The scopes of a program are numbered in its order. -/
private theorem Program.Becomes.numbered {p : Program} (h : p.Becomes ir) :
    ir.Numbered (ir.scope ScopeId.root).entries.toList 1 ir.scopes.size := numbered_of_items h

end Numbered

/-! ### The tree -/

/-- The scopes are a tree, in which a walk meets these entries. -/
structure Ir.IsTree (ir : Ir) (visits : List Visit) : Prop where
  /-- There is a walk through the whole representation, and no other. -/
  walked : ∀ vs, ir.Walked vs ↔ vs = visits
  /-- The walk enters each scope but the root once, in the order of the numbers. -/
  entered : entered visits = List.range' 1 (ir.scopes.size - 1)
  /-- The walk meets each entry of each scope once. -/
  places : (visits.map Visit.place).Perm ((List.range ir.scopes.size).flatMap ir.places)
  entry : ∀ v ∈ visits, (ir.scope v.scope).entries[v.index]? = some v.entry
  /-- The dump has the lines of these entries, however many levels of scopes it would go down, each line after two
  spaces for every level. -/
  printed : ∃ lines : List (List Line), List.Forall₂ (fun v ls => v.entry.Prints v.level ls) visits lines ∧
    (∀ fuel, ir.scopes.size ≤ fuel → ir.scopeLines fuel 0 ScopeId.root = lines.flatten) ∧
    ir.dump = String.join (lines.flatten.map fun l =>
      String.ofList (List.replicate (2 * l.level) ' ') ++ l.text ++ "\n")
  /-- The root lies in no scope, and any other scope where the walk enters it. -/
  root : (ir.scope ScopeId.root).parent = none
  parent : ∀ v ∈ visits, ∀ id : Nat, v.entry.inner? = some id → (ir.scope id).parent = some v.scope
  /-- A block belongs to the function that the scope around it belongs to. -/
  inherits : ∀ v ∈ visits, ∀ (kind : ScopeKind) (born : List String) (guard : Option Value) (id : Nat),
    v.entry = .scoped kind born guard id → kind ≠ .func → (ir.scope id).func = (ir.scope v.scope).func
  /-- The scope of a function belongs to a function of the table, whose parameters are bound on entering it. -/
  signed : ∀ v ∈ visits, ∀ (born : List String) (guard : Option Value) (id : Nat),
    v.entry = .scoped .func born guard id → (ir.scope id).born.map Prod.fst = born ∧
      ∃ signature, ir.Signed id signature ∧ signature.args = (ir.scope id).born.map (·.2.ty)
  /-- No function has two such scopes. -/
  once : ∀ v ∈ visits, ∀ v' ∈ visits, ∀ (born born' : List String) (guard guard' : Option Value) (id id' : Nat),
    v.entry = .scoped .func born guard id → v'.entry = .scoped .func born' guard' id' →
      (ir.scope id).func = (ir.scope id').func → id = id'

/-- The scopes of a program that is accepted are a tree that is numbered in the order of the program. -/
theorem typecheck_tree {p : Program} {ir : Ir} (h : typecheck p = .ok ir) : ∃ visits, ir.IsTree visits := by
  obtain ⟨hcoherent, -, -, hnests⟩ := typecheck_nests h
  have hnumbered := (typecheck_becomes h).numbered
  have hpos : 1 ≤ ir.scopes.size := hnumbered.le
  obtain ⟨visits, hwalk, hids⟩ := hnumbered.exists_walk 0 ScopeId.root 0
  have hentry := hwalk.getElem? List.drop_zero
  -- what an entry that is met says of the scope that it opens
  have hlies {v : Visit} (hv : v ∈ visits) {kind : ScopeKind} {born : List String} {guard : Option Value} {id : Nat}
      (he : v.entry = .scoped kind born guard id) : ir.Lies v.scope kind born id :=
    hnests.lies v.scope kind born guard id (Array.mem_of_getElem? (he ▸ hentry v hv))
  refine ⟨visits, fun vs => ⟨fun hvs => hvs.unique hwalk, fun hvs => hvs ▸ hwalk⟩, hids,
    Walked.perm hwalk hids hpos, hentry, ?_, ?_, fun v hv id hid => ?_,
    fun v hv kind born guard id he hk => (hlies hv he).inherits hk,
    fun v hv born guard id he => ⟨(hlies hv he).born, ((hlies hv he).begins rfl).2⟩,
    fun v hv v' hv' born born' guard guard' id id' he he' hfunc => ?_⟩
  · have hlines (fuel : Nat) (hfuel : ir.scopes.size ≤ fuel) :
        ir.scopeLines fuel 0 ScopeId.root = (visits.map Visit.lines).flatten := by
      obtain ⟨fuel, rfl⟩ : ∃ f, fuel = f + 1 := ⟨fuel - 1, by omega⟩
      rw [scopeLines_succ, ← List.flatMap_def]
      exact hnumbered.lines_eq hwalk (by omega)
    refine ⟨visits.map Visit.lines, ?_, hlines, ?_⟩
    · exact List.forall₂_map_right_iff.2 (List.forall₂_same.2 fun v _ => v.entry.prints v.level)
    · rw [Ir.dump, hlines _ (Nat.le_refl _)]
      rfl
  · -- a scope lies in one with a smaller number
    cases hp : (ir.scope ScopeId.root).parent with
    | none => rfl
    | some parent => exact absurd (hcoherent.wellFormed.nested _ parent hp) (Nat.not_lt_zero _)
  · obtain ⟨kind, born, guard, he⟩ := Entry.exists_of_inner? hid
    exact (hlies hv he).parent
  · obtain ⟨⟨name, hbegins⟩, -⟩ := (hlies hv he).begins rfl
    obtain ⟨⟨name', hbegins'⟩, -⟩ := (hlies hv' he').begins rfl
    have hname : name = name' := Option.some.inj (hbegins.1.symm.trans (hfunc.trans hbegins'.1))
    exact hnests.once name id id' hbegins (hname ▸ hbegins')

/-- `func f(n: Int) { if n < 1 { } else { f(0); } } func g() { while true { } }` -/
def descending : Program :=
  let block (lo len : Nat) (stmts : List Stmt) : Block := .mk stmts ⟨lo, len⟩
  let below : Expr := .binary .lt (.name "n" ⟨20, 1⟩) (.literal (.int 1) ⟨24, 1⟩) ⟨20, 5⟩
  let again : Stmt := .call ⟨"f", ⟨37, 1⟩⟩ [.literal (.int 0) ⟨39, 1⟩] ⟨37, 5⟩
  let branch : Stmt := .ifElse below (block 26 3 []) (block 35 9 [again]) ⟨17, 27⟩
  let loop : Stmt := .whileLoop (.literal (.bool true) ⟨64, 4⟩) (block 69 3 []) ⟨58, 14⟩
  ⟨[.func ⟨"f", ⟨5, 1⟩⟩ [⟨⟨"n", ⟨7, 1⟩⟩, ⟨.int, ⟨10, 3⟩⟩⟩] none (block 15 31 [branch]) ⟨0, 46⟩,
    .func ⟨"g", ⟨52, 1⟩⟩ [] none (block 56 18 [loop]) ⟨47, 27⟩]⟩

/-- The scopes of two functions make a tree, and are printed as one. -/
theorem descending_tree : ∃ ir, typecheck descending = .ok ir ∧ ∃ visits, ir.IsTree visits :=
  ⟨_, rfl, typecheck_tree (p := descending) rfl⟩

end Scriptlet
