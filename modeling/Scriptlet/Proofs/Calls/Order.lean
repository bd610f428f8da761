import Mathlib.Logic.Relation
import Scriptlet.Proofs.Calls.Known
import Scriptlet.Proofs.Environment.Equivalence
import Scriptlet.Proofs.Mirror.Functions
import Scriptlet.Proofs.Readable.Source

/-!
# Functions are declared before they are called

`compile_calls`: in the representation of a text, every function that is called anywhere in an entry of the root has
its own entry there, which is the same one or an earlier one.  So a walk along calls leads to ever earlier entries, and
functions call each other in a circle only if they are one function.

The entries of the root are the items of the program one by one (`ItemsBecome.at`), and no two functions have one
name, since each name was free when its function entered the table.
-/

namespace Scriptlet

open Lexical OperatorTable

/-! ### The functions of a program -/

mutual

private theorem Item.functions_eq : (i : Item) → i.functions = i.heads.map fun f => (f.name, f.signature)
  | .letDecl _ _ => rfl
  | .func _ _ _ body _ => congrArg (_ :: ·) body.functions_eq

private theorem Stmt.functions_eq : (s : Stmt) → s.functions = s.heads.map fun f => (f.name, f.signature)
  | .item i => i.functions_eq
  | .varDecl _ _ | .assign _ _ _ | .print _ _ | .ret _ _ | .call _ _ _ => rfl
  | .forLoop _ _ body _ | .whileLoop _ body _ | .ifThen _ body _ => body.functions_eq
  | .ifElse _ body other _ => by
    simp only [Stmt.functions, Stmt.heads, List.map_append, body.functions_eq, other.functions_eq]
  | .switch _ cases _ => functionsOfCases_eq cases

private theorem Block.functions_eq : (b : Block) → b.functions = b.heads.map fun f => (f.name, f.signature)
  | .mk stmts _ => functionsOfStmts_eq stmts

private theorem functionsOfStmts_eq :
    (ss : List Stmt) → functionsOfStmts ss = (headsOfStmts ss).map fun f => (f.name, f.signature)
  | [] => rfl
  | s :: ss => by
    simp only [functionsOfStmts, headsOfStmts, List.map_append, s.functions_eq, functionsOfStmts_eq ss]

private theorem functionsOfCases_eq :
    (cs : List Case) → functionsOfCases cs = (headsOfCases cs).map fun f => (f.name, f.signature)
  | [] => rfl
  | .mk _ body _ :: cs => by
    simp only [functionsOfCases, headsOfCases, List.map_append, body.functions_eq, functionsOfCases_eq cs]

end

private theorem Program.functions_eq (p : Program) : p.functions = p.heads.map fun f => (f.name, f.signature) := by
  unfold Program.functions Program.heads
  rw [List.map_flatMap]
  exact List.flatMap_congr fun i _ => i.functions_eq

/-! ### The entries of the root -/

/-- The items and the entries of the root stand in one order. -/
theorem ItemsBecome.at {ir : Ir} {is : List Item} {n n' : Nat} {es : List Entry} (h : ItemsBecome ir is n es n')
    (j : Nat) : is[j]? = none ∧ es[j]? = none ∨
      ∃ i e m m', is[j]? = some i ∧ es[j]? = some e ∧ Item.Becomes ir i m [e] m' := by
  induction h generalizing j with
  | nil => exact .inl ⟨rfl, rfl⟩
  | @cons i is es es' n m n' hi _ ih =>
    obtain ⟨e, rfl⟩ : ∃ e, es = [e] := by
      cases hi with
      | letDecl => exact ⟨_, rfl⟩
      | func => exact ⟨_, rfl⟩
    cases j with
    | zero => exact .inr ⟨i, e, n, m, rfl, rfl, hi⟩
    | succ j => exact ih j

namespace Ir

/-- The function is one that the program declares. -/
def UserDefined (ir : Ir) (f : String) : Prop := ∃ op, ir.ops.get? f = some op ∧ op.userDefined = true

/-- The entry of the root with this index is for the function. -/
def FunctionAt (ir : Ir) (i : Nat) (f : String) : Prop :=
  ∃ born guard id, (ir.scope ScopeId.root).entries[i]? = some (.scoped .func born guard id) ∧
    (ir.scope id).func = some f

/-- The first function calls the second somewhere in its body. -/
def FunctionCalls (ir : Ir) (f g : String) : Prop :=
  ir.UserDefined g ∧ ∃ i e, ir.FunctionAt i f ∧ (ir.scope ScopeId.root).entries[i]? = some e ∧ ir.Calls g e

variable {ir : Ir} {i : Nat} {f g : String}

/-- An entry is for one function. -/
private theorem FunctionAt.unique (h : ir.FunctionAt i f) (h' : ir.FunctionAt i g) : f = g := by
  obtain ⟨_, _, id, he, hf⟩ := h
  obtain ⟨_, _, id', he', hg⟩ := h'
  cases he.symm.trans he'
  exact Option.some.inj (hf.symm.trans hg)

end Ir

/-! ### Functions of a program and their entries -/

section Entries

variable {p : Program} {ir : Ir} {f g : String} {i j : Nat}

/-- The functions of the table are those that the program declares. -/
theorem userDefined_iff (h : typecheck p = .ok ir) : ir.UserDefined f ↔ ∃ k ∈ p.heads, k.name = f := by
  have hmem (s : Signature) : (f, s) ∈ p.functions ↔ ∃ k ∈ p.heads, k.name = f ∧ k.signature = s := by
    rw [p.functions_eq, List.mem_map]
    simp only [Prod.mk.injEq]
  constructor
  · rintro ⟨op, hop, huser⟩
    rcases (typecheck_defines h).get?_eq_some.1 hop with hbuiltin | ⟨s, hs, rfl⟩
    · rw [get?_builtins] at hbuiltin
      cases hsig : signaturesOf f builtinSignatures with
      | nil =>
        rw [hsig] at hbuiltin
        cases hbuiltin
      | cons s ss =>
        rw [hsig] at hbuiltin
        cases hbuiltin
        cases huser
    · obtain ⟨k, hk, hname, -⟩ := (hmem s).1 hs
      exact ⟨k, hk, hname⟩
  · rintro ⟨k, hk, rfl⟩
    exact ⟨_, (mem_functions_iff h).1 ((hmem k.signature).2 ⟨k, hk, rfl, rfl⟩), rfl⟩

/-- The entry for a function is the one at the index of its item. -/
private theorem functionAt_iff (h : p.Becomes ir) :
    ir.FunctionAt i f ↔ ∃ item k, p.items[i]? = some item ∧ item.head? = some k ∧ k.name = f := by
  have hentries : (ir.scope ScopeId.root).entries[i]? = (ir.scope ScopeId.root).entries.toList[i]? :=
    Array.getElem?_toList.symm
  constructor
  · rintro ⟨born, guard, id, he, hf⟩
    rw [hentries] at he
    rcases ItemsBecome.at h i with ⟨-, hnone⟩ | ⟨item, e, m, m', hitem, he', hb⟩
    · cases hnone.symm.trans he
    · cases he'.symm.trans he
      cases hb with
      | func _ hfunc => exact ⟨_, _, hitem, rfl, Option.some.inj (hfunc.symm.trans hf)⟩
  · rintro ⟨item, k, hitem, hk, rfl⟩
    rcases ItemsBecome.at h i with ⟨hnone, -⟩ | ⟨item', e, m, m', hitem', he, hb⟩
    · cases hnone.symm.trans hitem
    · cases hitem'.symm.trans hitem
      cases hb with
      | letDecl => cases hk
      | func _ hfunc =>
        cases hk
        exact ⟨_, _, _, hentries.trans he, hfunc⟩

/-- No two entries are for one function. -/
private theorem functionAt_index_unique (h : typecheck p = .ok ir) (hflat : ∀ i ∈ p.items, i.heads = i.head?.toList)
    (hi : ir.FunctionAt i f) (hj : ir.FunctionAt j f) : i = j := by
  have hb := typecheck_becomes h
  obtain ⟨item, k, hitem, hk, hkf⟩ := (functionAt_iff hb).1 hi
  obtain ⟨item', k', hitem', hk', hkf'⟩ := (functionAt_iff hb).1 hj
  have hnodup := (typecheck_defines h).nodup
  rw [p.functions_eq, List.map_map, Program.heads, List.map_flatMap, List.nodup_flatMap] at hnodup
  have hmem {item : Item} {k : Function} (hitem : item ∈ p.items) (hk : item.head? = some k) (hkf : k.name = f) :
      f ∈ item.heads.map (Prod.fst ∘ fun f : Function => (f.name, f.signature)) := by
    rw [hflat item hitem, hk]
    simp [hkf]
  have hf := hmem (List.mem_of_getElem? hitem) hk hkf
  have hf' := hmem (List.mem_of_getElem? hitem') hk' hkf'
  obtain ⟨hlt, rfl⟩ := List.getElem?_eq_some_iff.1 hitem
  obtain ⟨hlt', rfl⟩ := List.getElem?_eq_some_iff.1 hitem'
  have hdisjoint := List.pairwise_iff_getElem.1 hnodup.2
  rcases Nat.lt_trichotomy i j with hij | rfl | hij
  · exact absurd hf' (hdisjoint i j hlt hlt' hij hf)
  · rfl
  · exact absurd hf (hdisjoint j i hlt' hlt hij hf')

end Entries

/-! ### Texts -/

variable {src : String} {c : Compilation} {f g : String} {i j : Nat} {e : Entry}

/-- A function that is called in an entry has its own entry, which is not a later one, and is an earlier one if the
entry is for a variable. -/
private theorem functionAt_of_calls (h : compile src = .ok c) (he : (c.ir.scope ScopeId.root).entries[j]? = some e)
    (hf : c.ir.UserDefined f) (hc : c.ir.Calls f e) :
    ∃ i ≤ j, c.ir.FunctionAt i f ∧ ∀ name var, e = .newVar name var → i < j := by
  obtain ⟨⟨t, ht, hp⟩, hir⟩ := compile_eq_ok h
  have hdeclares := declares_of_parse ht hp
  have hb := typecheck_becomes hir
  obtain ⟨Γ, hΓ⟩ := check_of_typecheck_ok hir
  obtain ⟨k, hk, rfl⟩ := (userDefined_iff hir).1 hf
  have hfree := hdeclares.free k hk
  rw [← Array.getElem?_toList] at he
  rcases ItemsBecome.at hb j with ⟨-, hnone⟩ | ⟨item, e', m, m', hitem, he', hbecomes⟩
  · cases hnone.symm.trans he
  · cases he'.symm.trans he
    have hcalls := calls_of_item hfree item hbecomes e (List.mem_singleton_self e) hc
    obtain ⟨k', hk', hname⟩ := Env.check_known hΓ hitem hcalls hfree
    -- the function is one of the items up to this one
    obtain ⟨item', hitem', hhead⟩ := List.mem_flatMap.1 hk'
    obtain ⟨i, hi, hget⟩ := List.mem_take_iff_getElem.1 hitem'
    have hindex : c.program.items[i]? = some item' := List.getElem?_eq_some_iff.2 ⟨by omega, hget⟩
    rw [hdeclares.flat item' (List.mem_of_mem_take hitem'), Option.mem_toList] at hhead
    refine ⟨i, by omega, (functionAt_iff hb).2 ⟨item', k', hindex, hhead, hname⟩, fun name var heq => ?_⟩
    subst heq
    have hne : i ≠ j := fun hij => by
      cases (hij ▸ hindex).symm.trans hitem
      cases hbecomes
      cases hhead
    omega

/-- Calls lead to earlier entries or stay where they are. -/
private theorem functionAt_of_transGen (h : compile src = .ok c) (hc : Relation.TransGen c.ir.FunctionCalls f g) :
    (∃ i, c.ir.FunctionAt i f) ∧ ∀ i, c.ir.FunctionAt i f → ∃ j ≤ i, c.ir.FunctionAt j g := by
  obtain ⟨⟨t, ht, hp⟩, hir⟩ := compile_eq_ok h
  have hunique {f : String} {i j : Nat} : c.ir.FunctionAt i f → c.ir.FunctionAt j f → i = j :=
    functionAt_index_unique hir (declares_of_parse ht hp).flat
  have hstep {f g : String} (hc : c.ir.FunctionCalls f g) :
      (∃ i, c.ir.FunctionAt i f) ∧ ∀ i, c.ir.FunctionAt i f → ∃ j ≤ i, c.ir.FunctionAt j g := by
    obtain ⟨hg, i, e, hi, he, hc⟩ := hc
    refine ⟨⟨i, hi⟩, fun i' hi' => ?_⟩
    cases hunique hi hi'
    obtain ⟨j, hj, hat, -⟩ := functionAt_of_calls h he hg hc
    exact ⟨j, hj, hat⟩
  induction hc with
  | single hc => exact hstep hc
  | tail _ hc ih =>
    refine ⟨ih.1, fun i hi => ?_⟩
    obtain ⟨j, hj, hat⟩ := ih.2 i hi
    obtain ⟨k, hk, hat'⟩ := (hstep hc).2 j hat
    exact ⟨k, Nat.le_trans hk hj, hat'⟩

/-- Functions are declared before they are called: a function that is called in an entry of the root, at any depth, has
its entry there or before, and before if the entry is a `let`.  So functions that call each other are one. -/
theorem compile_calls (h : compile src = .ok c) :
    (∀ j e f, (c.ir.scope ScopeId.root).entries[j]? = some e → c.ir.UserDefined f → c.ir.Calls f e →
      ∃ i ≤ j, c.ir.FunctionAt i f ∧ ∀ name var, e = .newVar name var → i < j) ∧
    ∀ f g, Relation.TransGen c.ir.FunctionCalls f g → Relation.TransGen c.ir.FunctionCalls g f → f = g := by
  refine ⟨fun j e f he hf hc => functionAt_of_calls h he hf hc, fun f g hfg hgf => ?_⟩
  obtain ⟨⟨t, ht, hp⟩, hir⟩ := compile_eq_ok h
  obtain ⟨⟨i, hi⟩, hforth⟩ := functionAt_of_transGen h hfg
  obtain ⟨j, hj, hg⟩ := hforth i hi
  obtain ⟨i', hi', hf⟩ := (functionAt_of_transGen h hgf).2 j hg
  -- the way there and back leads to the entry where it began
  have hsame : i' = i := functionAt_index_unique hir (declares_of_parse ht hp).flat hf hi
  have hij : j = i := by omega
  subst hij
  exact hi.unique hg

/-- `func f ( ) -> Int { return f ( ) ; } let x = f ( ) ; `, by its tokens. -/
private def circling : List TokenKind :=
  [.keyword .funcKw, .identifier "f", .symbol .lparen, .symbol .rparen, .symbol .arrow, .keyword .intTy,
    .symbol .lbrace, .keyword .returnKw, .identifier "f", .symbol .lparen, .symbol .rparen, .symbol .semicolon,
    .symbol .rbrace, .keyword .letKw, .identifier "x", .symbol .assign, .identifier "f", .symbol .lparen,
    .symbol .rparen, .symbol .semicolon]

/-- The function that is called in the `let` has its entry before. -/
theorem circling_calls : ∃ c, compile "func f ( ) -> Int { return f ( ) ; } let x = f ( ) ; " = .ok c ∧
    ∃ i < 1, c.ir.FunctionAt i "f" := by
  have hspelled : ∀ k ∈ circling, isSpelled k = true := by decide
  have hsrc : "func f ( ) -> Int { return f ( ) ; } let x = f ( ) ; ".toList = spaced circling := rfl
  obtain ⟨p, ir, hp, hir, hf, name, var, he, hc⟩ : ∃ p ir, parseProgram (spacedTokens circling) = .ok p ∧
      typecheck p = .ok ir ∧ ir.UserDefined "f" ∧ ∃ name var,
        (ir.scope ScopeId.root).entries[1]? = some (.newVar name var) ∧ var.value.Calls "f" :=
    ⟨_, _, rfl, rfl, ⟨_, rfl, rfl⟩, _, _, rfl, .here⟩
  obtain ⟨lines, h⟩ := compile_spaced hspelled hsrc hp hir
  obtain ⟨i, -, hi, hlt⟩ := (compile_calls h).1 1 _ "f" he hf (.value hc)
  exact ⟨_, h, i, hlt name var rfl, hi⟩

end Scriptlet
