import Scriptlet.Proofs.Diagnosis.Names
import Scriptlet.Proofs.Mirror.Basic

/-!
# Calls

What is called in a representation (`Value.Calls`, `Ir.Calls`) and what is called in a program (`Item.calls`).  The
former is among the latter, but for the operators and actions of the language, with which expressions and statements
are written (`calls_of_item`).
-/

namespace Scriptlet

/-! ### Calls in representations -/

/-- The operator or function is applied somewhere in the value. -/
inductive Value.Calls (f : String) : Value → Prop where
  | here {args : List Var} : Calls f (.apply f args)
  | arg {op : String} {args : List Var} {a : Var} (ha : a ∈ args) (h : Calls f a.value) : Calls f (.apply op args)

/-- The operator or function is applied in a value of the entry, or in a nested scope, at any depth. -/
inductive Ir.Calls (ir : Ir) (f : String) : Entry → Prop where
  | value {name : String} {var : Var} (h : var.value.Calls f) : Calls ir f (.newVar name var)
  | action {args : List Var} : Calls ir f (.action f args)
  | arg {op : String} {args : List Var} {a : Var} (ha : a ∈ args) (h : a.value.Calls f) : Calls ir f (.action op args)
  | guard {kind : ScopeKind} {born : List String} {v : Value} {id : Nat} (h : v.Calls f) :
    Calls ir f (.scoped kind born (some v) id)
  | inner {kind : ScopeKind} {born : List String} {guard : Option Value} {id : Nat} {e : Entry}
    (he : e ∈ (ir.scope id).entries) (h : Calls ir f e) : Calls ir f (.scoped kind born guard id)

/-! ### Calls in programs -/

mutual

/-- The names that are called in an expression. -/
def Expr.calls : Expr → List String
  | .literal _ _ | .name _ _ => []
  | .call f args _ => f.name :: Expr.callsOfList args
  | .unary _ e _ => e.calls
  | .binary _ l r _ => l.calls ++ r.calls

/-- The names that are called in expressions. -/
def Expr.callsOfList : List Expr → List String
  | [] => []
  | e :: es => e.calls ++ Expr.callsOfList es

end

/-- The names that are called in what a loop runs over. -/
def Iterable.calls : Iterable → List String
  | range _ _ _ _ => []
  | expr e => e.calls

mutual

/-- The names that are called in an item. -/
def Item.calls : Item → List String
  | .letDecl d _ => d.value.calls
  | .func _ _ _ body _ => body.calls

/-- The names that are called in a statement. -/
def Stmt.calls : Stmt → List String
  | .item i => i.calls
  | .varDecl d _ => d.value.calls
  | .assign _ value _ => value.calls
  | .print args _ => Expr.callsOfList args
  | .ret value _ => Expr.callsOfList value.toList
  | .call f args _ => f.name :: Expr.callsOfList args
  | .forLoop _ iterable body _ => iterable.calls ++ body.calls
  | .whileLoop cond body _ | .ifThen cond body _ => cond.calls ++ body.calls
  | .ifElse cond thenBlock elseBlock _ => cond.calls ++ (thenBlock.calls ++ elseBlock.calls)
  | .switch subject cases _ => subject.calls ++ callsOfCases cases

/-- The names that are called in a block. -/
def Block.calls : Block → List String
  | .mk stmts _ => callsOfStmts stmts

/-- The names that are called in statements. -/
def callsOfStmts : List Stmt → List String
  | [] => []
  | s :: ss => s.calls ++ callsOfStmts ss

/-- The names that are called in the blocks of cases. -/
def callsOfCases : List Case → List String
  | [] => []
  | .mk _ body _ :: cs => body.calls ++ callsOfCases cs

end

/-! ### Calls in what programs become -/

variable {ir : Ir} {f : String}

private theorem ne_of_free {name : String} (hf : OpName.Free f) (h : OpName.IsBuiltin name ∨ name ∈ OpName.actions) :
    f ≠ name := by
  rintro rfl
  rcases h with h | h
  · exact hf.1 h
  · exact hf.2 h

/-- Constants call nothing. -/
private theorem not_calls_literal {l : Literal} {v : Value} (h : l.Becomes v) : ¬ v.Calls f := by
  intro hc
  cases h <;> cases hc

private theorem not_calls_const {c : Const} {x : Var} (h : c.Becomes x) : ¬ x.value.Calls f := by
  cases h with
  | mk h => exact not_calls_literal h

/-- An application of something else calls what its arguments call. -/
private theorem Value.Calls.exists_arg {op : String} {args : List Var} (h : (Value.apply op args).Calls f)
    (hne : f ≠ op) : ∃ a ∈ args, a.value.Calls f := by
  cases h with
  | here => exact absurd rfl hne
  | arg ha h => exact ⟨_, ha, h⟩

mutual

/-- A value calls what its expression calls, and operators of the language. -/
private theorem calls_of_value (hf : OpName.Free f) : (e : Expr) → ∀ ⦃v : Value⦄, e.Becomes v → v.Calls f → f ∈ e.calls
  | .literal _ _, _, .literal _ hl, hc => absurd hc (not_calls_literal hl)
  | .name _ _, _, .name _ _ _, hc => nomatch hc
  | .call g args _, _, .call _ _ hargs, hc => by
    cases hc with
    | here => exact List.mem_cons_self
    | arg ha hc => exact List.mem_cons_of_mem _ (calls_of_args hf args hargs _ ha hc)
  | .unary op e _, _, .unary ty _ hop he, hc => by
    obtain rfl := UnaryOp.mem_names.1 hop
    obtain ⟨a, ha, hc⟩ := hc.exists_arg (ne_of_free hf (.inl op.isBuiltin))
    rw [List.mem_singleton.1 ha] at hc
    exact calls_of_value hf e he hc
  | .binary op l r _, _, .binary ty ty' _ hop hl hr, hc => by
    obtain rfl := BinaryOp.mem_names.1 hop
    obtain ⟨a, ha, hc⟩ := hc.exists_arg (ne_of_free hf (.inl op.isBuiltin))
    rcases List.mem_cons.1 ha with rfl | ha
    · exact List.mem_append_left _ (calls_of_value hf l hl hc)
    · rw [List.mem_singleton.1 ha] at hc
      exact List.mem_append_right _ (calls_of_value hf r hr hc)

private theorem calls_of_args (hf : OpName.Free f) : (es : List Expr) → ∀ ⦃vars : List Var⦄, Expr.AllBecome es vars →
    ∀ a ∈ vars, a.value.Calls f → f ∈ Expr.callsOfList es
  | [], _, .nil, _, ha, _ => nomatch ha
  | e :: es, _, .cons ty he hes, a, ha, hc => by
    rcases List.mem_cons.1 ha with rfl | ha
    · exact List.mem_append_left _ (calls_of_value hf e he hc)
    · exact List.mem_append_right _ (calls_of_args hf es hes a ha hc)

end

/-- An entry that is an action of the language calls what its arguments call. -/
private theorem calls_of_action (hf : OpName.Free f) {op : String} (hop : op ∈ OpName.actions) {args : List Var}
    (hc : ir.Calls f (.action op args)) : ∃ a ∈ args, a.value.Calls f := by
  cases hc with
  | action => exact absurd hop hf.2
  | arg ha hc => exact ⟨_, ha, hc⟩

/-- The guard of a loop calls what is called in what the loop runs over. -/
private theorem calls_of_iterable (hf : OpName.Free f) {i : Iterable} {v : Value} (h : i.Becomes v) (hc : v.Calls f) :
    f ∈ i.calls := by
  cases h with
  | @range first last step span x y z hx hy hz =>
    obtain ⟨a, ha, hc⟩ := hc.exists_arg (ne_of_free hf (.inr (by decide)))
    have hconstants : ∀ a ∈ [x, y, z], ¬ a.value.Calls f :=
      List.forall_mem_cons.2 ⟨not_calls_const hx, List.forall_mem_cons.2 ⟨not_calls_const hy,
        List.forall_mem_singleton.2 (not_calls_const hz)⟩⟩
    exact absurd hc (hconstants a ha)
  | expr ty h =>
    obtain ⟨a, ha, hc⟩ := hc.exists_arg (ne_of_free hf (.inr (by decide)))
    rw [List.mem_singleton.1 ha] at hc
    exact calls_of_value hf _ h hc

/-- An action on the subject and constants calls what the subject calls. -/
private theorem calls_of_constants (hf : OpName.Free f) {op : String} (hop : op ∈ OpName.actions) {subject : Var}
    {constants : List Var} (hconstants : ∀ x ∈ constants, ¬ x.value.Calls f)
    (hc : (Value.apply op (subject :: constants)).Calls f) : subject.value.Calls f := by
  obtain ⟨a, ha, hcall⟩ := hc.exists_arg (ne_of_free hf (.inr hop))
  rcases List.mem_cons.1 ha with rfl | ha
  · exact hcall
  · exact absurd hcall (hconstants a ha)

/-- The guard of a case calls what the subject calls. -/
private theorem calls_of_guard (hf : OpName.Free f) {subject : Var} {c : Comparator} {guard : Value}
    (h : c.Becomes subject guard) (hc : guard.Calls f) : subject.value.Calls f := by
  cases h with
  | const hx => exact calls_of_constants hf (by decide) (List.forall_mem_singleton.2 (not_calls_const hx)) hc
  | oneOf hxs =>
    refine calls_of_constants hf (by decide) (fun x hx => ?_) hc
    obtain ⟨c, hcx⟩ := Const.Becomes.exists_of_mem hxs hx
    exact not_calls_const hcx
  | range hx hy =>
    refine calls_of_constants hf (by decide) (List.forall_mem_cons.2 ⟨not_calls_const hx, ?_⟩) hc
    exact List.forall_mem_singleton.2 (not_calls_const hy)

/-- An entry for a scope calls what its guard calls and what is called in the scope. -/
private theorem calls_of_scoped {kind : ScopeKind} {born : List String} {guard : Option Value} {id : Nat}
    {names inner : List String} (hc : ir.Calls f (.scoped kind born guard id))
    (hguard : ∀ v ∈ guard, v.Calls f → f ∈ names) (hinner : ∀ e ∈ (ir.scope id).entries, ir.Calls f e → f ∈ inner) :
    f ∈ names ++ inner := by
  cases hc with
  | guard hc => exact List.mem_append_left _ (hguard _ rfl hc)
  | inner he hc => exact List.mem_append_right _ (hinner _ he hc)

mutual

/-- An entry calls what its item calls, and operators and actions of the language. -/
theorem calls_of_item (hf : OpName.Free f) : (i : Item) → ∀ ⦃n : Nat⦄ ⦃es : List Entry⦄ ⦃n' : Nat⦄,
    Item.Becomes ir i n es n' → ∀ e ∈ es, ir.Calls f e → f ∈ i.calls
  | .letDecl d _, _, _, _, .letDecl _ _ hv, e, he, hc => by
    rw [List.mem_singleton.1 he] at hc
    cases hc with
    | value hc => exact calls_of_value hf _ hv hc
  | .func _ _ _ body _, _, _, _, .func _ _ _ hb, e, he, hc => by
    rw [List.mem_singleton.1 he] at hc
    have hbody : f ∈ [] ++ body.calls := calls_of_scoped hc (fun _ h => nomatch h) (calls_of_block hf body hb)
    exact hbody

private theorem calls_of_stmt (hf : OpName.Free f) : (s : Stmt) → ∀ ⦃n : Nat⦄ ⦃es : List Entry⦄ ⦃n' : Nat⦄,
    Stmt.Becomes ir s n es n' → ∀ e ∈ es, ir.Calls f e → f ∈ s.calls
  | .item i, _, _, _, .item hi, e, he, hc => calls_of_item hf i hi e he hc
  | .varDecl d _, _, _, _, .varDecl _ _ hv, e, he, hc => by
    rw [List.mem_singleton.1 he] at hc
    cases hc with
    | value hc => exact calls_of_value hf _ hv hc
  | .assign _ value _, _, _, _, .assign _ _ _ _ _ hv, e, he, hc => by
    rw [List.mem_singleton.1 he] at hc
    obtain ⟨a, ha, hc⟩ := calls_of_action hf (by decide) hc
    rcases List.mem_cons.1 ha with rfl | ha
    · exact nomatch hc
    · rw [List.mem_singleton.1 ha] at hc
      exact calls_of_value hf value hv hc
  | .print args _, _, _, _, .print _ hargs, e, he, hc => by
    rw [List.mem_singleton.1 he] at hc
    obtain ⟨a, ha, hc⟩ := calls_of_action hf (by decide) hc
    exact calls_of_args hf args hargs a ha hc
  | .ret value _, _, _, _, .ret _ hargs, e, he, hc => by
    rw [List.mem_singleton.1 he] at hc
    obtain ⟨a, ha, hc⟩ := calls_of_action hf (by decide) hc
    exact calls_of_args hf value.toList hargs a ha hc
  | .call g args _, _, _, _, .call _ _ hargs, e, he, hc => by
    rw [List.mem_singleton.1 he] at hc
    cases hc with
    | action => exact List.mem_cons_self
    | arg ha hc => exact List.mem_cons_of_mem _ (calls_of_args hf args hargs _ ha hc)
  | .forLoop _ iterable body _, _, _, _, .forLoop _ _ hi hb, e, he, hc => by
    rw [List.mem_singleton.1 he] at hc
    refine calls_of_scoped hc ?_ (calls_of_block hf body hb)
    rintro v ⟨⟩ hc
    exact calls_of_iterable hf hi hc
  | .whileLoop cond body _, _, _, _, .whileLoop _ hv hb, e, he, hc => by
    rw [List.mem_singleton.1 he] at hc
    refine calls_of_scoped hc ?_ (calls_of_block hf body hb)
    rintro v ⟨⟩ hc
    exact calls_of_value hf cond hv hc
  | .ifThen cond body _, _, _, _, .ifThen _ hv hb, e, he, hc => by
    rw [List.mem_singleton.1 he] at hc
    refine calls_of_scoped hc ?_ (calls_of_block hf body hb)
    rintro v ⟨⟩ hc
    exact calls_of_value hf cond hv hc
  | .ifElse cond body other _, _, _, _, .ifElse _ hv hb hb', e, he, hc => by
    rcases List.mem_cons.1 he with rfl | he
    · rw [Stmt.calls, ← List.append_assoc]
      refine List.mem_append_left _ (calls_of_scoped hc ?_ (calls_of_block hf body hb))
      rintro v ⟨⟩ hc
      exact calls_of_value hf cond hv hc
    · rw [List.mem_singleton.1 he] at hc
      have hother : f ∈ [] ++ other.calls :=
        calls_of_scoped hc (fun _ h => nomatch h) (calls_of_block hf other hb')
      exact List.mem_append_right _ (List.mem_append_right _ hother)
  | .switch subject cases _, _, _, _, .switch _ _ hv hcs, e, he, hc => by
    rcases calls_of_cases hf cases hcs e he hc with hc | hc
    · exact List.mem_append_left _ (calls_of_value hf subject hv hc)
    · exact List.mem_append_right _ hc

private theorem calls_of_block (hf : OpName.Free f) : (b : Block) → ∀ ⦃n n' : Nat⦄, Block.Becomes ir b n n' →
    ∀ e ∈ (ir.scope n).entries, ir.Calls f e → f ∈ b.calls
  | .mk stmts _, _, _, .mk _ hs, e, he, hc => calls_of_stmts hf stmts hs e (Array.mem_toList_iff.2 he) hc

private theorem calls_of_stmts (hf : OpName.Free f) : (ss : List Stmt) → ∀ ⦃n : Nat⦄ ⦃es : List Entry⦄ ⦃n' : Nat⦄,
    StmtsBecome ir ss n es n' → ∀ e ∈ es, ir.Calls f e → f ∈ callsOfStmts ss
  | [], _, _, _, .nil, _, he, _ => nomatch he
  | s :: ss, _, _, _, .cons hs hss, e, he, hc => by
    rcases List.mem_append.1 he with he | he
    · exact List.mem_append_left _ (calls_of_stmt hf s hs e he hc)
    · exact List.mem_append_right _ (calls_of_stmts hf ss hss e he hc)

/-- The subject of a `switch` is part of the guard of every case. -/
private theorem calls_of_cases (hf : OpName.Free f) : (cs : List Case) → ∀ ⦃subject : Var⦄ ⦃n : Nat⦄ ⦃es : List Entry⦄
    ⦃n' : Nat⦄, CasesBecome ir subject cs n es n' → ∀ e ∈ es, ir.Calls f e →
      subject.value.Calls f ∨ f ∈ callsOfCases cs
  | [], _, _, _, _, .nil, _, he, _ => nomatch he
  | .mk (some c) body _ :: cs, _, _, _, _, .case _ hg hb hcs, e, he, hc => by
    rcases List.mem_cons.1 he with rfl | he
    · cases hc with
      | guard hc => exact .inl (calls_of_guard hf hg hc)
      | inner he hc => exact .inr (List.mem_append_left _ (calls_of_block hf body hb _ he hc))
    · exact (calls_of_cases hf cs hcs e he hc).imp_right (List.mem_append_right _)
  | [.mk none body _], _, _, _, _, .default _ hb, e, he, hc => by
    rw [List.mem_singleton.1 he] at hc
    cases hc with
    | inner he hc => exact .inr (List.mem_append_left _ (calls_of_block hf body hb _ he hc))

end

end Scriptlet
