import Mathlib.Algebra.BigOperators.Group.List.Basic
import Scriptlet.Proofs.Calls.Order
import Scriptlet.Proofs.Mirror.Inverse

/-!
# Calls are counted

`compile_applied`: the representation of a text applies a function as often as the program calls it, where a call in
the subject of a `switch` counts once for every case that has something to compare the subject with.  The subject is
part of the guard of each such case, and no part of anything else, so that without such a case its calls are lost.
Where each subject with calls in it has exactly one such case, none is lost or repeated (`Program.callsPerCase_eq`).

Every scope is counted once, by its number: the scopes inside a statement have the numbers from `n` up to `n'`, and
what is applied in them is counted beside the entries of the statement (`Tallies`).
-/

namespace Scriptlet

open Lexical

/-! ### Applications in representations -/

mutual

/-- The operators and functions that are applied in the value, each as often as it is. -/
def Value.applied : Value → List String
  | .arg | .ref _ _ | .atom _ _ => []
  | .apply op args => op :: Var.appliedOfList args

/-- The operators and functions that are applied in the value of the variable. -/
def Var.applied : Var → List String
  | .mk value _ _ _ => value.applied

/-- The operators and functions that are applied in the values of the variables. -/
def Var.appliedOfList : List Var → List String
  | [] => []
  | v :: vs => v.applied ++ Var.appliedOfList vs

end

/-- What is applied in the entry itself: of a nested scope, only what is applied in its guard. -/
def Entry.applied : Entry → List String
  | newVar _ var => var.applied
  | action op args => op :: Var.appliedOfList args
  | .scoped _ _ guard _ => guard.toList.flatMap Value.applied

/-- What is applied in the entries of the scope, the scopes inside apart. -/
def Scope.applied (s : Scope) : List String := s.entries.toList.flatMap Entry.applied

namespace Ir

/-- What is applied in the scopes, each of which counts once. -/
def applied (ir : Ir) : List String := ir.scopes.toList.flatMap Scope.applied

variable (ir : Ir)

/-- What is applied in the scopes from `n` up to `n'`. -/
def appliedIn (n n' : Nat) : List String := (List.range' n (n' - n)).flatMap fun id => (ir.scope id).applied

@[simp] theorem appliedIn_self (n : Nat) : ir.appliedIn n n = [] := by
  simp [appliedIn]

private theorem appliedIn_append {n m n' : Nat} (hn : n ≤ m) (hm : m ≤ n') :
    ir.appliedIn n m ++ ir.appliedIn m n' = ir.appliedIn n n' := by
  have hrange : List.range' n (m - n) ++ List.range' m (n' - m) = List.range' n (n' - n) := by
    have hmid : n + 1 * (m - n) = m := by omega
    have hlength : m - n + (n' - m) = n' - n := by omega
    rw [← hlength, ← List.range'_append, hmid]
  rw [appliedIn, appliedIn, ← List.flatMap_append, hrange, appliedIn]

private theorem appliedIn_cons {n n' : Nat} (h : n < n') :
    ir.appliedIn n n' = (ir.scope n).applied ++ ir.appliedIn (n + 1) n' := by
  rw [← ir.appliedIn_append (Nat.le_succ n) h]
  simp [appliedIn]

private theorem applied_eq : ir.applied = ir.appliedIn 0 ir.scopes.size := by
  have hscopes : ir.scopes.toList = (List.range' 0 ir.scopes.size).map ir.scope := by
    refine List.ext_getElem (by simp) fun i h _ => ?_
    have hi : i < ir.scopes.size := by simpa using h
    simp [scope, hi]
  rw [applied, hscopes, List.flatMap_map, appliedIn, Nat.sub_zero]

end Ir

/-! ### Calls in programs, with those of a subject repeated -/

section Weighted

variable (weight : List Case → Nat)

mutual

/-- The names that are called in an item, those in the subject of a `switch` as often as its cases weigh. -/
def Item.callsWith : Item → List String
  | .letDecl d _ => d.value.calls
  | .func _ _ _ body _ => body.callsWith

/-- The names that are called in a statement, those in the subject of a `switch` as often as its cases weigh. -/
def Stmt.callsWith : Stmt → List String
  | .item i => i.callsWith
  | .varDecl d _ => d.value.calls
  | .assign _ value _ => value.calls
  | .print args _ => Expr.callsOfList args
  | .ret value _ => Expr.callsOfList value.toList
  | .call f args _ => f.name :: Expr.callsOfList args
  | .forLoop _ iterable body _ => iterable.calls ++ body.callsWith
  | .whileLoop cond body _ | .ifThen cond body _ => cond.calls ++ body.callsWith
  | .ifElse cond thenBlock elseBlock _ => cond.calls ++ (thenBlock.callsWith ++ elseBlock.callsWith)
  | .switch subject cases _ =>
    (List.replicate (weight cases) subject.calls).flatten ++ callsWithOfCases cases

/-- The names that are called in a block, those in the subject of a `switch` as often as its cases weigh. -/
def Block.callsWith : Block → List String
  | .mk stmts _ => callsWithOfStmts stmts

/-- The names that are called in statements, those in the subject of a `switch` as often as its cases weigh. -/
def callsWithOfStmts : List Stmt → List String
  | [] => []
  | s :: ss => s.callsWith ++ callsWithOfStmts ss

/-- The names that are called in the blocks of cases. -/
def callsWithOfCases : List Case → List String
  | [] => []
  | .mk _ body _ :: cs => body.callsWith ++ callsWithOfCases cs

end

end Weighted

namespace Program

/-- The names that are called in a program, one with every call. -/
def calls (p : Program) : List String := p.items.flatMap Item.calls

/-- The names that are called in a program, those in the subject of a `switch` once for every case that compares it
with something. -/
def callsPerCase (p : Program) : List String :=
  p.items.flatMap (Item.callsWith (List.countP fun c => c.comparator.isSome))

end Program

/-! ### Where the subjects count once -/

mutual

/-- The `switch` statements in an item, by their subjects and their cases. -/
def Item.switches : Item → List (Expr × List Case)
  | .letDecl _ _ => []
  | .func _ _ _ body _ => body.switches

/-- The `switch` statements in a statement, by their subjects and their cases. -/
def Stmt.switches : Stmt → List (Expr × List Case)
  | .item i => i.switches
  | .varDecl _ _ | .assign _ _ _ | .print _ _ | .ret _ _ | .call _ _ _ => []
  | .forLoop _ _ body _ | .whileLoop _ body _ | .ifThen _ body _ => body.switches
  | .ifElse _ thenBlock elseBlock _ => thenBlock.switches ++ elseBlock.switches
  | .switch subject cases _ => (subject, cases) :: switchesOfCases cases

/-- The `switch` statements in a block, by their subjects and their cases. -/
def Block.switches : Block → List (Expr × List Case)
  | .mk stmts _ => switchesOfStmts stmts

/-- The `switch` statements in statements, by their subjects and their cases. -/
def switchesOfStmts : List Stmt → List (Expr × List Case)
  | [] => []
  | s :: ss => s.switches ++ switchesOfStmts ss

/-- The `switch` statements in the blocks of cases, by their subjects and their cases. -/
def switchesOfCases : List Case → List (Expr × List Case)
  | [] => []
  | .mk _ body _ :: cs => body.switches ++ switchesOfCases cs

end

/-- The subject calls nothing, or its cases make it count once. -/
private def CountsOnce (weight : List Case → Nat) (s : Expr × List Case) : Prop := s.1.calls = [] ∨ weight s.2 = 1

section Once

variable {weight : List Case → Nat}

private theorem CountsOnce.replicate_eq {subject : Expr} {cases : List Case} (h : CountsOnce weight (subject, cases)) :
    (List.replicate (weight cases) subject.calls).flatten = subject.calls := by
  rcases h with h | h
  · have hnil : subject.calls = [] := h
    simp [hnil]
  · have hone : weight cases = 1 := h
    simp [hone]

mutual

private theorem Item.callsWith_eq : (i : Item) → (∀ s ∈ i.switches, CountsOnce weight s) → i.callsWith weight = i.calls
  | .letDecl _ _, _ => rfl
  | .func _ _ _ body _, h => body.callsWith_eq h

private theorem Stmt.callsWith_eq :
    (s : Stmt) → (∀ s' ∈ s.switches, CountsOnce weight s') → s.callsWith weight = s.calls
  | .item i, h => i.callsWith_eq h
  | .varDecl _ _, _ | .assign _ _ _, _ | .print _ _, _ | .ret _ _, _ | .call _ _ _, _ => rfl
  | .forLoop _ iterable body _, h => congrArg (iterable.calls ++ ·) (body.callsWith_eq h)
  | .whileLoop cond body _, h | .ifThen cond body _, h => congrArg (cond.calls ++ ·) (body.callsWith_eq h)
  | .ifElse _ body other _, h => by
    obtain ⟨hbody, hother⟩ := List.forall_mem_append.1 h
    rw [Stmt.callsWith, body.callsWith_eq hbody, other.callsWith_eq hother, Stmt.calls]
  | .switch subject cases _, h => by
    obtain ⟨hsubject, hcases⟩ := List.forall_mem_cons.1 h
    rw [Stmt.callsWith, hsubject.replicate_eq, callsWithOfCases_eq cases hcases, Stmt.calls]

private theorem Block.callsWith_eq :
    (b : Block) → (∀ s ∈ b.switches, CountsOnce weight s) → b.callsWith weight = b.calls
  | .mk stmts _, h => callsWithOfStmts_eq stmts h

private theorem callsWithOfStmts_eq : (ss : List Stmt) → (∀ s ∈ switchesOfStmts ss, CountsOnce weight s) →
    callsWithOfStmts weight ss = callsOfStmts ss
  | [], _ => rfl
  | s :: ss, h => by
    obtain ⟨hs, hss⟩ := List.forall_mem_append.1 h
    rw [callsWithOfStmts, s.callsWith_eq hs, callsWithOfStmts_eq ss hss, callsOfStmts]

private theorem callsWithOfCases_eq : (cs : List Case) → (∀ s ∈ switchesOfCases cs, CountsOnce weight s) →
    callsWithOfCases weight cs = callsOfCases cs
  | [], _ => rfl
  | .mk _ body _ :: cs, h => by
    obtain ⟨hbody, hcs⟩ := List.forall_mem_append.1 h
    rw [callsWithOfCases, body.callsWith_eq hbody, callsWithOfCases_eq cs hcs, callsOfCases]

end

end Once

/-- If every subject that calls something is compared in just one case, the calls are counted as they stand. -/
theorem Program.callsPerCase_eq {p : Program} (h : ∀ i ∈ p.items, ∀ s ∈ i.switches,
    s.1.calls = [] ∨ s.2.countP (fun c => c.comparator.isSome) = 1) : p.callsPerCase = p.calls :=
  List.flatMap_congr fun i hi => i.callsWith_eq (h i hi)

/-! ### Names of functions -/

/-- The name is that of a function, not one with which the representation says what else the program does. -/
structure OpName.OfFunction (name : String) : Prop where
  unary : ∀ op : UnaryOp, op.opName ≠ name
  binary : ∀ op : BinaryOp, op.opName ≠ name
  action : name ∉ OpName.actions

private theorem OpName.Free.ofFunction {name : String} (h : OpName.Free name) : OpName.OfFunction name where
  unary op hop := h.1 (hop ▸ op.isBuiltin)
  binary op hop := h.1 (hop ▸ op.isBuiltin)
  action := h.2

private theorem OpName.ofFunction_input : OpName.OfFunction OpName.input where
  unary op := by cases op <;> decide
  binary op := by cases op <;> decide
  action := by decide

/-! ### What expressions become -/

variable {ir : Ir} {f : String}

/-- Constants apply nothing. -/
private theorem Literal.Becomes.applied_eq {l : Literal} {v : Value} (h : l.Becomes v) : v.applied = [] := by
  cases h <;> rfl

private theorem Const.Becomes.applied_eq {c : Const} {x : Var} (h : c.Becomes x) : x.applied = [] := by
  cases h with
  | mk h => exact h.applied_eq

private theorem Var.appliedOfList_eq (vs : List Var) : Var.appliedOfList vs = vs.flatMap Var.applied := by
  induction vs with
  | nil => rfl
  | cons v vs ih => rw [appliedOfList, ih, List.flatMap_cons]

mutual

/-- A function is applied in a value as often as it is called in its expression. -/
private theorem Expr.Becomes.count_applied (hf : OpName.OfFunction f) {e : Expr} {v : Value} (h : e.Becomes v) :
    v.applied.count f = e.calls.count f := by
  cases h with
  | literal span hl =>
    rw [hl.applied_eq]
    rfl
  | name n span b => rfl
  | call g span hargs => rw [Value.applied, Expr.calls, List.count_cons, List.count_cons, hargs.count_applied hf]
  | @unary op _ _ _ ty span hop he =>
    obtain rfl := UnaryOp.mem_names.1 hop
    rw [Value.applied, List.count_cons_of_ne (hf.unary op), Expr.calls, ← he.count_applied hf]
    simp [Var.appliedOfList, Var.applied]
  | @binary op _ _ _ _ _ ty ty' span hop hl hr =>
    obtain rfl := BinaryOp.mem_names.1 hop
    rw [Value.applied, List.count_cons_of_ne (hf.binary op), Expr.calls, List.count_append, ← hl.count_applied hf,
      ← hr.count_applied hf]
    simp [Var.appliedOfList, Var.applied]

private theorem Expr.AllBecome.count_applied (hf : OpName.OfFunction f) {es : List Expr} {vars : List Var}
    (h : Expr.AllBecome es vars) : (Var.appliedOfList vars).count f = (Expr.callsOfList es).count f := by
  cases h with
  | nil => rfl
  | cons ty he hes =>
    rw [Var.appliedOfList, Expr.callsOfList, List.count_append, List.count_append, Var.applied, he.count_applied hf,
      hes.count_applied hf]

end

/-- An action of the language applies what its arguments apply. -/
private theorem count_action (hf : OpName.OfFunction f) {op : String} (hop : op ∈ OpName.actions) (args : List Var) :
    (op :: Var.appliedOfList args).count f = (Var.appliedOfList args).count f := by
  have hne : op ≠ f := by
    rintro rfl
    exact hf.action hop
  exact List.count_cons_of_ne hne

private theorem Iterable.Becomes.count_applied (hf : OpName.OfFunction f) {i : Iterable} {v : Value} (h : i.Becomes v) :
    v.applied.count f = i.calls.count f := by
  cases h with
  | range hx hy hz =>
    rw [Value.applied, count_action hf (by decide)]
    simp [Var.appliedOfList, hx.applied_eq, hy.applied_eq, hz.applied_eq, Iterable.calls]
  | expr ty he =>
    rw [Value.applied, count_action hf (by decide), Iterable.calls, ← he.count_applied hf]
    simp [Var.appliedOfList, Var.applied]

/-- The guard of a case applies what its subject applies. -/
private theorem Comparator.Becomes.count_applied (hf : OpName.OfFunction f) {subject : Var} {c : Comparator}
    {guard : Value} (h : c.Becomes subject guard) : guard.applied.count f = subject.applied.count f := by
  cases h with
  | const hx =>
    rw [Value.applied, count_action hf (by decide)]
    simp [Var.appliedOfList, hx.applied_eq]
  | @oneOf _ xs hxs =>
    have hconstants : xs.flatMap Var.applied = [] := by
      refine List.flatMap_eq_nil_iff.2 fun x hx => ?_
      obtain ⟨c, hcx⟩ := Const.Becomes.exists_of_mem hxs hx
      exact hcx.applied_eq
    rw [Value.applied, count_action hf (by decide), Var.appliedOfList, Var.appliedOfList_eq, hconstants,
      List.append_nil]
  | range hx hy =>
    rw [Value.applied, count_action hf (by decide)]
    simp [Var.appliedOfList, hx.applied_eq, hy.applied_eq]

/-! ### What statements become -/

/-- The function is applied so often in the entries and in the scopes from `n` up to `n'`, which are those inside. -/
structure Tallies (ir : Ir) (f : String) (es : List Entry) (n n' k : Nat) : Prop where
  le : n ≤ n'
  count : (es.flatMap Entry.applied ++ ir.appliedIn n n').count f = k

namespace Tallies

variable {es es' : List Entry} {n m n' k k' : Nat}

private protected theorem nil : Tallies ir f [] n n 0 := ⟨Nat.le_refl n, by simp⟩

/-- An entry without a scope inside. -/
private protected theorem entry {e : Entry} (h : e.applied.count f = k) : Tallies ir f [e] n n k :=
  ⟨Nat.le_refl n, by simpa using h⟩

private protected theorem append (h : Tallies ir f es n m k) (h' : Tallies ir f es' m n' k') :
    Tallies ir f (es ++ es') n n' (k + k') where
  le := Nat.le_trans h.le h'.le
  count := by
    have hcount := h.count
    have hcount' := h'.count
    rw [← ir.appliedIn_append h.le h'.le]
    simp only [List.flatMap_append, List.count_append] at hcount hcount' ⊢
    omega

private protected theorem cons {e : Entry} (h : Tallies ir f [e] n m k) (h' : Tallies ir f es m n' k') :
    Tallies ir f (e :: es) n n' (k + k') := h.append h'

variable {kind : ScopeKind} {born : List String}

/-- An entry for the scope `n`, which has its own entries and scopes inside. -/
private protected theorem plain (h : Tallies ir f (ir.scope n).entries.toList (n + 1) n' k) :
    Tallies ir f [.scoped kind born none n] n n' k where
  le := Nat.le_of_lt h.le
  count := by
    have hcount := h.count
    rw [ir.appliedIn_cons h.le, Scope.applied, ← List.append_assoc]
    simpa [Entry.applied] using hcount

/-- An entry for the scope `n` with a guard, in which the function is applied as well. -/
private protected theorem guarded {guard : Value} (hguard : guard.applied.count f = k)
    (h : Tallies ir f (ir.scope n).entries.toList (n + 1) n' k') :
    Tallies ir f [.scoped kind born (some guard) n] n n' (k + k') where
  le := Nat.le_of_lt h.le
  count := by
    have hcount := h.count
    rw [ir.appliedIn_cons h.le, Scope.applied]
    simp only [List.flatMap_cons, List.flatMap_nil, Entry.applied, Option.toList_some, List.append_nil,
      List.count_append] at hcount ⊢
    omega

end Tallies

/-- The weight of a subject: the cases that compare it with something. -/
private abbrev comparisons : List Case → Nat := List.countP fun c => c.comparator.isSome

private theorem count_replicate (k : Nat) (names : List String) :
    ((List.replicate k names).flatten).count f = k * names.count f := by
  induction k with
  | zero => simp
  | succ k ih => rw [List.replicate_succ, List.flatten_cons, List.count_append, ih, Nat.succ_mul, Nat.add_comm]

mutual

/-- What stands for an item applies a function as often as the item calls it. -/
private theorem Item.Becomes.tallies (hf : OpName.OfFunction f) {i : Item} {n n' : Nat} {es : List Entry}
    (h : Item.Becomes ir i n es n') : Tallies ir f es n n' ((i.callsWith comparisons).count f) := by
  cases h with
  | letDecl ty span hv => exact .entry (hv.count_applied hf)
  | func span _ _ hb => exact .plain (hb.tallies hf)

private theorem Stmt.Becomes.tallies (hf : OpName.OfFunction f) {s : Stmt} {n n' : Nat} {es : List Entry}
    (h : Stmt.Becomes ir s n es n') : Tallies ir f es n n' ((s.callsWith comparisons).count f) := by
  cases h with
  | item hi => exact hi.tallies hf
  | varDecl ty span hv => exact .entry (hv.count_applied hf)
  | assign target b ty ty' span hv =>
    refine .entry ?_
    rw [Entry.applied, count_action hf (by decide), Stmt.callsWith, ← hv.count_applied hf]
    simp [Var.appliedOfList, Var.applied, Value.applied]
  | print span hargs =>
    refine .entry ?_
    rw [Entry.applied, count_action hf (by decide), hargs.count_applied hf, Stmt.callsWith]
  | ret span hargs =>
    refine .entry ?_
    rw [Entry.applied, count_action hf (by decide), hargs.count_applied hf, Stmt.callsWith]
  | call callee span hargs =>
    refine .entry ?_
    rw [Entry.applied, List.count_cons, hargs.count_applied hf, Stmt.callsWith, List.count_cons]
  | forLoop var span hi hb =>
    rw [Stmt.callsWith, List.count_append]
    exact .guarded (hi.count_applied hf) (hb.tallies hf)
  | whileLoop span hv hb =>
    rw [Stmt.callsWith, List.count_append]
    exact .guarded (hv.count_applied hf) (hb.tallies hf)
  | ifThen span hv hb =>
    rw [Stmt.callsWith, List.count_append]
    exact .guarded (hv.count_applied hf) (hb.tallies hf)
  | ifElse span hv hb ho =>
    rw [Stmt.callsWith, List.count_append, List.count_append, ← Nat.add_assoc]
    exact .cons (.guarded (hv.count_applied hf) (hb.tallies hf)) (.plain (ho.tallies hf))
  | switch ty span hv hcs =>
    rw [Stmt.callsWith, List.count_append, count_replicate, ← hv.count_applied hf]
    exact hcs.tallies hf

private theorem Block.Becomes.tallies (hf : OpName.OfFunction f) {b : Block} {n n' : Nat}
    (h : Block.Becomes ir b n n') :
    Tallies ir f (ir.scope n).entries.toList (n + 1) n' ((b.callsWith comparisons).count f) := by
  cases h with
  | mk span hs => exact hs.tallies hf

private theorem StmtsBecome.tallies (hf : OpName.OfFunction f) {ss : List Stmt} {n n' : Nat} {es : List Entry}
    (h : StmtsBecome ir ss n es n') : Tallies ir f es n n' ((callsWithOfStmts comparisons ss).count f) := by
  cases h with
  | nil => exact .nil
  | cons hs hss =>
    rw [callsWithOfStmts, List.count_append]
    exact (hs.tallies hf).append (hss.tallies hf)

/-- The subject is applied in the guard of every case that has one. -/
private theorem CasesBecome.tallies (hf : OpName.OfFunction f) {subject : Var} {cs : List Case} {n n' : Nat}
    {es : List Entry} (h : CasesBecome ir subject cs n es n') : Tallies ir f es n n'
      (comparisons cs * subject.applied.count f + (callsWithOfCases comparisons cs).count f) := by
  cases h with
  | nil => simpa [callsWithOfCases] using Tallies.nil
  | @case _ c _ body cs es _ m _ span hg hb hcs =>
    have hweight : comparisons (.mk (some c) body span :: cs) = comparisons cs + 1 := by
      simp [comparisons, Case.comparator]
    -- the subject of this guard beside the calls of its case, and those of the other cases after them
    have hsplit (a s b d : Nat) : a * s + s + (b + d) = s + b + (a * s + d) := by omega
    rw [hweight, callsWithOfCases, List.count_append, Nat.succ_mul, hsplit]
    exact .cons (.guarded (hg.count_applied hf) (hb.tallies hf)) (hcs.tallies hf)
  | @default _ body _ _ span hb =>
    have hweight : comparisons [.mk none body span] = 0 := by simp [comparisons, Case.comparator]
    rw [hweight, callsWithOfCases, callsWithOfCases, List.append_nil, Nat.zero_mul, Nat.zero_add]
    exact .plain (hb.tallies hf)

end

private theorem ItemsBecome.tallies (hf : OpName.OfFunction f) {is : List Item} {n n' : Nat} {es : List Entry}
    (h : ItemsBecome ir is n es n') : Tallies ir f es n n' ((is.flatMap (Item.callsWith comparisons)).count f) := by
  induction h with
  | nil => exact .nil
  | cons hi _ ih =>
    rw [List.flatMap_cons, List.count_append]
    exact (hi.tallies hf).append ih

/-- What stands for a program applies a function as often as the program calls it, with the subjects in their cases. -/
private theorem Program.Becomes.count_applied (hf : OpName.OfFunction f) {p : Program} (h : p.Becomes ir) :
    ir.applied.count f = p.callsPerCase.count f := by
  have htallies := ItemsBecome.tallies hf h
  rw [Program.callsPerCase, ← htallies.count, ir.applied_eq, ir.appliedIn_cons htallies.le]
  rfl

/-! ### Texts -/

/-- A function of the program, or `input`, is applied in the representation of a text as often as the program calls
it, where a call in the subject of a `switch` counts once for every case that compares it with something. -/
theorem compile_applied {src : String} {c : Compilation} (h : compile src = .ok c)
    (hf : c.ir.UserDefined f ∨ f = OpName.input) : c.ir.applied.count f = c.program.callsPerCase.count f := by
  obtain ⟨⟨t, ht, hp⟩, hir⟩ := compile_eq_ok h
  have hname : OpName.OfFunction f := by
    rcases hf with hf | rfl
    · obtain ⟨k, hk, rfl⟩ := (userDefined_iff hir).1 hf
      exact ((declares_of_parse ht hp).free k hk).ofFunction
    · exact OpName.ofFunction_input
  exact (typecheck_becomes hir).count_applied hname

/-- `func g ( ) -> Int { return 1 ; } func f ( ) { switch g ( ) { … } } `, by its tokens. -/
private def switchOnCall (cases : List TokenKind) : List TokenKind :=
  [.keyword .funcKw, .identifier "g", .symbol .lparen, .symbol .rparen, .symbol .arrow, .keyword .intTy,
    .symbol .lbrace, .keyword .returnKw, .intLiteral "1", .symbol .semicolon, .symbol .rbrace, .keyword .funcKw,
    .identifier "f", .symbol .lparen, .symbol .rparen, .symbol .lbrace, .keyword .switchKw, .identifier "g",
    .symbol .lparen, .symbol .rparen, .symbol .lbrace] ++ cases ++ [.symbol .rbrace, .symbol .rbrace]

private theorem compile_switchOnCall {src : String} (cases : List TokenKind) {applied : Nat}
    (hspelled : ∀ k ∈ switchOnCall cases, isSpelled k = true) (hsrc : src.toList = spaced (switchOnCall cases))
    (h : ∃ p ir, parseProgram (spacedTokens (switchOnCall cases)) = .ok p ∧ typecheck p = .ok ir ∧
      ir.UserDefined "g" ∧ ir.applied.count "g" = applied ∧ p.calls.count "g" = 1) :
    ∃ c, compile src = .ok c ∧ c.ir.UserDefined "g" ∧ c.ir.applied.count "g" = applied ∧
      c.program.calls.count "g" = 1 := by
  obtain ⟨p, ir, hp, hir, h⟩ := h
  obtain ⟨lines, hc⟩ := compile_spaced hspelled hsrc hp hir
  exact ⟨_, hc, h⟩

/-- With two cases the one call in the subject is there twice. -/
private theorem two_cases : ∃ c,
    compile "func g ( ) -> Int { return 1 ; } func f ( ) { switch g ( ) { case 1 { } case 2 { } } } " = .ok c ∧
      c.ir.UserDefined "g" ∧ c.ir.applied.count "g" = 2 ∧ c.program.calls.count "g" = 1 :=
  compile_switchOnCall
    [.keyword .caseKw, .intLiteral "1", .symbol .lbrace, .symbol .rbrace, .keyword .caseKw, .intLiteral "2",
      .symbol .lbrace, .symbol .rbrace]
    (by decide) rfl ⟨_, _, rfl, rfl, ⟨_, rfl, rfl⟩, by decide, by decide⟩

/-- Without a case to compare it with, the subject is nowhere. -/
private theorem only_default : ∃ c,
    compile "func g ( ) -> Int { return 1 ; } func f ( ) { switch g ( ) { default { } } } " = .ok c ∧
      c.ir.UserDefined "g" ∧ c.ir.applied.count "g" = 0 ∧ c.program.calls.count "g" = 1 :=
  compile_switchOnCall [.keyword .defaultKw, .symbol .lbrace, .symbol .rbrace] (by decide) rfl
    ⟨_, _, rfl, rfl, ⟨_, rfl, rfl⟩, by decide, by decide⟩

/-- The call in the subject counts for each of the two cases. -/
theorem subject_applied_twice : ∃ c,
    compile "func g ( ) -> Int { return 1 ; } func f ( ) { switch g ( ) { case 1 { } case 2 { } } } " = .ok c ∧
      c.ir.UserDefined "g" ∧ c.program.callsPerCase.count "g" = 2 := by
  obtain ⟨c, h, hf, hcount, -⟩ := two_cases
  exact ⟨c, h, hf, (compile_applied h (.inl hf)).symm.trans hcount⟩

/-- A call in the subject of a `switch` is lost without cases to compare it with, and repeated with more than one. -/
theorem subject_lost_or_repeated :
    (∃ c, compile "func g ( ) -> Int { return 1 ; } func f ( ) { switch g ( ) { default { } } } " = .ok c ∧
      c.ir.UserDefined "g" ∧ c.ir.applied.count "g" = 0 ∧ c.program.calls.count "g" = 1) ∧
    ∃ c,
      compile "func g ( ) -> Int { return 1 ; } func f ( ) { switch g ( ) { case 1 { } case 2 { } } } " = .ok c ∧
        c.ir.UserDefined "g" ∧ c.ir.applied.count "g" = 2 ∧ c.program.calls.count "g" = 1 :=
  ⟨only_default, two_cases⟩

end Scriptlet
