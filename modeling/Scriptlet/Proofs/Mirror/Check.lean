import Scriptlet.Proofs.Mirror.Basic
import Scriptlet.Proofs.Typing.Traversal

/-!
# A checked program becomes its representation

`typecheck_becomes`: the representation that a check of a program builds stands for the program.

The check of a statement adds entries to the scope it is in, and new scopes; it changes nothing else, so that what the
entries stand for is settled when they are added.  This is what `Ir.Enters` says, and its rules follow the ways in
which a check is put together: one check after the other (`Enters.append`), a single entry (`Enters.single`), and a
block in a scope of its own (`Enters.enclose`).
-/

namespace Scriptlet

open Typing Checker

/-! ### Expressions -/

private theorem Const.becomes_ofLiteral (c : Const) : c.Becomes (.ofLiteral c.literal c.span) :=
  .mk (Literal.becomes_ofLiteral c.literal)

section Expressions

variable {ir : Ir} {scope : Nat} {v : Value} {ty : Ty} {vars : List Var}

private theorem applied_eq_ok {op : String} {args : List Var} {span : Span}
    (h : (do return (Value.apply op args, ← ir.ops.apply op args span)) = (.ok (v, ty) : Checked (Value × Ty))) :
    v = .apply op args := by
  obtain ⟨r, _, he⟩ := bind_eq_ok.1 h
  cases he
  rfl

mutual

private theorem lower_becomes : (e : Expr) → ∀ ⦃v : Value⦄ ⦃ty : Ty⦄, e.lower ir scope = .ok (v, ty) → e.Becomes v
  | .literal l span => by
    intro v ty h
    unfold Expr.lower at h
    cases h
    exact .literal span (Literal.becomes_ofLiteral l)
  | .name n span => by
    intro v ty h
    unfold Expr.lower at h
    split at h
    · cases h
      exact .name n span _
    · cases h
  | .call callee args span => by
    intro v ty h
    unfold Expr.lower at h
    obtain ⟨-, h⟩ := unless_eq_ok h
    obtain ⟨vars, hvars, h⟩ := bind_eq_ok.1 h
    exact applied_eq_ok h ▸ .call callee span (lowerList_become args hvars)
  | .unary op operand span => by
    intro v ty h
    unfold Expr.lower at h
    obtain ⟨⟨value, t⟩, hv, h⟩ := bind_eq_ok.1 h
    exact applied_eq_ok h ▸ .unary t span (UnaryOp.mem_names.2 rfl) (lower_becomes operand hv)
  | .binary op lhs rhs span => by
    intro v ty h
    unfold Expr.lower at h
    obtain ⟨⟨left, leftTy⟩, hl, h⟩ := bind_eq_ok.1 h
    obtain ⟨⟨right, rightTy⟩, hr, h⟩ := bind_eq_ok.1 h
    exact applied_eq_ok h ▸
      .binary leftTy rightTy span (BinaryOp.mem_names.2 rfl) (lower_becomes lhs hl) (lower_becomes rhs hr)

private theorem lowerList_become : (es : List Expr) → ∀ ⦃vars : List Var⦄, Expr.lowerList ir scope es = .ok vars →
    Expr.AllBecome es vars
  | [] => by
    intro vars h
    unfold Expr.lowerList at h
    cases h
    exact .nil
  | e :: es => by
    intro vars h
    unfold Expr.lowerList at h
    obtain ⟨⟨value, ty⟩, hv, h⟩ := bind_eq_ok.1 h
    obtain ⟨rest, hrest, h⟩ := bind_eq_ok.1 h
    cases h
    exact .cons ty (lower_becomes e hv) (lowerList_become es hrest)

end

/-- The value of an expression as an argument. -/
private theorem lowerVar_becomes {e : Expr} {var : Var} (h : e.lowerVar ir scope = .ok var) :
    ∃ v ty, var = .mk v ty e.span false ∧ e.Becomes v := by
  obtain ⟨⟨value, ty⟩, hv, h⟩ := bind_eq_ok.1 h
  cases h
  exact ⟨value, ty, rfl, lower_becomes e hv⟩

private theorem lowerCond_becomes {e : Expr} (h : e.lowerCond ir scope = .ok v) : e.Becomes v := by
  obtain ⟨⟨value, ty⟩, hv, h⟩ := bind_eq_ok.1 h
  obtain ⟨-, h⟩ := unless_eq_ok h
  cases h
  exact lower_becomes e hv

private theorem lowerPrintArgs_become {es : List Expr} (h : lowerPrintArgs ir scope es = .ok vars) :
    Expr.AllBecome es vars := by
  induction es generalizing vars with
  | nil =>
    cases h
    exact .nil
  | cons e es ih =>
    unfold lowerPrintArgs at h
    obtain ⟨var, hv, h⟩ := bind_eq_ok.1 h
    obtain ⟨-, h⟩ := when_eq_ok h
    obtain ⟨rest, hrest, h⟩ := bind_eq_ok.1 h
    cases h
    obtain ⟨v, ty, rfl, hb⟩ := lowerVar_becomes hv
    exact .cons ty hb (ih hrest)

private theorem lowerCall_become {callee : Ident} {es : List Expr} {span : Span}
    (h : lowerCall ir scope callee es span = .ok vars) : Expr.AllBecome es vars := by
  obtain ⟨-, h⟩ := unless_eq_ok h
  obtain ⟨vars, hvars, h⟩ := bind_eq_ok.1 h
  obtain ⟨ty, _, h⟩ := bind_eq_ok.1 h
  cases h
  exact lowerList_become es hvars

private theorem lowerReturn_become {value : Option Expr} {span : Span}
    (h : lowerReturn ir scope value span = .ok vars) : Expr.AllBecome value.toList vars := by
  unfold lowerReturn at h
  cases value with
  | none =>
    obtain ⟨-, h⟩ := guarded_eq_ok h
    cases h
    exact .nil
  | some e =>
    obtain ⟨var, hv, h⟩ := bind_eq_ok.1 h
    obtain ⟨-, h⟩ := guarded_eq_ok h
    cases h
    obtain ⟨v, ty, rfl, hb⟩ := lowerVar_becomes hv
    exact .cons ty hb .nil

private theorem lowerAssign_becomes {target : Ident} {value : Expr} {span : Span}
    (h : lowerAssign ir scope target value span = .ok vars) : ∃ b ty v ty', value.Becomes v ∧
      vars = [.mk (.ref target.name b) ty target.span true, .mk v ty' value.span false] := by
  unfold lowerAssign at h
  split at h
  · cases h
  · next b var _ =>
    by_cases hm : var.mutable = true
    · simp only [hm, Bool.not_true, Bool.false_eq_true, if_false] at h
      obtain ⟨new, hnew, h⟩ := bind_eq_ok.1 h
      obtain ⟨-, h⟩ := guarded_eq_ok h
      cases h
      obtain ⟨v, ty', rfl, hv⟩ := lowerVar_becomes hnew
      exact ⟨b, var.ty, v, ty', hv, rfl⟩
    · simp only [Bool.not_eq_true] at hm
      simp only [hm, Bool.not_false, if_true] at h
      cases h

private theorem lowerIterable_becomes {iterable : Iterable} (h : iterable.lower ir scope = .ok (v, ty)) :
    iterable.Becomes v := by
  cases iterable with
  | range first last step span =>
    obtain ⟨-, h⟩ := when_eq_ok h
    cases h
    have hconst (n : Int) := Const.becomes_ofLiteral ⟨.int n, span⟩
    exact .range (hconst first) (hconst last) (hconst step)
  | expr e =>
    obtain ⟨var, hv, h⟩ := bind_eq_ok.1 h
    obtain ⟨-, h⟩ := unless_eq_ok h
    cases h
    obtain ⟨v, ty, rfl, hb⟩ := lowerVar_becomes hv
    exact .expr ty hb

private theorem lowerConst_becomes {subject : Ty} {c : Const} {var : Var} (h : c.lower subject = .ok var) :
    c.Becomes var := by
  obtain ⟨-, h⟩ := guarded_eq_ok h
  cases h
  exact Const.becomes_ofLiteral c

private theorem lowerConsts_become {subject : Ty} {cs : List Const} (h : cs.mapM (·.lower subject) = .ok vars) :
    List.Forall₂ Const.Becomes cs vars := by
  induction cs generalizing vars with
  | nil =>
    cases h
    exact .nil
  | cons c cs ih =>
    rw [List.mapM_cons] at h
    obtain ⟨var, hv, h⟩ := bind_eq_ok.1 h
    obtain ⟨rest, hrest, h⟩ := bind_eq_ok.1 h
    cases h
    exact .cons (lowerConst_becomes hv) (ih hrest)

private theorem lowerComparator_becomes {subject : Var} {c : Comparator} (h : c.lower subject = .ok v) :
    c.Becomes subject v := by
  cases c with
  | const c =>
    obtain ⟨var, hvar, h⟩ := bind_eq_ok.1 h
    cases h
    exact .const (lowerConst_becomes hvar)
  | oneOf cs =>
    obtain ⟨vars, hvars, h⟩ := bind_eq_ok.1 h
    cases h
    exact .oneOf (lowerConsts_become hvars)
  | range lo hi span =>
    obtain ⟨-, h⟩ := unless_eq_ok h
    cases h
    exact .range (Const.becomes_ofLiteral ⟨.int lo, span⟩) (Const.becomes_ofLiteral ⟨.int hi, span⟩)

end Expressions

/-! ### Entries that are settled -/

namespace Ir

variable {ir ir' ir'' : Ir} {scope n n' : Nat} {Q R : Ir → Nat → List Entry → Nat → Prop}

/-- The scopes from `n` up to `n'` and the operators of the first are in the second. -/
structure Keeps (n n' : Nat) (ir ir' : Ir) : Prop where
  ops : ∀ op o, ir.ops.get? op = some o → ir'.ops.get? op = some o
  scope : ∀ id : Nat, n ≤ id → id < n' → ir'.scope id = ir.scope id

/-- Entries of which `Q` holds for good are added to a scope, and perhaps new scopes. -/
structure Enters (scope : Nat) (Q : Ir → Nat → List Entry → Nat → Prop) (ir ir' : Ir) : Prop where
  ops : ∀ op o, ir.ops.get? op = some o → ir'.ops.get? op = some o
  size : ir.scopes.size ≤ ir'.scopes.size
  func : (ir'.scope scope).func = (ir.scope scope).func
  others : ∀ id : Nat, id < ir.scopes.size → id ≠ scope → ir'.scope id = ir.scope id
  entries : ∃ es, (ir'.scope scope).entries.toList = (ir.scope scope).entries.toList ++ es ∧
    ∀ ir'', ir'.Keeps ir.scopes.size ir'.scopes.size ir'' → Q ir'' ir.scopes.size es ir'.scopes.size

namespace Enters

private theorem mono (h : Enters scope Q ir ir') (hQ : ∀ ir n es n', Q ir n es n' → R ir n es n') :
    Enters scope R ir ir' := by
  obtain ⟨es, hes, hq⟩ := h.entries
  exact { h with entries := ⟨es, hes, fun ir'' hk => hQ _ _ _ _ (hq ir'' hk)⟩ }

/-- The operators that there were are there for good. -/
private theorem keepsOps (h : Enters scope Q ir ir') : Enters scope (fun later n es n' =>
    (∀ op o, ir.ops.get? op = some o → later.ops.get? op = some o) ∧ Q later n es n') ir ir' := by
  obtain ⟨es, hes, hq⟩ := h.entries
  exact { h with
    entries := ⟨es, hes, fun later hk => ⟨fun op o ho => hk.ops op o (h.ops op o ho), hq later hk⟩⟩ }

/-- A function that enters the table before is no entry. -/
private theorem of_register {name : String} {signature : Signature} (hfree : ir.ops.contains name = false)
    (h : Enters scope Q (ir.apply (.register name signature)) ir') : Enters scope Q ir ir' :=
  ⟨fun op o ho => h.ops op o ((grows_register hfree signature).ops op o ho), h.size, h.func, h.others, h.entries⟩

private theorem refl (scope : Nat) (ir : Ir) : Enters scope (fun _ n es n' => es = [] ∧ n' = n) ir ir :=
  ⟨fun _ _ h => h, Nat.le_refl _, rfl, fun _ _ _ => rfl, [], by simp, fun _ _ => ⟨rfl, rfl⟩⟩

/-- One check after the other. -/
theorem append (h : Enters scope Q ir ir') (h' : Enters scope R ir' ir'') (hlt : scope < ir.scopes.size) :
    Enters scope (fun ir n es n' => ∃ m es₁ es₂, es = es₁ ++ es₂ ∧ Q ir n es₁ m ∧ R ir m es₂ n') ir ir'' := by
  obtain ⟨es₁, hes₁, hq⟩ := h.entries
  obtain ⟨es₂, hes₂, hr⟩ := h'.entries
  refine ⟨fun op o ho => h'.ops op o (h.ops op o ho), Nat.le_trans h.size h'.size, h'.func.trans h.func,
    fun id hid hne => (h'.others id (Nat.lt_of_lt_of_le hid h.size) hne).trans (h.others id hid hne),
    es₁ ++ es₂, by rw [hes₂, hes₁, List.append_assoc], fun later hk => ?_⟩
  refine ⟨ir'.scopes.size, es₁, es₂, rfl, hq later ⟨fun op o ho => hk.ops op o (h'.ops op o ho), fun id hlo hhi => ?_⟩,
    hr later ⟨hk.ops, fun id hlo hhi => hk.scope id (Nat.le_trans h.size hlo) hhi⟩⟩
  -- the scopes of the first check are outside the second
  have hne : id ≠ scope := Ne.symm (Nat.ne_of_lt (Nat.lt_of_lt_of_le hlt hlo))
  exact (hk.scope id hlo (Nat.lt_of_lt_of_le hhi h'.size)).trans (h'.others id hhi hne)

/-- A change to the scope that adds one entry. -/
theorem single {f : Scope → Scope} {e : Entry} (hlt : scope < ir.scopes.size)
    (hf : ∀ s : Scope, (f s).func = s.func ∧ (f s).entries = s.entries.push e) :
    Enters scope (fun _ n es n' => es = [e] ∧ n' = n) ir (ir.modifyScope scope f) := by
  have hself := scope_modifyScope_self hlt f
  refine ⟨fun _ _ h => h, Nat.le_of_eq (size_modifyScope _ _ _).symm, ?_, fun id _ hne => scope_modifyScope_of_ne hne f,
    [e], ?_, fun _ _ => ⟨rfl, size_modifyScope _ _ _⟩⟩
  · rw [hself, (hf _).1]
  · rw [hself, (hf _).2, Array.toList_push]

/-- A scope that begins, the check of what is in it, and its end. -/
theorem enclose {kind : ScopeKind} {func : Option String} {born : List (String × Var)} (names : List String)
    (guard : Option Value) (hlt : scope < ir.scopes.size)
    (h : Enters ir.scopes.size Q (ir.openScope scope func born) ir') :
    Enters scope (fun later n es n' => es = [.scoped kind names guard n] ∧
      (later.scope n).func = (func <|> (ir.scope scope).func) ∧ Q later (n + 1) (later.scope n).entries.toList n')
      ir (ir'.apply (.closeScope ir.scopes.size kind scope names guard)) := by
  obtain ⟨es, hes, hq⟩ := h.entries
  have hopen := scope_openScope_self ir scope func born
  have hsize : (ir.openScope scope func born).scopes.size = ir.scopes.size + 1 := size_openScope _ _ _ _
  have hgrown : ir.scopes.size + 1 ≤ ir'.scopes.size := hsize ▸ h.size
  have hsame {id : Nat} (hid : id < ir.scopes.size) : ir'.scope id = ir.scope id :=
    (h.others id (by omega) (Nat.ne_of_lt hid)).trans (scope_openScope_of_ne (Nat.ne_of_lt hid) _ _ _)
  have hpush : (ir'.apply (.closeScope ir.scopes.size kind scope names guard)).scope scope =
      (ir.scope scope).push (.scoped kind names guard ir.scopes.size) := by
    rw [← hsame hlt]
    exact scope_modifyScope_self (by omega) _
  have hother {id : Nat} (hne : id ≠ scope) :
      (ir'.apply (.closeScope ir.scopes.size kind scope names guard)).scope id = ir'.scope id :=
    scope_modifyScope_of_ne hne _
  have hend : (ir'.apply (.closeScope ir.scopes.size kind scope names guard)).scopes.size = ir'.scopes.size :=
    size_modifyScope _ _ _
  rw [hsize] at hq
  refine ⟨h.ops, by omega, by rw [hpush]; rfl, fun id hid hne => (hother hne).trans (hsame hid),
    [.scoped kind names guard ir.scopes.size], by rw [hpush]; simp [Scope.push], fun later hk => ?_⟩
  rw [hend] at hk ⊢
  have hinner : later.scope ir.scopes.size = ir'.scope ir.scopes.size :=
    (hk.scope _ (Nat.le_refl _) (by omega)).trans (hother (Nat.ne_of_gt hlt))
  refine ⟨rfl, ?_, ?_⟩
  · rw [hinner, h.func, hopen, Scope.func_bindAll]
    rfl
  · have hentries : (later.scope ir.scopes.size).entries.toList = es := by
      rw [hinner, hes, hopen, Scope.entries_bindAll]
      rfl
    rw [hentries]
    refine hq later ⟨hk.ops, fun id hlo hhi => ?_⟩
    exact (hk.scope id (by omega) hhi).trans (hother (by omega))

end Enters

end Ir

/-! ### Simple statements -/

variable {scope : Nat} {s : Typing.State} {r : Unit × Typing.State}

open Ir

private theorem checkDecl_enters {d : Decl} {span : Span} {mutable : Bool} (hlt : scope < s.ir.scopes.size)
    (h : after (checkDecl scope d span mutable) s = .ok r) :
    Enters scope (fun _ n es n' => ∃ v ty, d.value.Becomes v ∧
      es = [.newVar d.name.name (.mk v ty span mutable)] ∧ n' = n) s.ir r.2.ir := by
  obtain ⟨value, ty, hv, -, rfl⟩ := checkDecl_eq_ok h
  let e := Entry.newVar d.name.name (.mk value ty span mutable)
  have hs := Enters.single (f := fun s => (s.push e).bind d.name.name (.mk value ty span mutable)) hlt
    fun _ => ⟨rfl, rfl⟩
  refine hs.mono ?_
  rintro _ n es n' ⟨rfl, rfl⟩
  exact ⟨value, ty, lower_becomes _ hv, rfl, rfl⟩

private theorem act_enters {c : Ir → Checked (List Var)} {op : String} {Q : Ir → Nat → List Entry → Nat → Prop}
    (hlt : scope < s.ir.scopes.size) (hQ : ∀ args, c s.ir = .ok args → ∀ ir n, Q ir n [.action op args] n)
    (h : after (getIr >>= fun ir => lift (c ir) >>= fun args => Checker.perform (.act scope op args)) s = .ok r) :
    Enters scope Q s.ir r.2.ir := by
  obtain ⟨args, hargs, rfl⟩ := act_eq_ok h
  have hs := Enters.single (f := (·.push (.action op args))) hlt fun _ => ⟨rfl, rfl⟩
  refine hs.mono ?_
  rintro ir n es n' ⟨rfl, rfl⟩
  exact hQ args hargs ir n'

/-! ### Statements with blocks -/

/-- The check of a block in a scope of its own, from what is known of checks of that block. -/
private theorem block_enters {body : Block} {kind : ScopeKind} {func : Option String} {born : List (String × Var)}
    (names : List String) (guard : Option Value) (hlt : scope < s.ir.scopes.size)
    (hbody : ∀ ⦃inner : Nat⦄ ⦃s : Typing.State⦄ ⦃r : Unit × Typing.State⦄, inner < s.ir.scopes.size →
      after (checkBlock inner body) s = .ok r → Enters inner (StmtsBecome · body.stmts) s.ir r.2.ir)
    (h : after (checkBlock s.ir.scopes.size body) (s.perform (.openScope s.ir.scopes.size kind scope func born)) =
      .ok r) :
    Enters scope (fun later n es n' => es = [.scoped kind names guard n] ∧
      (later.scope n).func = (func <|> (s.ir.scope scope).func) ∧ Block.Becomes later body n n') s.ir
      (r.2.ir.apply (.closeScope s.ir.scopes.size kind scope names guard)) := by
  have hinner := hbody (s := s.perform _) (by simp [State.perform, Ir.apply]) h
  refine (Enters.enclose names guard hlt hinner).mono ?_
  rintro later n es n' ⟨rfl, hfunc, hstmts⟩
  obtain ⟨stmts, span⟩ := body
  exact ⟨rfl, hfunc, .mk span hstmts⟩

/-- The same of a check of a block with its scope. -/
private theorem inner_enters {body : Block} {kind : ScopeKind} {born : List (String × Var)} {guard : Option Value}
    (hlt : scope < s.ir.scopes.size)
    (hbody : ∀ ⦃inner : Nat⦄ ⦃s : Typing.State⦄ ⦃r : Unit × Typing.State⦄, inner < s.ir.scopes.size →
      after (checkBlock inner body) s = .ok r → Enters inner (StmtsBecome · body.stmts) s.ir r.2.ir)
    (h : after (checkInner scope kind born guard body) s = .ok r) :
    Enters scope (fun later n es n' => es = [.scoped kind (born.map Prod.fst) guard n] ∧ Block.Becomes later body n n')
      s.ir r.2.ir := by
  obtain ⟨t, hstmts, rfl⟩ := checkInner_eq_ok h
  refine (block_enters (born.map Prod.fst) guard hlt hbody hstmts).mono ?_
  rintro later n es n' ⟨hes, -, hb⟩
  exact ⟨hes, hb⟩

mutual

private theorem checkItem_enters : (i : Item) → ∀ ⦃scope : Nat⦄ ⦃s : Typing.State⦄ ⦃r : Unit × Typing.State⦄,
    scope < s.ir.scopes.size → after (checkItem scope i) s = .ok r → Enters scope (Item.Becomes · i) s.ir r.2.ir
  | .letDecl d span => by
    intro scope s r hlt h
    refine (checkDecl_enters hlt h).mono ?_
    rintro ir n es n' ⟨v, ty, hv, rfl, rfl⟩
    exact .letDecl ty span hv
  | .func name params result body span => by
    intro scope s r hlt h
    obtain ⟨hfree, t, hbody, rfl⟩ := checkFunc_eq_ok h
    have hentry := Ir.get?_register hfree (signatureOf params result)
    have hblock := block_enters (s := registered s name _) (params.map (·.name.name)) none hlt
      (fun _ _ _ hlt h => checkBlock_enters body hlt h) hbody
    refine (hblock.keepsOps.of_register hfree).mono ?_
    rintro ir n es n' ⟨hops, rfl, hfunc, hb⟩
    exact .func span hfunc (hops _ _ hentry) hb

private theorem checkStmt_enters : (stmt : Stmt) → ∀ ⦃scope : Nat⦄ ⦃s : Typing.State⦄ ⦃r : Unit × Typing.State⦄,
    scope < s.ir.scopes.size → after (checkStmt scope stmt) s = .ok r →
      Enters scope (Stmt.Becomes · stmt) s.ir r.2.ir
  | .item i => fun _ _ _ hlt h => (checkItem_enters i hlt h).mono fun _ _ _ _ hi => .item hi
  | .varDecl d span => by
    intro scope s r hlt h
    refine (checkDecl_enters hlt h).mono ?_
    rintro ir n es n' ⟨v, ty, hv, rfl, rfl⟩
    exact .varDecl ty span hv
  | .assign target value span => by
    intro scope s r hlt h
    refine act_enters hlt (fun args hargs ir n => ?_) h
    obtain ⟨b, ty, v, ty', hv, rfl⟩ := lowerAssign_becomes hargs
    exact .assign target b ty ty' span hv
  | .print args span => fun _ _ _ hlt h =>
    act_enters hlt (fun _ hargs _ _ => .print span (lowerPrintArgs_become hargs)) h
  | .ret value span => fun _ _ _ hlt h => act_enters hlt (fun _ hargs _ _ => .ret span (lowerReturn_become hargs)) h
  | .call callee args span => fun _ _ _ hlt h =>
    act_enters hlt (fun _ hargs _ _ => .call callee span (lowerCall_become hargs)) h
  | .forLoop var iterable body span => by
    intro scope s r hlt h
    rw [checkStmt_forLoop] at h
    obtain ⟨⟨guard, ty⟩, hg, h⟩ := found_eq_ok.1 h
    refine (inner_enters hlt (fun _ _ _ hlt h => checkBlock_enters body hlt h) h).mono ?_
    rintro ir n es n' ⟨rfl, hb⟩
    exact .forLoop var span (lowerIterable_becomes hg) hb
  | .whileLoop cond body span => by
    intro scope s r hlt h
    rw [checkStmt_whileLoop] at h
    obtain ⟨guard, hg, h⟩ := found_eq_ok.1 h
    refine (inner_enters hlt (fun _ _ _ hlt h => checkBlock_enters body hlt h) h).mono ?_
    rintro ir n es n' ⟨rfl, hb⟩
    exact .whileLoop span (lowerCond_becomes hg) hb
  | .ifThen cond thenBlock span => by
    intro scope s r hlt h
    rw [checkStmt_ifThen] at h
    obtain ⟨guard, hg, h⟩ := found_eq_ok.1 h
    refine (inner_enters hlt (fun _ _ _ hlt h => checkBlock_enters thenBlock hlt h) h).mono ?_
    rintro ir n es n' ⟨rfl, hb⟩
    exact .ifThen span (lowerCond_becomes hg) hb
  | .ifElse cond thenBlock elseBlock span => by
    intro scope s r hlt h
    obtain ⟨guard, t, hg, hthen, helse⟩ := checkIfElse_eq_ok h
    have hfirst := inner_enters hlt (fun _ _ _ hlt h => checkBlock_enters thenBlock hlt h) hthen
    have hother := inner_enters (Nat.lt_of_lt_of_le hlt hfirst.size)
      (fun _ _ _ hlt h => checkBlock_enters elseBlock hlt h) helse
    refine (hfirst.append hother hlt).mono ?_
    rintro ir n es n' ⟨m, _, _, rfl, ⟨rfl, hb⟩, rfl, hb'⟩
    exact .ifElse span (lowerCond_becomes hg) hb hb'
  | .switch subject cases span => by
    intro scope s r hlt h
    rw [checkStmt_switch] at h
    obtain ⟨var, hv, h⟩ := found_eq_ok.1 h
    obtain ⟨v, ty, rfl, hb⟩ := lowerVar_becomes hv
    exact (checkCases_enters cases _ hlt h).mono fun _ _ _ _ hc => .switch ty span hb hc

private theorem checkBlock_enters : (block : Block) → ∀ ⦃scope : Nat⦄ ⦃s : Typing.State⦄ ⦃r : Unit × Typing.State⦄,
    scope < s.ir.scopes.size → after (checkBlock scope block) s = .ok r →
      Enters scope (StmtsBecome · block.stmts) s.ir r.2.ir
  | .mk stmts _ => fun _ _ _ hlt h => checkStmts_enter stmts hlt h

private theorem checkStmts_enter : (stmts : List Stmt) → ∀ ⦃scope : Nat⦄ ⦃s : Typing.State⦄ ⦃r : Unit × Typing.State⦄,
    scope < s.ir.scopes.size → after (checkStmts scope stmts) s = .ok r →
      Enters scope (StmtsBecome · stmts) s.ir r.2.ir
  | [] => by
    intro scope s r _ h
    cases h
    refine (Enters.refl scope s.ir).mono ?_
    rintro ir n es n' ⟨rfl, rfl⟩
    exact .nil
  | stmt :: stmts => by
    intro scope s r hlt h
    obtain ⟨_, t, hfirst, h⟩ := after_bind_eq_ok.1 h
    have hs := checkStmt_enters stmt hlt hfirst
    refine (hs.append (checkStmts_enter stmts (Nat.lt_of_lt_of_le hlt hs.size) h) hlt).mono ?_
    rintro ir n es n' ⟨m, es₁, es₂, rfl, h₁, h₂⟩
    exact .cons h₁ h₂

private theorem checkCases_enters : (cases : List Case) → (subject : Var) → ∀ ⦃scope : Nat⦄ ⦃s : Typing.State⦄
    ⦃r : Unit × Typing.State⦄, scope < s.ir.scopes.size → after (checkCases scope subject cases) s = .ok r →
      Enters scope (CasesBecome · subject cases) s.ir r.2.ir
  | [], subject => by
    intro scope s r _ h
    cases h
    refine (Enters.refl scope s.ir).mono ?_
    rintro ir n es n' ⟨rfl, rfl⟩
    exact .nil
  | .mk comparator body span :: cases, subject => by
    intro scope s r hlt h
    obtain ⟨guard, t, hg, hbody, h⟩ := checkCases_eq_ok h
    have hfirst := inner_enters hlt (fun _ _ _ hlt h => checkBlock_enters body hlt h) hbody
    refine (hfirst.append (checkCases_enters cases subject (Nat.lt_of_lt_of_le hlt hfirst.size) h) hlt).mono ?_
    rintro ir n es n' ⟨m, _, es₂, rfl, ⟨rfl, hb⟩, hcs⟩
    cases comparator with
    | some c =>
      obtain ⟨v, hv, hg⟩ := bind_eq_ok.1 (show (c.lower subject >>= fun v => pure (some v)) = .ok guard from hg)
      cases hg
      exact .case span (lowerComparator_becomes hv) hb hcs
    | none =>
      unfold lowerCase at hg
      cases cases with
      | nil =>
        cases hg
        cases hcs
        exact .default span hb
      | cons c cs => cases hg

end

private theorem checkItems_enter {items : List Item} (hlt : scope < s.ir.scopes.size)
    (h : after (checkItems scope items) s = .ok r) : Enters scope (ItemsBecome · items) s.ir r.2.ir := by
  induction items generalizing s with
  | nil =>
    cases h
    refine (Enters.refl scope s.ir).mono ?_
    rintro ir n es n' ⟨rfl, rfl⟩
    exact .nil
  | cons i items ih =>
    obtain ⟨_, t, hfirst, h⟩ := after_bind_eq_ok.1 h
    have hs := checkItem_enters i hlt hfirst
    refine (hs.append (ih (Nat.lt_of_lt_of_le hlt hs.size) h) hlt).mono ?_
    rintro ir n es n' ⟨m, es₁, es₂, rfl, h₁, h₂⟩
    exact .cons h₁ h₂

/-- The representation of a program stands for it. -/
theorem typecheck_becomes {p : Program} {ir : Ir} (h : typecheck p = .ok ir) : p.Becomes ir := by
  obtain ⟨t, ht, rfl⟩ := typecheck_eq_ok.1 h
  have hroot : Enters ScopeId.root (ItemsBecome · p.items) .initial t.ir := checkItems_enter Nat.zero_lt_one ht
  obtain ⟨es, hes, hall⟩ := hroot.entries
  have hentries : (t.ir.scope ScopeId.root).entries.toList = es := by rw [hes]; rfl
  unfold Program.Becomes
  rw [hentries]
  exact hall _ ⟨fun _ _ h => h, fun _ _ _ => rfl⟩

end Scriptlet
