import Scriptlet.Proofs.Typing.Run

/-!
# The checks of statements

How the check of each statement is put together: a value is found in the representation, and then blocks are checked,
each in a scope of its own (`checkInner`).

What such a check has done if it succeeds is stated once for each of its forms (`checkDecl_eq_ok`, `act_eq_ok`,
`checkInner_eq_ok`, `checkFunc_eq_ok`).  What is proved of checks that succeed goes by these.
-/

namespace Scriptlet

open Typing Checker

variable {β : Type} {scope : ScopeId} {s : Typing.State}

/-! ### Blocks -/

/-- A block is checked by its statements. -/
theorem checkBlock_eq (scope : ScopeId) (body : Block) :
    checkBlock scope body = checkStmts scope body.stmts := by
  cases body with
  | mk stmts span => rfl

/-- A block in a scope of its own, which takes its place in the scope around it. -/
def checkInner (scope : ScopeId) (kind : ScopeKind) (born : List (String × Var)) (guard : Option Value)
    (body : Block) : Checker Unit := do
  let inner ← openScope kind scope none born
  checkBlock inner body
  Checker.perform (.closeScope inner kind scope (born.map Prod.fst) guard)

theorem checkStmt_forLoop (scope : ScopeId) (var : Ident) (iterable : Iterable) (body : Block) (span : Span) :
    checkStmt scope (.forLoop var iterable body span) = (do
      let (guard, ty) ← lift (iterable.lower (← getIr) scope)
      checkInner scope .loop [(var.name, .mk .arg ty var.span false)] (some guard) body) := by
  unfold checkStmt
  rfl

theorem checkStmt_whileLoop (scope : ScopeId) (cond : Expr) (body : Block) (span : Span) :
    checkStmt scope (.whileLoop cond body span) = (do
      let guard ← lift (cond.lowerCond (← getIr) scope)
      checkInner scope .loop [] (some guard) body) := by
  unfold checkStmt
  rfl

theorem checkStmt_ifThen (scope : ScopeId) (cond : Expr) (body : Block) (span : Span) :
    checkStmt scope (.ifThen cond body span) = (do
      let guard ← lift (cond.lowerCond (← getIr) scope)
      checkInner scope .ifBranch [] (some guard) body) := by
  unfold checkStmt
  rfl

theorem checkStmt_ifElse (scope : ScopeId) (cond : Expr) (thenBlock elseBlock : Block) (span : Span) :
    checkStmt scope (.ifElse cond thenBlock elseBlock span) = (do
      let guard ← lift (cond.lowerCond (← getIr) scope)
      checkInner scope .ifBranch [] (some guard) thenBlock
      checkInner scope .elseBranch [] none elseBlock) := by
  unfold checkStmt checkInner
  simp only [bind_assoc]
  rfl

theorem checkStmt_switch (scope : ScopeId) (subject : Expr) (cases : List Case) (span : Span) :
    checkStmt scope (.switch subject cases span) = (do
      let subject ← lift (subject.lowerVar (← getIr) scope)
      checkCases scope subject cases) := by
  unfold checkStmt
  rfl

theorem checkCases_cons (scope : ScopeId) (subject : Var) (comparator : Option Comparator) (body : Block)
    (span : Span) (cases : List Case) : checkCases scope subject (.mk comparator body span :: cases) = (do
      let guard ← lift (lowerCase subject comparator span cases.isEmpty)
      checkInner scope .caseBranch [] guard body
      checkCases scope subject cases) := by
  conv => lhs; unfold checkCases
  unfold checkInner
  simp only [bind_assoc]
  rfl

/-! ### Functions -/

/-- Where no name comes twice all the parameters are bound. -/
theorem splitParams_of_distinct {seen : List String} {ps : List Param} (h : (splitParams seen ps).2 = none) :
    (splitParams seen ps).1 = ps := by
  induction ps generalizing seen with
  | nil => rfl
  | cons p ps ih =>
    unfold splitParams at h ⊢
    by_cases hp : p.name.name ∈ seen
    · rw [if_pos hp] at h
      cases h
    · rw [if_neg hp] at h ⊢
      exact congrArg (p :: ·) (ih h)

/-- What follows the opening of a function's scope, if no parameter has the name of an earlier one. -/
theorem openFunc_bind (scope : ScopeId) (name : Ident) (params : List Param) (f : ScopeId → Checker β) :
    openFunc scope name params >>= f = (do
      let inner ← openScope .func scope (some name.name) ((splitParams [] params).1.map paramBinding)
      match (splitParams [] params).2 with
      | some p => throw ⟨p.name.span, .duplicateParam p.name.name⟩
      | none => f inner) := by
  unfold openFunc
  simp only [bind_assoc]
  refine bind_congr fun inner => ?_
  cases (splitParams [] params).2 with
  | none => exact pure_bind inner f
  | some p => rfl

/-! ### Checks that succeed -/

variable {r : Unit × Typing.State}

/-- A declaration that is accepted binds a value that is not of type `Void`, and does nothing else. -/
theorem checkDecl_eq_ok {d : Decl} {span : Span} {mutable : Bool}
    (h : after (checkDecl scope d span mutable) s = .ok r) :
    ∃ value ty, d.value.lower s.ir scope = .ok (value, ty) ∧ ty ≠ .void ∧
      r = ((), s.perform (.declare scope d.name.name (.mk value ty span mutable))) := by
  obtain ⟨⟨value, ty⟩, hv, h⟩ := found_eq_ok.1 h
  by_cases hvoid : ty = .void
  · simp only [hvoid] at h
    cases h
  · simp only [if_neg hvoid, after_bind, after_lift, after_perform, lowered_bind] at h
    obtain ⟨_, _, h⟩ := bind_eq_ok.1 h
    cases h
    exact ⟨value, ty, hv, hvoid, rfl⟩

/-- An action: its arguments are found, and it is added to the scope. -/
theorem act_eq_ok {c : Ir → Checked (List Var)} {op : String}
    (h : after (getIr >>= fun ir => lift (c ir) >>= fun args => Checker.perform (.act scope op args)) s = .ok r) :
    ∃ args, c s.ir = .ok args ∧ r = ((), s.perform (.act scope op args)) := by
  obtain ⟨args, hargs, h⟩ := found_eq_ok.1 h
  cases h
  exact ⟨args, hargs, rfl⟩

/-- An inner block that is accepted is checked in a scope of its own, which is then entered in the scope around it. -/
theorem checkInner_eq_ok {kind : ScopeKind} {born : List (String × Var)} {guard : Option Value} {body : Block}
    (h : after (checkInner scope kind born guard body) s = .ok r) :
    ∃ t, after (checkBlock s.ir.scopes.size body) (s.perform (.openScope s.ir.scopes.size kind scope none born)) =
      .ok ((), t) ∧ r = ((), t.perform (.closeScope s.ir.scopes.size kind scope (born.map Prod.fst) guard)) := by
  unfold checkInner at h
  rw [after_bind, after_openScope, ok_bind] at h
  obtain ⟨_, t, hbody, h⟩ := after_bind_eq_ok.1 h
  cases h
  exact ⟨t, hbody, rfl⟩

/-- A function that is registered had a free name. -/
theorem register_eq_ok {name : Ident} {signature : Signature} (h : after (register name signature) s = .ok r) :
    s.ir.ops.contains name.name = false ∧ r.2 = registered s name signature := by
  rw [after_register] at h
  by_cases hc : s.ir.ops.contains name.name = true
  · rw [if_pos hc] at h
    cases h
  · rw [if_neg hc] at h
    cases h
    exact ⟨by simpa using hc, rfl⟩

/-- The scope of a function that is opened begins with all its parameters. -/
theorem openFunc_eq_ok {name : Ident} {params : List Param} {r : ScopeId × Typing.State}
    (h : after (openFunc scope name params) s = .ok r) :
    r = (s.ir.scopes.size,
      s.perform (.openScope s.ir.scopes.size .func scope (some name.name) (params.map paramBinding))) := by
  cases hd : (splitParams [] params).2 with
  | some p =>
    rw [after_openFunc_of_duplicate hd] at h
    cases h
  | none =>
    rw [after_openFunc_of_distinct hd, splitParams_of_distinct hd] at h
    cases h
    rfl

/-- A function: its name was free, and its body has been checked in a scope with its parameters. -/
theorem checkFunc_eq_ok {name : Ident} {params : List Param} {result : Option TypeName} {body : Block} {span : Span}
    (h : after (checkItem scope (.func name params result body span)) s = .ok r) :
    s.ir.ops.contains name.name = false ∧ ∃ t, after (checkBlock s.ir.scopes.size body)
        ((registered s name ⟨params.map (·.type.ty), (result.map TypeName.ty).getD .void⟩).perform
          (.openScope s.ir.scopes.size .func scope (some name.name) (params.map paramBinding))) = .ok ((), t) ∧
      r = ((), t.perform (.closeScope s.ir.scopes.size .func scope (params.map (·.name.name)) none)) := by
  unfold checkItem at h
  obtain ⟨_, t, hreg, h⟩ := after_bind_eq_ok.1 h
  obtain ⟨hfree, ht⟩ := register_eq_ok hreg
  cases ht
  obtain ⟨inner, u, hopen, h⟩ := after_bind_eq_ok.1 h
  cases openFunc_eq_ok hopen
  obtain ⟨_, v, hbody, h⟩ := after_bind_eq_ok.1 h
  cases h
  exact ⟨hfree, v, hbody, rfl⟩

/-- The branches of an `if` are checked one after the other, with the condition as the guard of the first. -/
theorem checkIfElse_eq_ok {cond : Expr} {thenBlock elseBlock : Block} {span : Span}
    (h : after (checkStmt scope (.ifElse cond thenBlock elseBlock span)) s = .ok r) :
    ∃ guard t, cond.lowerCond s.ir scope = .ok guard ∧
      after (checkInner scope .ifBranch [] (some guard) thenBlock) s = .ok ((), t) ∧
      after (checkInner scope .elseBranch [] none elseBlock) t = .ok r := by
  rw [checkStmt_ifElse] at h
  obtain ⟨guard, hguard, h⟩ := found_eq_ok.1 h
  obtain ⟨_, t, hthen, helse⟩ := after_bind_eq_ok.1 h
  exact ⟨guard, t, hguard, hthen, helse⟩

/-- The cases of a `switch` are checked one after the other. -/
theorem checkCases_eq_ok {subject : Var} {comparator : Option Comparator} {body : Block} {span : Span}
    {cases : List Case} (h : after (checkCases scope subject (.mk comparator body span :: cases)) s = .ok r) :
    ∃ guard t, lowerCase subject comparator span cases.isEmpty = .ok guard ∧
      after (checkInner scope .caseBranch [] guard body) s = .ok ((), t) ∧
      after (checkCases scope subject cases) t = .ok r := by
  rw [checkCases_cons, after_bind, after_lift, lowered_bind] at h
  obtain ⟨guard, hguard, h⟩ := bind_eq_ok.1 h
  obtain ⟨_, t, hbody, hrest⟩ := after_bind_eq_ok.1 h
  exact ⟨guard, t, hguard, hbody, hrest⟩

end Scriptlet
