import Scriptlet.Proofs.Layout.Lowering

/-!
# A check does not see places

`typecheck_bare`: the check of a program without its places comes to what the check of the program comes to, without
the places.  The same holds of every checker from every state (`Blind`), since a step is taken in the same way without
the places (`Ir.bare_apply`).
-/

namespace Scriptlet

open Typing Checker

/-- The state of a check without its places. -/
def Typing.State.bare (s : Typing.State) : Typing.State :=
  ⟨s.ir.bare, s.declared.map fun d => (d.1, .blank), s.history.map Ir.Step.bare⟩

/-- What a checker came to, without the places. -/
def bareAfter {α β : Type} (g : α → β) (r : α × Typing.State) : β × Typing.State := (g r.1, r.2.bare)

variable {α β : Type} {s : Typing.State} {scope : ScopeId}

/-- The checker `x'` comes to what `x` comes to, without the places. -/
def Blind (g : α → β) (x' : Checker β) (x : Checker α) : Prop :=
  ∀ s, after x' s.bare = Checked.bare (bareAfter g) (after x s)

namespace Blind

variable {α' β' : Type} {g : α → α'} {h : β → β'}

private theorem bind {x : Checker α} {x' : Checker α'} {f : α → Checker β} {f' : α' → Checker β'} (hx : Blind g x' x)
    (hf : ∀ a, Blind h (f' (g a)) (f a)) : Blind h (x' >>= f') (x >>= f) := by
  intro s
  rw [after_bind, after_bind]
  exact Checked.bind_bare (hx s) fun r => hf r.1 r.2

private theorem pure (a : α) : Blind g (Pure.pure (g a)) (Pure.pure a) := fun _ => rfl

private theorem throw (e : TypeError) (span : Span) : Blind g (throw ⟨.blank, e.bare⟩) (throw ⟨span, e⟩) := fun _ => rfl

private theorem lift {c : Checked α} {c' : Checked α'} (hc : c' = c.bare g) : Blind g (lift c') (lift c) := by
  intro s
  rw [after_lift, after_lift, hc]
  cases c <;> rfl

private theorem getIr : Blind Ir.bare getIr getIr := fun _ => rfl

private theorem perform (step : Ir.Step) : Blind id (perform step.bare) (perform step) := by
  intro s
  rw [after_perform, after_perform]
  have hperform : s.bare.perform step.bare = (s.perform step).bare := by
    unfold Typing.State.perform Typing.State.bare
    rw [Ir.bare_apply]
    rfl
  rw [hperform]
  rfl

private theorem openScope (kind : ScopeKind) (parent : ScopeId) (func : Option String) (born : List (String × Var)) :
    Blind id (openScope kind parent func (born.map bareBinding)) (openScope kind parent func born) := by
  refine getIr.bind fun ir => ?_
  rw [ir.size_bare]
  exact (perform (.openScope ir.scopes.size kind parent func born)).bind fun _ => pure _

private theorem ite {c : Prop} [Decidable c] {x y : Checker α} {x' y' : Checker α'} (hx : Blind g x' x)
    (hy : Blind g y' y) : Blind g (if c then x' else y') (if c then x else y) := by
  split
  · exact hx
  · exact hy

end Blind

/-! ### Simple statements -/

private theorem annotationOk_bare (type : Option TypeName) (ty : Ty) :
    annotationOk (type.map TypeName.bare) ty = Checked.bare id (annotationOk type ty) := by
  cases type with
  | none => rfl
  | some t =>
    unfold annotationOk
    simp only [Option.map_some, TypeName.bare]
    split <;> rfl

private theorem checkDecl_blind (scope : ScopeId) (d : Decl) (span : Span) (mutable : Bool) :
    Blind id (checkDecl scope d.bare .blank mutable) (checkDecl scope d span mutable) := by
  refine Blind.getIr.bind fun ir => (Blind.lift (Expr.lower_bare ir scope d.value)).bind fun r => ?_
  refine .ite ?_ ?_
  · rw [Decl.bare, Expr.span_bare]
    exact .throw (.voidBinding d.name.name) d.value.span
  · refine (Blind.lift (annotationOk_bare d.type r.2)).bind fun _ => ?_
    exact .perform (.declare scope d.name.name (.mk r.1 r.2 span mutable))

private theorem act_blind {op : String} {c c' : Checked (List Var)} (hc : c' = c.bare (List.map Var.bare)) :
    Blind id (lift c' >>= fun args => perform (.act scope op args))
      (lift c >>= fun args => perform (.act scope op args)) :=
  (Blind.lift hc).bind fun args => .perform (.act scope op args)

private theorem lowerAssign_bare (ir : Ir) (scope : ScopeId) (target : Ident) (value : Expr) (span : Span) :
    lowerAssign ir.bare scope target.bare value.bare .blank =
      Checked.bare (List.map Var.bare) (lowerAssign ir scope target value span) := by
  unfold lowerAssign Ident.bare
  rw [ir.lookup_bare]
  cases ir.lookup target.name scope with
  | none => rfl
  | some r =>
    obtain ⟨binding, var⟩ := r
    simp only [Option.map_some, Var.mutable_bare, Var.ty_bare, Expr.span_bare]
    by_cases hm : var.mutable = true
    · simp only [hm, Bool.not_true, Bool.false_eq_true, if_false]
      refine Checked.bind_bare (Expr.lowerVar_bare ir scope value) fun new => ?_
      rw [Var.ty_bare]
      split
      · rfl
      · cases var
        rfl
    · simp only [Bool.not_eq_true] at hm
      simp only [hm, Bool.not_false, if_true]
      cases var
      rfl

private theorem lowerReturn_bare (ir : Ir) (scope : ScopeId) (value : Option Expr) (span : Span) :
    lowerReturn ir.bare scope (value.map Expr.bare) .blank =
      Checked.bare (List.map Var.bare) (lowerReturn ir scope value span) := by
  have henclosing : enclosing ir.bare scope = enclosing ir scope := by
    unfold enclosing
    rw [ir.scope_bare]
    rfl
  unfold lowerReturn
  rw [henclosing]
  cases value with
  | none =>
    simp only [Option.map_none]
    split <;> rfl
  | some e =>
    simp only [Option.map_some]
    refine Checked.bind_bare (Expr.lowerVar_bare ir scope e) fun var => ?_
    rw [Var.ty_bare, Expr.span_bare]
    split <;> rfl

private theorem checkAssign_blind (scope : ScopeId) (target : Ident) (value : Expr) (span : Span) :
    Blind id (checkAssign scope target.bare value.bare .blank) (checkAssign scope target value span) :=
  Blind.getIr.bind fun ir => act_blind (lowerAssign_bare ir scope target value span)

private theorem checkPrint_blind (scope : ScopeId) (args : List Expr) :
    Blind id (checkPrint scope (args.map Expr.bare)) (checkPrint scope args) :=
  Blind.getIr.bind fun ir => act_blind (lowerPrintArgs_bare ir scope args)

private theorem checkReturn_blind (scope : ScopeId) (value : Option Expr) (span : Span) :
    Blind id (checkReturn scope (value.map Expr.bare) .blank) (checkReturn scope value span) :=
  Blind.getIr.bind fun ir => act_blind (lowerReturn_bare ir scope value span)

private theorem checkCall_blind (scope : ScopeId) (callee : Ident) (args : List Expr) (span : Span) :
    Blind id (checkCall scope callee.bare (args.map Expr.bare) .blank) (checkCall scope callee args span) :=
  Blind.getIr.bind fun ir => act_blind (lowerCall_bare ir scope callee args span)

/-! ### Functions -/

private theorem lookup_declared (declared : List (String × Span)) (name : String) :
    (declared.map fun d => (d.1, Span.blank)).lookup name = (declared.lookup name).map fun _ => .blank := by
  induction declared with
  | nil => rfl
  | cons d declared ih =>
    obtain ⟨n, span⟩ := d
    rw [List.map_cons, List.lookup_cons, List.lookup_cons]
    cases name == n with
    | true => rfl
    | false => exact ih

private theorem register_blind (name : Ident) (signature : Signature) :
    Blind id (register name.bare signature) (register name signature) := by
  have hget : Blind Typing.State.bare (get : Checker Typing.State) get := fun _ => rfl
  refine hget.bind fun s => (Blind.perform (.register name.name signature)).bind fun _ => ?_
  refine .ite ?_ ?_
  · have hthrow : Blind (id : Unit → Unit) _ _ :=
      .throw (.duplicateFunction name.name (s.declared.lookup name.name)) name.span
    rw [TypeError.bare, ← lookup_declared] at hthrow
    exact hthrow
  · exact fun _ => rfl

private theorem splitParams_bare (seen : List String) (ps : List Param) : splitParams seen (ps.map Param.bare) =
    ((splitParams seen ps).1.map Param.bare, (splitParams seen ps).2.map Param.bare) := by
  induction ps generalizing seen with
  | nil => rfl
  | cons p ps ih =>
    rw [List.map_cons]
    unfold splitParams
    by_cases hp : p.name.name ∈ seen
    · rw [if_pos hp, if_pos (show p.bare.name.name ∈ seen from hp)]
      rfl
    · rw [if_neg hp, if_neg (show p.bare.name.name ∉ seen from hp), ih]
      rfl

private theorem openFunc_blind (scope : ScopeId) (name : Ident) (params : List Param) :
    Blind id (openFunc scope name.bare (params.map Param.bare)) (openFunc scope name params) := by
  unfold openFunc
  rw [splitParams_bare]
  simp only [List.map_map]
  have hborn : ((splitParams [] params).1.map (paramBinding ∘ Param.bare)) =
      ((splitParams [] params).1.map paramBinding).map bareBinding := by
    rw [List.map_map]
    rfl
  rw [hborn]
  refine (Blind.openScope _ _ _ _).bind fun inner => ?_
  cases (splitParams [] params).2 with
  | none => exact .pure inner
  | some p => exact .throw (.duplicateParam p.name.name) p.name.span

/-! ### Statements with blocks -/

private theorem lowerCase_bare (subject : Var) (comparator : Option Comparator) (span : Span) (isLast : Bool) :
    lowerCase subject.bare (comparator.map Comparator.bare) .blank isLast =
      Checked.bare (Option.map Value.bare) (lowerCase subject comparator span isLast) := by
  cases comparator with
  | none =>
    simp only [lowerCase, Option.map_none]
    split <;> rfl
  | some c =>
    simp only [lowerCase, Option.map_some, Comparator.lower_bare]
    cases c.lower subject <;> rfl

mutual

private theorem checkItem_blind : (i : Item) → ∀ scope, Blind id (checkItem scope i.bare) (checkItem scope i)
  | .letDecl d span, scope => checkDecl_blind scope d span false
  | .func name params result body span, scope => by
    have hparams : (params.map Param.bare).map (·.type.ty) = params.map (·.type.ty) := by
      simp [Param.bare, TypeName.bare]
    have hnames : (params.map Param.bare).map (·.name.name) = params.map (·.name.name) := by
      simp [Param.bare, Ident.bare]
    have hresult : (result.map TypeName.bare).map TypeName.ty = result.map TypeName.ty := by
      rw [Option.map_map]
      rfl
    unfold Item.bare checkItem
    rw [hparams, hresult, hnames]
    refine (register_blind name _).bind fun _ => (openFunc_blind scope name params).bind fun inner => ?_
    refine (checkBlock_blind body inner).bind fun _ => ?_
    exact .perform (.closeScope inner .func scope (params.map (·.name.name)) none)

private theorem checkStmt_blind : (s : Stmt) → ∀ scope, Blind id (checkStmt scope s.bare) (checkStmt scope s)
  | .item i, scope => checkItem_blind i scope
  | .varDecl d span, scope => checkDecl_blind scope d span true
  | .assign target value span, scope => checkAssign_blind scope target value span
  | .print args _, scope => checkPrint_blind scope args
  | .ret value span, scope => checkReturn_blind scope value span
  | .call callee args span, scope => checkCall_blind scope callee args span
  | .forLoop var iterable body _, scope => by
    unfold Stmt.bare checkStmt
    refine Blind.getIr.bind fun ir => (Blind.lift (Iterable.lower_bare ir scope iterable)).bind fun r => ?_
    refine (Blind.openScope .loop scope none [(var.name, .mk .arg r.2 var.span false)]).bind fun inner => ?_
    refine (checkBlock_blind body inner).bind fun _ => ?_
    exact .perform (.closeScope inner .loop scope [var.name] (some r.1))
  | .whileLoop cond body _, scope => by
    unfold Stmt.bare checkStmt
    refine Blind.getIr.bind fun ir => (Blind.lift (Expr.lowerCond_bare ir scope cond)).bind fun guard => ?_
    refine (Blind.openScope .loop scope none []).bind fun inner => (checkBlock_blind body inner).bind fun _ => ?_
    exact .perform (.closeScope inner .loop scope [] (some guard))
  | .ifThen cond body _, scope => by
    unfold Stmt.bare checkStmt
    refine Blind.getIr.bind fun ir => (Blind.lift (Expr.lowerCond_bare ir scope cond)).bind fun guard => ?_
    refine (Blind.openScope .ifBranch scope none []).bind fun inner => (checkBlock_blind body inner).bind fun _ => ?_
    exact .perform (.closeScope inner .ifBranch scope [] (some guard))
  | .ifElse cond body other _, scope => by
    unfold Stmt.bare checkStmt
    refine Blind.getIr.bind fun ir => (Blind.lift (Expr.lowerCond_bare ir scope cond)).bind fun guard => ?_
    refine (Blind.openScope .ifBranch scope none []).bind fun inner => (checkBlock_blind body inner).bind fun _ => ?_
    refine (Blind.perform (.closeScope inner .ifBranch scope [] (some guard))).bind fun _ => ?_
    refine (Blind.openScope .elseBranch scope none []).bind fun inner => ?_
    refine (checkBlock_blind other inner).bind fun _ => ?_
    exact .perform (.closeScope inner .elseBranch scope [] none)
  | .switch subject cases _, scope => by
    unfold Stmt.bare checkStmt
    refine Blind.getIr.bind fun ir => (Blind.lift (Expr.lowerVar_bare ir scope subject)).bind fun var => ?_
    exact checkCases_blind cases scope var

private theorem checkBlock_blind : (b : Block) → ∀ scope, Blind id (checkBlock scope b.bare) (checkBlock scope b)
  | .mk stmts _, scope => checkStmts_blind stmts scope

private theorem checkStmts_blind : (ss : List Stmt) → ∀ scope,
    Blind id (checkStmts scope (bareStmts ss)) (checkStmts scope ss)
  | [], _ => .pure ()
  | s :: ss, scope => (checkStmt_blind s scope).bind fun _ => checkStmts_blind ss scope

private theorem checkCases_blind : (cs : List Case) → ∀ scope subject,
    Blind id (checkCases scope subject.bare (bareCases cs)) (checkCases scope subject cs)
  | [], _, _ => .pure ()
  | .mk comparator body span :: cs, scope, subject => by
    have hlast : (bareCases cs).isEmpty = cs.isEmpty := by cases cs <;> rfl
    unfold bareCases Case.bare checkCases
    rw [hlast]
    refine (Blind.lift (lowerCase_bare subject comparator span cs.isEmpty)).bind fun guard => ?_
    refine (Blind.openScope .caseBranch scope none []).bind fun inner => ?_
    refine (checkBlock_blind body inner).bind fun _ => ?_
    refine (Blind.perform (.closeScope inner .caseBranch scope [] guard)).bind fun _ => ?_
    exact checkCases_blind cs scope subject

end

private theorem checkItems_blind (scope : ScopeId) (is : List Item) :
    Blind id (checkItems scope (is.map Item.bare)) (checkItems scope is) := by
  induction is with
  | nil => exact .pure ()
  | cons i is ih => exact (checkItem_blind i scope).bind fun _ => ih

/-! ### Programs -/

/-- The check of a program without its places. -/
theorem typecheck_bare (p : Program) : typecheck p.bare = Checked.bare Ir.bare (typecheck p) := by
  have hinitial : Typing.State.bare .initial = .initial := by
    unfold Typing.State.bare Typing.State.initial Ir.bare Ir.initial
    simp [Scope.bare, Scope.empty]
  have hitems := checkItems_blind .root p.items .initial
  rw [hinitial] at hitems
  rw [typecheck_eq, typecheck_eq]
  unfold Program.bare
  rw [hitems]
  cases after (checkItems .root p.items) .initial <;> rfl

end Scriptlet
