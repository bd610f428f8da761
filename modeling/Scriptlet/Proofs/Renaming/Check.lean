import Mathlib.Data.List.Basic
import Mathlib.Logic.Equiv.Basic
import Scriptlet.Proofs.Frame.Confined
import Scriptlet.Proofs.Renaming.Lowering

/-!
# A check follows a renaming

`typecheck_rename`: the check of a renamed program comes to what the check of the program comes to, renamed: the same
scopes with the same numbers, bindings, types, places and entries, and a table of operators that holds the same for the
renamed names; or the same error.

The same holds of every checker from every state (`Follows`).  Only the error of a `return` outside all functions would
have a name in it that is not renamed, so that the rules keep track of scopes that belong to functions; all statements
of a program stand in such scopes.
-/

namespace Scriptlet

open Typing Checker

/-- The scope belongs to a function. -/
def Ir.InFunction (ir : Ir) (id : ScopeId) : Prop := ∃ f, (ir.scope id).func = some f

/-- A scope goes on to belong to its function. -/
private theorem Ir.InFunction.apply {ir : Ir} {id : ScopeId} (h : ir.InFunction id) (step : Ir.Step) :
    (ir.apply step).InFunction id := by
  obtain ⟨f, hf⟩ := h
  have hmodify (other : ScopeId) {change : Scope → Scope} (hc : ∀ s, (change s).func = s.func) :
      (ir.modifyScope other change).InFunction id := by
    rcases ir.scope_modifyScope other id change with ⟨rfl, -, hscope⟩ | hscope
    · exact ⟨f, by rw [hscope, hc, hf]⟩
    · exact ⟨f, by rw [hscope, hf]⟩
  cases step with
  | register name signature => exact ⟨f, hf⟩
  | openScope number kind parent func born =>
    rcases ir.scope_openScope id parent func born with ⟨rfl, -⟩ | ⟨-, hscope⟩
    · rw [Ir.scope_of_size_le (Nat.le_refl _)] at hf
      cases hf
    · exact ⟨f, (congrArg Scope.func hscope).trans hf⟩
  | declare scope name var => exact hmodify scope fun _ => rfl
  | act scope op args => exact hmodify scope fun _ => rfl
  | closeScope number kind parent born guard => exact hmodify parent fun _ => rfl

namespace Renaming

variable (ρ : Renaming) {α β α' β' : Type}

/-- The second state of a check is the first one renamed. -/
structure Relates (s s' : Typing.State) : Prop where
  ir : s.ir.Renames ρ s'.ir
  declared : s'.declared = s.declared.map (Prod.map ρ.func id)

/-- What the check of the renamed part comes to: the same, renamed, in a state where scopes of functions are still such
scopes. -/
inductive Answers (s : Typing.State) (g : α → β) : Checked (α × Typing.State) → Checked (β × Typing.State) → Prop where
  | ok {a : α} {t t' : Typing.State} : ρ.Relates t t' → (∀ id, s.ir.InFunction id → t.ir.InFunction id) →
    Answers s g (.ok (a, t)) (.ok (g a, t'))
  | error (e : Located TypeError) : Answers s g (.error e) (.error (renameError ρ e))

/-- The checker `x'` comes to what `x` comes to, renamed, where the scopes in `A` belong to functions. -/
def Follows (A : ScopeId → Prop) (g : α → β) (x' : Checker β) (x : Checker α) : Prop :=
  ∀ s s', ρ.Relates s s' → (∀ id, A id → s.ir.InFunction id) → ρ.Answers s g (after x s) (after x' s')

namespace Follows

variable {ρ} {A B : ScopeId → Prop} {g : α → α'} {h : β → β'} {x : Checker α} {x' : Checker α'}
  {f : α → Checker β} {f' : α' → Checker β'}

/-- One checker after the other, the second one being asked only where the first one leads. -/
private theorem bind_of {s s' : Typing.State} (hx : ρ.Answers s g (after x s) (after x' s'))
    (hf : ∀ a t t', after x s = .ok (a, t) → ρ.Relates t t' → (∀ id, s.ir.InFunction id → t.ir.InFunction id) →
      ρ.Answers t h (after (f a) t) (after (f' (g a)) t')) :
    ρ.Answers s h (after (x >>= f) s) (after (x' >>= f') s') := by
  rw [after_bind, after_bind]
  generalize hr : after x s = r at hx
  generalize after x' s' = r' at hx
  cases hx with
  | error e => exact .error e
  | @ok a t t' ht hkept =>
    have hnext := hf a t t' hr ht hkept
    simp only [ok_bind]
    generalize after (f a) t = q at hnext
    generalize after (f' (g a)) t' = q' at hnext
    cases hnext with
    | error e => exact .error e
    | ok hu hkept' => exact .ok hu fun id hid => hkept' id (hkept id hid)

private theorem bind (hx : ρ.Follows A g x' x) (hf : ∀ a, ρ.Follows A h (f' (g a)) (f a)) :
    ρ.Follows A h (x' >>= f') (x >>= f) := by
  intro s s' hs hA
  exact bind_of (hx s s' hs hA) fun a t t' _ ht hkept => hf a t t' ht fun id hid => hkept id (hA id hid)

private theorem mono (hx : ρ.Follows A g x' x) (hAB : ∀ id, A id → B id) : ρ.Follows B g x' x := by
  intro s s' hs hB
  exact hx s s' hs fun id hid => hB id (hAB id hid)

private theorem pure (a : α) : ρ.Follows A g (Pure.pure (g a)) (Pure.pure a) := fun _ _ hs _ => .ok hs fun _ hid => hid

private theorem throw (e : TypeError) (span : Span) : ρ.Follows A g (throw ⟨span, e.rename ρ⟩) (throw ⟨span, e⟩) :=
  fun _ _ _ _ => .error ⟨span, e⟩

/-- What is found in one representation is found renamed in the other. -/
theorem lift {c : Checked α} {c' : Checked α'} (hc : c' = ρ.result g c) : ρ.Follows A g (lift c') (lift c) := by
  intro s s' hs _
  rw [after_lift, after_lift, hc]
  cases c with
  | ok a => exact .ok hs fun _ hid => hid
  | error e => exact .error e

/-- What is done with the representation so far. -/
theorem getIr {f : Ir → Checker β} {f' : Ir → Checker β'} (hf : ∀ ir ir', ir.Renames ρ ir' →
    (∀ id, A id → ir.InFunction id) → ρ.Follows A h (f' ir') (f ir)) :
    ρ.Follows A h (Checker.getIr >>= f') (Checker.getIr >>= f) := by
  intro s s' hs hA
  rw [after_bind, after_bind]
  exact hf s.ir s'.ir hs.ir hA s s' hs hA

private theorem perform (step : Ir.Step) : ρ.Follows A id (perform (step.rename ρ)) (perform step) := by
  intro s s' hs _
  exact .ok ⟨hs.ir.apply step, hs.declared⟩ fun id hid => hid.apply step

private theorem ite {c : Prop} [Decidable c] {x y : Checker α} {x' y' : Checker α'} (hx : ρ.Follows A g x' x)
    (hy : ρ.Follows A g y' y) : ρ.Follows A g (if c then x' else y') (if c then x else y) := by
  split
  · exact hx
  · exact hy

/-- What follows the opening of a scope may rely on it to belong to a function, if it is one's own or that of the scope
around it. -/
theorem openScope {kind : ScopeKind} {parent : ScopeId} (func : Option String) {born : List (String × Var)}
    {f : ScopeId → Checker β} {f' : ScopeId → Checker β'} (hfunc : func = none → A parent)
    (hf : ∀ inner, ρ.Follows (fun id => id = inner ∨ A id) h (f' inner) (f inner)) :
    ρ.Follows A h (Checker.openScope kind parent (func.map ρ.func) (born.map (renameBinding ρ)) >>= f')
      (Checker.openScope kind parent func born >>= f) := by
  intro s s' hs hA
  have hopened : ρ.Answers s id (after (Checker.openScope kind parent func born) s)
      (after (Checker.openScope kind parent (func.map ρ.func) (born.map (renameBinding ρ))) s') := by
    rw [after_openScope, after_openScope, hs.ir.size]
    exact .ok ⟨hs.ir.apply (.openScope s.ir.scopes.size kind parent func born), hs.declared⟩
      fun id hid => hid.apply _
  refine bind_of hopened fun inner t t' ht hrelates hkept => hf inner t t' hrelates ?_
  rintro id (rfl | hid)
  · rw [after_openScope] at ht
    cases ht
    have hscope := s.ir.scope_openScope_self parent func born
    cases func with
    | some name => exact ⟨name, (congrArg Scope.func hscope).trans (by simp [Scope.empty])⟩
    | none =>
      obtain ⟨name, hname⟩ := hA parent (hfunc rfl)
      exact ⟨name, (congrArg Scope.func hscope).trans (by simp [Scope.empty, hname])⟩
  · exact hkept id (hA id hid)

end Follows

end Renaming

open Renaming (Follows result_bind)

variable {ρ : Renaming} {A : ScopeId → Prop} {scope : ScopeId}

/-! ### Simple statements -/

private theorem annotationOk_fixed (type : Option TypeName) (ty : Ty) :
    annotationOk type ty = ρ.result id (annotationOk type ty) := by
  cases type with
  | none => rfl
  | some t =>
    unfold annotationOk
    simp only
    split <;> rfl

private theorem checkDecl_follows (scope : ScopeId) (d : Decl) (span : Span) (mutable : Bool) :
    ρ.Follows A id (checkDecl scope (d.rename ρ) span mutable) (checkDecl scope d span mutable) := by
  refine Follows.getIr fun ir ir' hir _ => (Follows.lift (Expr.lower_rename hir scope d.value)).bind fun r => ?_
  refine .ite ?_ ?_
  · rw [Decl.rename, Expr.span_rename]
    exact .throw (.voidBinding d.name.name) d.value.span
  · refine (Follows.lift (annotationOk_fixed d.type r.2)).bind fun _ => ?_
    exact .perform (.declare scope d.name.name (.mk r.1 r.2 span mutable))

/-- An action with arguments that are found in the representation. -/
private theorem act_follows (scope : ScopeId) (op : String) {c c' : Ir → Checked (List Var)}
    (hc : ∀ ir ir', ir.Renames ρ ir' → (∀ id, A id → ir.InFunction id) →
      c' ir' = ρ.result (List.map (Var.rename ρ)) (c ir)) :
    ρ.Follows A id (Checker.getIr >>= fun ir => lift (c' ir) >>= fun args => perform (.act scope (ρ.func op) args))
      (Checker.getIr >>= fun ir => lift (c ir) >>= fun args => perform (.act scope op args)) :=
  Follows.getIr fun ir ir' hir hA => (Follows.lift (hc ir ir' hir hA)).bind fun args => .perform (.act scope op args)

private theorem lowerAssign_rename {ir ir' : Ir} (h : ir.Renames ρ ir') (scope : ScopeId) (target : Ident)
    (value : Expr) (span : Span) : lowerAssign ir' scope (target.map ρ.var) (value.rename ρ) span =
      ρ.result (List.map (Var.rename ρ)) (lowerAssign ir scope target value span) := by
  unfold lowerAssign Ident.map
  simp only [h.lookup]
  cases ir.lookup target.name scope with
  | none => rfl
  | some r =>
    obtain ⟨binding, var⟩ := r
    simp only [Option.map_some, Var.mutable_rename, Var.ty_rename, Var.span_rename, Expr.span_rename]
    by_cases hm : var.mutable = true
    · simp only [hm, Bool.not_true, Bool.false_eq_true, if_false]
      refine result_bind (Expr.lowerVar_rename h scope value) fun new => ?_
      rw [Var.ty_rename]
      split
      · simp [Pure.pure, Except.pure, Var.rename, Value.rename]
      · rfl
    · simp only [Bool.not_eq_true] at hm
      simp only [hm, Bool.not_false, if_true]
      rfl

/-- The function around a scope, if there is one. -/
private theorem enclosing_rename {ir ir' : Ir} (h : ir.Renames ρ ir') (hscope : ir.InFunction scope) :
    enclosing ir' scope = (ρ.func (enclosing ir scope).1, (enclosing ir scope).2) := by
  obtain ⟨name, hname⟩ := hscope
  have hname' : (ir'.scope scope).func = some (ρ.func name) := by
    rw [h.scope]
    simp [Scope.rename, hname]
  unfold enclosing
  simp only [hname, hname', Option.getD_some, h.get?]

private theorem lowerReturn_rename {ir ir' : Ir} (h : ir.Renames ρ ir') (hscope : ir.InFunction scope)
    (value : Option Expr) (span : Span) : lowerReturn ir' scope (value.map (Expr.rename ρ)) span =
      ρ.result (List.map (Var.rename ρ)) (lowerReturn ir scope value span) := by
  unfold lowerReturn
  rw [enclosing_rename h hscope]
  cases value with
  | none =>
    simp only [Option.map_none]
    split <;> rfl
  | some e =>
    simp only [Option.map_some]
    refine result_bind (Expr.lowerVar_rename h scope e) fun var => ?_
    rw [Var.ty_rename, Expr.span_rename]
    split <;> rfl

private theorem checkAssign_follows (scope : ScopeId) (target : Ident) (value : Expr) (span : Span) :
    ρ.Follows A id (checkAssign scope (target.map ρ.var) (value.rename ρ) span)
      (checkAssign scope target value span) := by
  have hact := act_follows (A := A) scope OpName.assign fun ir ir' h _ =>
    lowerAssign_rename (ρ := ρ) h scope target value span
  rwa [ρ.func_action (by decide)] at hact

private theorem checkPrint_follows (scope : ScopeId) (args : List Expr) :
    ρ.Follows A id (checkPrint scope (args.map (Expr.rename ρ))) (checkPrint scope args) := by
  have hact := act_follows (A := A) scope OpName.print fun ir ir' h _ =>
    lowerPrintArgs_rename (ρ := ρ) h scope args
  rwa [ρ.func_action (by decide)] at hact

private theorem checkReturn_follows (scope : ScopeId) (value : Option Expr) (span : Span) :
    ρ.Follows (· = scope) id (checkReturn scope (value.map (Expr.rename ρ)) span) (checkReturn scope value span) := by
  have hact := act_follows (A := (· = scope)) scope OpName.ret fun ir ir' h hscope =>
    lowerReturn_rename (ρ := ρ) h (hscope scope rfl) value span
  rwa [ρ.func_action (by decide)] at hact

private theorem checkCall_follows (scope : ScopeId) (callee : Ident) (args : List Expr) (span : Span) :
    ρ.Follows A id (checkCall scope (callee.map ρ.func) (args.map (Expr.rename ρ)) span)
      (checkCall scope callee args span) :=
  act_follows scope callee.name fun _ _ h _ => lowerCall_rename h scope callee args span

/-! ### Functions -/

private theorem register_follows (name : Ident) (signature : Signature) :
    ρ.Follows A id (register (name.map ρ.func) signature) (register name signature) := by
  intro s s' hs _
  have hcontains : s'.ir.ops.contains (name.map ρ.func).name = s.ir.ops.contains name.name := hs.ir.contains name.name
  have hdeclared : s'.declared.lookup (name.map ρ.func).name = s.declared.lookup name.name := by
    rw [hs.declared]
    exact lookup_map_injective ρ.func.injective _ _
  rw [after_register, after_register, hcontains, hdeclared]
  split
  · exact .error ⟨name.span, .duplicateFunction name.name (s.declared.lookup name.name)⟩
  · refine .ok ⟨hs.ir.apply (.register name.name signature), ?_⟩ fun id hid => hid.apply _
    simp [registered, Typing.State.perform, hs.declared, Ident.map]

private theorem splitParams_rename (seen : List String) (ps : List Param) :
    splitParams (seen.map ρ.var) (ps.map (Param.rename ρ)) =
      ((splitParams seen ps).1.map (Param.rename ρ), (splitParams seen ps).2.map (Param.rename ρ)) := by
  induction ps generalizing seen with
  | nil => rfl
  | cons p ps ih =>
    have hmem : (p.rename ρ).name.name ∈ seen.map ρ.var ↔ p.name.name ∈ seen :=
      List.mem_map_of_injective ρ.var_injective
    rw [List.map_cons]
    unfold splitParams
    by_cases hp : p.name.name ∈ seen
    · rw [if_pos hp, if_pos (hmem.2 hp)]
      rfl
    · have hseen : (p.rename ρ).name.name :: seen.map ρ.var = (p.name.name :: seen).map ρ.var := rfl
      rw [if_neg hp, if_neg (mt hmem.1 hp), hseen, ih]
      rfl

/-- What follows the opening of a function's scope may rely on it to belong to the function. -/
private theorem openFunc_follows (scope : ScopeId) (name : Ident) (params : List Param)
    {f f' : ScopeId → Checker Unit} (hf : ∀ inner, ρ.Follows (fun id => id = inner ∨ A id) id (f' inner) (f inner)) :
    ρ.Follows A id (openFunc scope (name.map ρ.func) (params.map (Param.rename ρ)) >>= f')
      (openFunc scope name params >>= f) := by
  have hsplit : splitParams [] (params.map (Param.rename ρ)) = _ := splitParams_rename [] params
  have hborn : ((splitParams [] params).1.map (Param.rename ρ)).map paramBinding =
      ((splitParams [] params).1.map paramBinding).map (renameBinding ρ) := by
    rw [List.map_map, List.map_map]
    rfl
  rw [openFunc_bind, openFunc_bind, hsplit]
  simp only [hborn]
  refine Follows.openScope (some name.name) (fun h => by cases h) fun inner => ?_
  cases (splitParams [] params).2 with
  | none => exact hf inner
  | some p => exact .throw (.duplicateParam p.name.name) p.name.span

/-! ### Statements with blocks -/

private theorem lowerCase_rename (subject : Var) (comparator : Option Comparator) (span : Span) (isLast : Bool) :
    lowerCase (subject.rename ρ) comparator span isLast =
      ρ.result (Option.map (Value.rename ρ)) (lowerCase subject comparator span isLast) := by
  cases comparator with
  | none =>
    simp only [lowerCase]
    split <;> rfl
  | some c =>
    simp only [lowerCase, Comparator.lower_rename]
    cases c.lower subject <;> rfl

/-- A block in a scope of its own. -/
private theorem checkInner_of_block {body : Block} (hbody : ∀ inner,
    ρ.Follows (· = inner) id (checkBlock inner (body.rename ρ)) (checkBlock inner body)) (scope : ScopeId)
    (kind : ScopeKind) (born : List (String × Var)) (guard : Option Value) :
    ρ.Follows (· = scope) id
      (checkInner scope kind (born.map (renameBinding ρ)) (guard.map (Value.rename ρ)) (body.rename ρ))
      (checkInner scope kind born guard body) := by
  have hnames : (born.map (renameBinding ρ)).map Prod.fst = (born.map Prod.fst).map ρ.var := by
    rw [List.map_map, List.map_map]
    rfl
  unfold checkInner
  rw [hnames]
  refine Follows.openScope none (fun _ => rfl) fun inner => ?_
  refine ((hbody inner).mono fun _ => Or.inl).bind fun _ => ?_
  exact .perform (.closeScope inner kind scope (born.map Prod.fst) guard)

mutual

private theorem checkItem_follows : (i : Item) → ∀ scope, ρ.Follows (fun _ => False) id (checkItem scope (i.rename ρ))
    (checkItem scope i)
  | .letDecl d span, scope => checkDecl_follows scope d span false
  | .func name params result body span, scope => by
    have hparams : (params.map (Param.rename ρ)).map (·.type.ty) = params.map (·.type.ty) := by
      simp [Param.rename]
    have hnames : (params.map (Param.rename ρ)).map (·.name.name) = (params.map (·.name.name)).map ρ.var := by
      simp [Param.rename, Ident.map]
    unfold Item.rename checkItem
    rw [hparams, hnames]
    refine (register_follows name _).bind fun _ => openFunc_follows scope name params fun inner => ?_
    refine ((checkBlock_follows body inner).mono fun _ => Or.inl).bind fun _ => ?_
    exact .perform (.closeScope inner .func scope (params.map (·.name.name)) none)

private theorem checkStmt_follows : (s : Stmt) → ∀ scope, ρ.Follows (· = scope) id (checkStmt scope (s.rename ρ))
    (checkStmt scope s)
  | .item i, scope => (checkItem_follows i scope).mono fun _ h => h.elim
  | .varDecl d span, scope => checkDecl_follows scope d span true
  | .assign target value span, scope => checkAssign_follows scope target value span
  | .print args _, scope => checkPrint_follows scope args
  | .ret value span, scope => checkReturn_follows scope value span
  | .call callee args span, scope => checkCall_follows scope callee args span
  | .forLoop var iterable body span, scope => by
    rw [Stmt.rename, checkStmt_forLoop, checkStmt_forLoop]
    refine Follows.getIr fun ir ir' hir _ => (Follows.lift (Iterable.lower_rename hir scope iterable)).bind fun r => ?_
    exact checkInner_of_block (checkBlock_follows body) scope .loop [(var.name, .mk .arg r.2 var.span false)] (some r.1)
  | .whileLoop cond body span, scope => by
    rw [Stmt.rename, checkStmt_whileLoop, checkStmt_whileLoop]
    refine Follows.getIr fun ir ir' hir _ => (Follows.lift (Expr.lowerCond_rename hir scope cond)).bind fun guard => ?_
    exact checkInner_of_block (checkBlock_follows body) scope .loop [] (some guard)
  | .ifThen cond body span, scope => by
    rw [Stmt.rename, checkStmt_ifThen, checkStmt_ifThen]
    refine Follows.getIr fun ir ir' hir _ => (Follows.lift (Expr.lowerCond_rename hir scope cond)).bind fun guard => ?_
    exact checkInner_of_block (checkBlock_follows body) scope .ifBranch [] (some guard)
  | .ifElse cond body other span, scope => by
    rw [Stmt.rename, checkStmt_ifElse, checkStmt_ifElse]
    refine Follows.getIr fun ir ir' hir _ => (Follows.lift (Expr.lowerCond_rename hir scope cond)).bind fun guard => ?_
    refine (checkInner_of_block (checkBlock_follows body) scope .ifBranch [] (some guard)).bind fun _ => ?_
    exact checkInner_of_block (checkBlock_follows other) scope .elseBranch [] none
  | .switch subject cases span, scope => by
    rw [Stmt.rename, checkStmt_switch, checkStmt_switch]
    refine Follows.getIr fun ir ir' hir _ => (Follows.lift (Expr.lowerVar_rename hir scope subject)).bind fun var => ?_
    exact checkCases_follows cases scope var

private theorem checkBlock_follows : (b : Block) → ∀ scope, ρ.Follows (· = scope) id (checkBlock scope (b.rename ρ))
    (checkBlock scope b)
  | .mk stmts _, scope => checkStmts_follows stmts scope

private theorem checkStmts_follows : (ss : List Stmt) → ∀ scope, ρ.Follows (· = scope) id
    (checkStmts scope (renameStmts ρ ss)) (checkStmts scope ss)
  | [], _ => .pure ()
  | s :: ss, scope => (checkStmt_follows s scope).bind fun _ => checkStmts_follows ss scope

private theorem checkCases_follows : (cs : List Case) → ∀ scope subject, ρ.Follows (· = scope) id
    (checkCases scope (subject.rename ρ) (renameCases ρ cs)) (checkCases scope subject cs)
  | [], _, _ => .pure ()
  | .mk comparator body span :: cs, scope, subject => by
    have hlast : (renameCases ρ cs).isEmpty = cs.isEmpty := by
      cases cs with
      | nil => rfl
      | cons c cs =>
        cases c
        rfl
    rw [renameCases, checkCases_cons, checkCases_cons, hlast]
    refine (Follows.lift (lowerCase_rename subject comparator span cs.isEmpty)).bind fun guard => ?_
    refine (checkInner_of_block (checkBlock_follows body) scope .caseBranch [] guard).bind fun _ => ?_
    exact checkCases_follows cs scope subject

end

private theorem checkItems_follows (scope : ScopeId) (is : List Item) :
    ρ.Follows (fun _ => False) id (checkItems scope (is.map (Item.rename ρ))) (checkItems scope is) := by
  induction is with
  | nil => exact .pure ()
  | cons i is ih => exact (checkItem_follows i scope).bind fun _ => ih

/-! ### Programs -/

/-- The operators of the language keep their names, and no other name becomes one of them. -/
private theorem relates_initial (ρ : Renaming) : ρ.Relates .initial .initial := by
  refine ⟨⟨fun name => ?_, by simp [Typing.State.initial, Ir.initial, Scope.empty, Scope.rename]⟩, rfl⟩
  change OperatorTable.builtins.get? (ρ.func name) = OperatorTable.builtins.get? name
  by_cases hname : OpName.IsBuiltin (ρ.func name)
  · have hfixed : ρ.func (ρ.func name) = ρ.func name := ρ.func_reserved _ (.inl hname)
    rw [ρ.func.injective hfixed]
  · by_cases hbuiltin : OpName.IsBuiltin name
    · rw [ρ.func_reserved name (.inl hbuiltin)]
    · unfold OpName.IsBuiltin at hname hbuiltin
      rw [OperatorTable.get?_builtins, OperatorTable.get?_builtins, not_not.1 hname, not_not.1 hbuiltin]

/-- A renamed program is accepted with the renamed representation, or rejected with the same error of the renamed
names. -/
theorem typecheck_rename (ρ : Renaming) (p : Program) :
    (∀ ir, typecheck p = .ok ir → ∃ ir', typecheck (p.rename ρ) = .ok ir' ∧ ir.Renames ρ ir') ∧
      ∀ e, typecheck p = .error e → typecheck (p.rename ρ) = .error ⟨e.span, e.value.rename ρ⟩ := by
  have hitems := checkItems_follows (ρ := ρ) .root p.items .initial .initial (relates_initial ρ) fun _ h => h.elim
  rw [typecheck_eq, typecheck_eq]
  unfold Program.rename
  generalize after (checkItems .root p.items) .initial = r at hitems
  generalize after (checkItems .root (p.items.map (Item.rename ρ))) .initial = r' at hitems
  cases hitems with
  | error e =>
    refine ⟨fun _ hir => (by cases hir), fun d hd => ?_⟩
    cases hd
    rfl
  | ok ht _ =>
    refine ⟨fun _ hir => ?_, fun _ he => (by cases he)⟩
    cases hir
    exact ⟨_, rfl, ht.ir⟩

/-- A letter before every variable, and two functions with each other's name. -/
def Renaming.exchange : Renaming where
  var name := "v" ++ name
  func := Equiv.swap "f" "g"
  var_injective _ _ h := String.append_right_inj "v" |>.1 h
  func_reserved name h := by
    refine Equiv.swap_apply_of_ne_of_ne ?_ ?_
    · rintro rfl
      exact absurd h (by decide)
    · rintro rfl
      exact absurd h (by decide)

/-- `func f(x: Int) -> Int { return x; } let y = f(1);` without its places. -/
private def calling : Program where
  items :=
    [.func ⟨"f", .blank⟩ [⟨⟨"x", .blank⟩, ⟨.int, .blank⟩⟩] (some ⟨.int, .blank⟩)
      (.mk [.ret (some (.name "x" .blank)) .blank] .blank) .blank,
    .letDecl ⟨⟨"y", .blank⟩, none, .call ⟨"f", .blank⟩ [.literal (.int 1) .blank] .blank⟩ .blank]

/-- `let y = x;` without its places. -/
private def undeclared : Program where
  items := [.letDecl ⟨⟨"y", .blank⟩, none, .name "x" .blank⟩ .blank]

/-- A function that another takes the name of, and a variable that is not declared under either name. -/
theorem exchange_renames :
    (∃ p ir ir', typecheck p = .ok ir ∧ typecheck (p.rename .exchange) = .ok ir' ∧ ir.Renames .exchange ir' ∧
      ir.ops.contains "f" = true ∧ ir'.ops.contains "g" = true) ∧
    ∃ p span, typecheck p = .error ⟨span, .undefinedName "x"⟩ ∧
      typecheck (p.rename .exchange) = .error ⟨span, .undefinedName "vx"⟩ := by
  have hcalling : (typecheck calling).toOption.map (·.ops.contains "f") = some true := rfl
  have hundeclared : typecheck undeclared = .error ⟨.blank, .undefinedName "x"⟩ := rfl
  cases hir : typecheck calling with
  | error e =>
    rw [hir] at hcalling
    cases hcalling
  | ok ir =>
    rw [hir] at hcalling
    have hf : ir.ops.contains "f" = true := Option.some.inj hcalling
    obtain ⟨ir', hir', hrenames⟩ := (typecheck_rename .exchange calling).1 ir hir
    have hg := hrenames.contains "f"
    rw [hf] at hg
    exact ⟨⟨_, ir, ir', hir, hir', hrenames, hf, hg⟩, _, _, hundeclared,
      (typecheck_rename .exchange undeclared).2 _ hundeclared⟩

end Scriptlet
