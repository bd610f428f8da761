import Scriptlet.Proofs.Diagnosis.Heads
import Scriptlet.Proofs.Environment.Meets

/-!
# What errors say of functions

`check_explained`: what an error of a check says of functions and operators is right.  A function that is declared
again has been declared before, unless its name belongs to the language; what does not accept arguments of some types
accepts others; and a `return` that does not match belongs to the function that the error names.

A check of a part of a program adds the heads of its functions to those in force (`Accounts`), so that those in force
at an error are the ones before it.
-/

namespace Scriptlet

/-- The name is one of an operator of the language. -/
def OpName.IsBuiltin (name : String) : Prop := OperatorTable.signaturesOf name OperatorTable.builtinSignatures ≠ []

instance (name : String) : Decidable (OpName.IsBuiltin name) := inferInstanceAs (Decidable (_ ≠ _))

theorem UnaryOp.isBuiltin (op : UnaryOp) : OpName.IsBuiltin op.opName := by
  cases op <;> decide

theorem BinaryOp.isBuiltin (op : BinaryOp) : OpName.IsBuiltin op.opName := by
  cases op <;> decide

/-- What the error says of functions and operators is right, where these functions have been declared and these returns
have been met. -/
structure Explained (heads : List Function) (returns : List ReturnSite) (e : Located TypeError) : Prop where
  /-- The function has been declared before, or its name belongs to the language. -/
  duplicate : ∀ name previous, e.value = .duplicateFunction name previous →
    ∃ g ∈ heads, g.name = name ∧ g.declaredAt = e.span ∧ (previous = none ∧ OpName.IsBuiltin name ∨
      ∃ f, [f, g].Sublist heads ∧ f.name = name ∧ previous = some f.declaredAt)
  /-- Arguments of some other types are accepted. -/
  unmatched : ∀ op args alternatives, e.value = .noMatchingAlternative op args alternatives →
    alternatives ≠ [] ∧ ∀ s ∈ alternatives, s.args ≠ args
  /-- The function around the `return` has the name and returns the type. -/
  returned : ∀ func expected found, e.value = .returnMismatch func expected found →
    ∃ r ∈ returns, r.func.name = func ∧ r.func.signature.result = expected ∧ r.place = e.span ∧ found ≠ expected

/-- The error says nothing of functions or operators. -/
def TypeError.isPlain : TypeError → Bool
  | duplicateFunction .. | noMatchingAlternative .. | returnMismatch .. => false
  | _ => true

namespace Explained

variable {heads heads' : List Function} {returns returns' : List ReturnSite} {e : Located TypeError}

private theorem plain (h : e.value.isPlain = true) : Explained heads returns e := by
  refine ⟨fun _ _ he => ?_, fun _ _ _ he => ?_, fun _ _ _ he => ?_⟩
  all_goals
    rw [he] at h
    cases h

private theorem mono (h : Explained heads returns e) (hheads : heads.Sublist heads') (hreturns : returns ⊆ returns') :
    Explained heads' returns' e := by
  refine ⟨fun name previous he => ?_, h.unmatched, fun func expected found he => ?_⟩
  · obtain ⟨g, hg, hname, hspan, hprevious⟩ := h.duplicate name previous he
    refine ⟨g, hheads.subset hg, hname, hspan, hprevious.imp_right ?_⟩
    rintro ⟨f, hf, hrest⟩
    exact ⟨f, hf.trans hheads, hrest⟩
  · obtain ⟨r, hr, hrest⟩ := h.returned func expected found he
    exact ⟨r, hreturns hr, hrest⟩

end Explained

namespace Env

variable {Γ Γ' : Env}

/-! ### Expressions -/

/-- The check comes to an error only if that is explained without any function. -/
abbrev Plain {α : Type} (P : α → Prop) (x : Checked α) : Prop := Meets P (Explained [] []) x

/-- The names of the language are always known. -/
private theorem signatures_of_isBuiltin (Γ : Env) {name : String} (h : OpName.IsBuiltin name) :
    Γ.signatures name ≠ [] :=
  List.append_ne_nil_of_left_ne_nil h _

private theorem resultOf_plain {op : String} (h : Γ.signatures op ≠ []) (args : List Ty) (span : Span) :
    Plain (fun _ => True) (Γ.resultOf op args span) := by
  unfold resultOf
  split
  · trivial
  · next hnone =>
    refine .error ⟨fun _ _ he => (nomatch he), fun _ _ _ he => ?_, fun _ _ _ he => (nomatch he)⟩
    cases he
    exact ⟨h, fun s hs hargs => List.find?_eq_none.1 hnone s hs (decide_eq_true hargs)⟩

private theorem checkCallee_plain (Γ : Env) (callee : Ident) :
    Plain (fun _ => Γ.signatures callee.name ≠ []) (Γ.checkCallee callee) :=
  .ite (fun _ => .error (.plain rfl)) fun h hnil => h (List.isEmpty_iff.2 hnil)

mutual

private theorem typeOf_plain : (e : Expr) → Plain (fun _ => True) (Γ.typeOf e)
  | .literal _ _ => trivial
  | .name n span => by
    unfold typeOf
    split
    · trivial
    · exact .error (.plain rfl)
  | .call callee args span => by
    refine (checkCallee_plain Γ callee).bind fun _ hcallee => (typesOf_plain args).bind fun types _ => ?_
    exact resultOf_plain hcallee types span
  | .unary op operand span => by
    refine (typeOf_plain operand).bind fun ty _ => ?_
    exact resultOf_plain (signatures_of_isBuiltin Γ op.isBuiltin) [ty] span
  | .binary op lhs rhs span => by
    refine (typeOf_plain lhs).bind fun left _ => (typeOf_plain rhs).bind fun right _ => ?_
    exact resultOf_plain (signatures_of_isBuiltin Γ op.isBuiltin) [left, right] span

private theorem typesOf_plain : (es : List Expr) → Plain (fun _ => True) (Γ.typesOf es)
  | [] => trivial
  | e :: es => (typeOf_plain e).bind fun _ _ => (typesOf_plain es).bind fun _ _ => trivial

end

/-! ### Parts of statements -/

/-- Passes over a part that is checked before a function is met. -/
private theorem Plain.explained {α : Type} {P : α → Prop} {x : Checked α} {heads : List Function}
    {returns : List ReturnSite} (h : Plain P x) : Meets P (Explained heads returns) x :=
  h.mono (fun _ ha => ha) fun _ he => he.mono (List.nil_sublist _) (List.nil_subset _)

theorem declare_functions (Γ : Env) (l : Local) : (Γ.declare l).functions = Γ.functions := by
  unfold declare
  split <;> rfl

private theorem checkDecl_plain (d : Decl) (span : Span) (mutable : Bool) :
    Plain (fun Γ' => Γ'.functions = Γ.functions) (Γ.checkDecl d span mutable) := by
  refine (typeOf_plain d.value).bind fun ty _ => .violated (fun _ => .plain rfl) fun _ => ?_
  have hdeclare := declare_functions Γ ⟨d.name.name, ty, mutable, span⟩
  dsimp only
  split
  · exact .violated (fun _ => .plain rfl) fun _ => hdeclare
  · exact hdeclare

private theorem checkAssign_plain (target : Ident) (value : Expr) (span : Span) :
    Plain (fun _ => True) (Γ.checkAssign target value span) := by
  unfold checkAssign
  split
  · exact .error (.plain rfl)
  · refine .violated (fun _ => .plain rfl) fun _ => (typeOf_plain value).bind fun _ _ => ?_
    exact .ite (fun _ => .error (.plain rfl)) fun _ => trivial

private theorem checkPrint_plain : (es : List Expr) → Plain (fun _ => True) (Γ.checkPrint es)
  | [] => trivial
  | e :: es => (typeOf_plain e).bind fun _ _ => .violated (fun _ => .plain rfl) fun _ => checkPrint_plain es

private theorem checkCall_plain (callee : Ident) (args : List Expr) (span : Span) :
    Plain (fun _ => True) (Γ.checkCall callee args span) := by
  refine (checkCallee_plain Γ callee).bind fun _ hcallee => (typesOf_plain args).bind fun types _ => ?_
  exact (resultOf_plain hcallee types span).bind fun _ _ => trivial

private theorem checkCond_plain (e : Expr) : Plain (fun _ => True) (Γ.checkCond e) :=
  (typeOf_plain e).bind fun _ _ => .ite (fun _ => .error (.plain rfl)) fun _ => trivial

private theorem elementOf_plain : (i : Iterable) → Plain (fun _ => True) (Γ.elementOf i)
  | .range _ _ _ _ => .ite (fun _ => .error (.plain rfl)) fun _ => trivial
  | .expr e => (typeOf_plain e).bind fun _ _ => .violated (fun _ => .plain rfl) fun _ => trivial

private theorem checkConsts_plain (subject : Ty) : (cs : List Const) → Plain (fun _ => True) (checkConsts subject cs)
  | [] => trivial
  | _ :: cs => .violated (fun _ => .plain rfl) fun _ => checkConsts_plain subject cs

private theorem checkComparator_plain (subject : Ty) (span : Span) (isLast : Bool) : (comparator : Option Comparator) →
    Plain (fun _ => True) (checkComparator subject comparator span isLast)
  | some (.const c) => checkConsts_plain subject [c]
  | some (.oneOf cs) => checkConsts_plain subject cs
  | some (.range _ _ _) => .ite (fun _ => .error (.plain rfl)) fun _ => trivial
  | none => .ite (fun _ => trivial) fun _ => .error (.plain rfl)

private theorem parameters_plain : (before : List Local) → (ps : List Param) →
    Plain (fun _ => True) (parameters before ps)
  | _, [] => trivial
  | _, _ :: ps => .ite (fun _ => .error (.plain rfl)) fun _ => parameters_plain _ ps

/-- A `return` that does not match is one of the function around it. -/
private theorem checkReturn_explained (heads : List Function) (fn : Function) (value : Option Expr) (span : Span) :
    Meets (fun _ => True) (Explained heads [⟨fn, (value.map Expr.span).getD span⟩]) (Γ.checkReturn fn value span) := by
  have hmismatch (ty : Ty) (hty : ty ≠ fn.signature.result) : Explained heads [⟨fn, (value.map Expr.span).getD span⟩]
      ⟨(value.map Expr.span).getD span, .returnMismatch fn.name fn.signature.result ty⟩ := by
    refine ⟨fun _ _ he => (nomatch he), fun _ _ _ he => (nomatch he), fun _ _ _ he => ?_⟩
    cases he
    exact ⟨_, List.mem_singleton_self _, rfl, rfl, rfl, hty⟩
  cases value with
  | none => exact .ite (fun h => hmismatch .void h) fun _ => trivial
  | some e => exact (Plain.explained (typeOf_plain e)).bind fun ty _ => .ite (hmismatch ty) fun _ => trivial

/-! ### Statements -/

/-- The functions in force, in the order in which they were declared. -/
def known (Γ : Env) : List Function := Γ.functions.reverse

/-- From what is in force, the check goes on to these functions more, or comes to an error that they explain. -/
def Accounts (Γ : Env) (heads : List Function) (returns : List ReturnSite) : Checked Env → Prop :=
  Meets (fun Γ' => Γ'.known = Γ.known ++ heads) (Explained (Γ.known ++ heads) returns)

namespace Accounts

variable {α : Type} {P : α → Prop} {heads more : List Function} {returns others : List ReturnSite} {x : Checked Env}

private theorem pure (h : Γ'.functions = Γ.functions) : Accounts Γ [] [] (.ok Γ') := by
  show Γ'.known = Γ.known ++ []
  rw [List.append_nil, known, known, h]

/-- A check that meets no function. -/
private theorem of_plain (h : Plain (fun Γ' => Γ'.functions = Γ.functions) x) : Γ.Accounts [] [] x :=
  (Plain.explained h).mono (fun _ => pure) fun _ he => he

private theorem bind {f : Env → Checked Env} (hx : Γ.Accounts heads returns x)
    (hf : ∀ Γ' : Env, Γ'.known = Γ.known ++ heads → Γ'.Accounts more others (f Γ')) :
    Γ.Accounts (heads ++ more) (returns ++ others) (x >>= f) := by
  have hadds := List.sublist_append_left (Γ.known ++ heads) more
  rw [List.append_assoc] at hadds
  refine Meets.bind (hx.mono (fun _ h => h) fun _ he => he.mono hadds (List.subset_append_left _ _)) fun Γ' hΓ' => ?_
  have h := hf Γ' hΓ'
  unfold Accounts at h
  rw [hΓ', List.append_assoc] at h
  exact h.mono (fun _ h => h) fun _ he => he.mono (.refl _) (List.subset_append_right _ _)

/-- What is checked before knows nothing of functions. -/
private theorem after {y : Checked α} {f : α → Checked Env} (hy : Plain P y)
    (hf : ∀ a, P a → Γ.Accounts heads returns (f a)) : Γ.Accounts heads returns (y >>= f) :=
  Meets.bind (Plain.explained hy) hf

/-- A block within, which is left again. -/
private theorem block (hΓ : Γ'.functions = Γ.functions) (hx : Γ'.Accounts heads returns x) :
    Γ.Accounts heads returns (x >>= fun Γ' => .ok Γ'.leave) := by
  have hknown : Γ'.known = Γ.known := congrArg List.reverse hΓ
  unfold Accounts at hx ⊢
  rw [← hknown]
  exact Meets.bind hx fun _ h => h

end Accounts

/-- A function that is declared: its name is free, or it has been declared before. -/
private theorem define_accounts (Γ : Env) (name : Ident) (signature : Signature) :
    Γ.Accounts [⟨name.name, signature, name.span⟩] [] (Γ.define name signature) := by
  unfold define
  refine Meets.ite (fun _ => ?_) fun hne => .error ?_
  · show (_ :: Γ.functions).reverse = Γ.functions.reverse ++ _
    exact List.reverse_cons
  · refine ⟨fun other previous he => ?_, fun _ _ _ he => (nomatch he), fun _ _ _ he => (nomatch he)⟩
    cases he
    refine ⟨⟨name.name, signature, name.span⟩, by simp, rfl, rfl, ?_⟩
    cases hf : Γ.function? name.name with
    | none =>
      refine .inl ⟨rfl, fun hnil => hne ?_⟩
      simp [signatures, hnil, hf]
    | some f =>
      have hmem : f ∈ Γ.known := List.mem_reverse.2 (List.mem_of_find?_eq_some hf)
      refine .inr ⟨f, (List.singleton_sublist.2 hmem).append (.refl _), ?_, rfl⟩
      simpa using List.find?_some hf

mutual

private theorem checkItem_accounts : (i : Item) → (Γ : Env) → Γ.Accounts i.heads i.returns (Γ.checkItem i)
  | .letDecl d span, _ => .of_plain (checkDecl_plain d span false)
  | .func name params result body _, Γ => by
    refine (define_accounts Γ name _).bind fun Γ hΓ => .after (parameters_plain [] params) fun names _ => ?_
    have hbody := checkBlock_accounts body (Γ.enter names) ⟨name.name, signatureOf params result, name.span⟩
    exact .block rfl hbody

private theorem checkStmt_accounts : (s : Stmt) → (Γ : Env) → (fn : Function) →
    Γ.Accounts s.heads (s.returns fn) (Γ.checkStmt fn s)
  | .item i, Γ, _ => checkItem_accounts i Γ
  | .varDecl d span, _, _ => .of_plain (checkDecl_plain d span true)
  | .assign target value span, _, _ => .after (checkAssign_plain target value span) fun _ _ => .pure rfl
  | .print args _, _, _ => .after (checkPrint_plain args) fun _ _ => .pure rfl
  | .ret value span, Γ, fn => by
    refine Meets.bind (checkReturn_explained _ fn value span) fun _ _ => ?_
    exact (List.append_nil Γ.known).symm
  | .call callee args span, _, _ => .after (checkCall_plain callee args span) fun _ _ => .pure rfl
  | .forLoop x iterable body _, Γ, fn => by
    refine .after (elementOf_plain iterable) fun ty _ => ?_
    have hbody := checkBlock_accounts body (Γ.enter [⟨x.name, ty, false, x.span⟩]) fn
    exact .block rfl hbody
  | .whileLoop cond body _, Γ, fn | .ifThen cond body _, Γ, fn => by
    refine .after (checkCond_plain cond) fun _ _ => ?_
    have hbody := checkBlock_accounts body (Γ.enter []) fn
    exact .block rfl hbody
  | .ifElse cond body other _, Γ, fn => by
    refine .after (checkCond_plain cond) fun _ _ => (checkBlock_accounts body (Γ.enter []) fn).bind fun Γ' hΓ' => ?_
    have hother := checkBlock_accounts other (Γ'.leave.enter []) fn
    exact .block rfl hother
  | .switch subject cases _, Γ, fn => by
    refine .after (typeOf_plain subject) fun ty _ => ?_
    exact checkCases_account cases ty Γ fn

private theorem checkBlock_accounts : (b : Block) → (Γ : Env) → (fn : Function) →
    Γ.Accounts b.heads (b.returns fn) (Γ.checkBlock fn b)
  | .mk stmts _, Γ, fn => checkStmts_account stmts Γ fn

private theorem checkStmts_account : (ss : List Stmt) → (Γ : Env) → (fn : Function) →
    Γ.Accounts (headsOfStmts ss) (returnsOfStmts fn ss) (Γ.checkStmts fn ss)
  | [], _, _ => .pure rfl
  | s :: ss, Γ, fn => (checkStmt_accounts s Γ fn).bind fun Γ _ => checkStmts_account ss Γ fn

private theorem checkCases_account : (cs : List Case) → (subject : Ty) → (Γ : Env) → (fn : Function) →
    Γ.Accounts (headsOfCases cs) (returnsOfCases fn cs) (Γ.checkCases fn subject cs)
  | [], _, _, _ => .pure rfl
  | .mk comparator body span :: cs, subject, Γ, fn => by
    refine .after (checkComparator_plain subject span cs.isEmpty comparator) fun _ _ => ?_
    refine (checkBlock_accounts body (Γ.enter []) fn).bind fun Γ' hΓ' => ?_
    exact checkCases_account cs subject Γ'.leave fn

end

/-- The check of items ends with their functions, or with an error that they explain. -/
theorem checkItems_account (is : List Item) (Γ : Env) :
    Γ.Accounts (is.flatMap Item.heads) (is.flatMap Item.returns) (Γ.checkItems is) := by
  induction is generalizing Γ with
  | nil => exact .pure rfl
  | cons i is ih => exact (checkItem_accounts i Γ).bind fun Γ _ => ih Γ

/-- The check of a program ends with its functions, or with an error that they explain. -/
theorem check_accounts (p : Program) : initial.Accounts p.heads p.returns (check p) :=
  checkItems_account p.items initial

end Env

end Scriptlet
