import Scriptlet.Proofs.Calls.Basic

/-!
# What is called is known

`check_known`: in a program that is accepted, what an item calls is an operator of the language or a function that is
declared in this item or before.  A function that is in force remains so, which is all that is needed to put the parts
of a check together (`Knows`).
-/

namespace Scriptlet

namespace Env

variable {α : Type} {Γ Γ' : Env} {names more : List String}

/-- These names are known, as operators or as functions. -/
def Knows (Γ : Env) (names : List String) : Prop := ∀ f ∈ names, Γ.signatures f ≠ []

private theorem Knows.append (h : Γ.Knows names) (h' : Γ.Knows more) : Γ.Knows (names ++ more) :=
  List.forall_mem_append.2 ⟨h, h'⟩

/-- More functions make no name unknown. -/
private theorem Knows.mono (h : Γ.Knows names) (hΓ : Γ.functions ⊆ Γ'.functions) : Γ'.Knows names := by
  intro f hf hnil
  obtain ⟨hbuiltin, hnone⟩ := List.append_eq_nil_iff.1 hnil
  refine h f hf (List.append_eq_nil_iff.2 ⟨hbuiltin, ?_⟩)
  have hnone : Γ'.function? f = none := by simpa using hnone
  have hold : Γ.function? f = none := List.find?_eq_none.2 fun g hg => List.find?_eq_none.1 hnone g (hΓ hg)
  rw [hold]
  rfl

/-- A name that is known and free is one of a function. -/
private theorem Knows.exists_function (h : Γ.Knows names) {f : String} (hf : f ∈ names) (hfree : OpName.Free f) :
    ∃ g ∈ Γ.functions, g.name = f := by
  have hbuiltin : OperatorTable.signaturesOf f OperatorTable.builtinSignatures = [] :=
    Decidable.not_not.1 hfree.1
  have hknown := h f hf
  unfold signatures at hknown
  rw [hbuiltin, List.nil_append] at hknown
  cases hg : Γ.function? f with
  | none =>
    rw [hg] at hknown
    exact absurd rfl hknown
  | some g =>
    exact ⟨g, List.mem_of_find?_eq_some hg, by simpa using List.find?_some hg⟩

/-! ### Parts of statements -/

/-- Where the check succeeds, these names are known. -/
abbrev Uses (Γ : Env) (names : List String) (x : Checked α) : Prop := Meets (fun _ => Γ.Knows names) (fun _ => True) x

private theorem checkCallee_uses (Γ : Env) (callee : Ident) : Γ.Uses [callee.name] (Γ.checkCallee callee) :=
  .ite (fun _ => trivial) fun h f hf hnil => h (by rw [List.mem_singleton.1 hf] at hnil; exact List.isEmpty_iff.2 hnil)

private theorem Uses.anything (x : Checked α) (h : Γ.Knows names) : Γ.Uses names x := by
  cases x with
  | ok a => exact h
  | error e => trivial

/-- What is used in two parts is used in both together. -/
private theorem Uses.bind {β : Type} {x : Checked α} {f : α → Checked β} (hx : Γ.Uses names x)
    (hf : ∀ a, Γ.Uses more (f a)) : Γ.Uses (names ++ more) (x >>= f) :=
  Meets.bind hx fun a h => (hf a).mono (fun _ h' => h.append h') fun _ he => he

/-- The other part uses nothing. -/
private theorem Uses.before {β : Type} {x : Checked α} {f : α → Checked β} (hx : Γ.Uses names x) :
    Γ.Uses names (x >>= f) :=
  Meets.bind hx fun a h => Uses.anything (f a) h

mutual

private theorem typeOf_uses : (e : Expr) → Γ.Uses e.calls (Γ.typeOf e)
  | .literal l _ => .anything (.ok l.ty) fun _ h => nomatch h
  | .name _ _ => .anything _ fun _ h => nomatch h
  | .call callee args _ => (checkCallee_uses Γ callee).bind fun _ => (typesOf_use args).before
  | .unary _ e _ => (typeOf_uses e).before
  | .binary _ l r _ => (typeOf_uses l).bind fun _ => (typeOf_uses r).before

private theorem typesOf_use : (es : List Expr) → Γ.Uses (Expr.callsOfList es) (Γ.typesOf es)
  | [] => .anything (.ok []) fun _ h => nomatch h
  | e :: es => (typeOf_uses e).bind fun _ => (typesOf_use es).before

end

private theorem checkAssign_uses (target : Ident) (value : Expr) (span : Span) :
    Γ.Uses value.calls (Γ.checkAssign target value span) := by
  unfold checkAssign
  split
  · trivial
  · exact .violated (fun _ => trivial) fun _ => (typeOf_uses value).before

private theorem checkPrint_uses : (es : List Expr) → Γ.Uses (Expr.callsOfList es) (Γ.checkPrint es)
  | [] => .anything (.ok ()) fun _ h => nomatch h
  | e :: es => (typeOf_uses e).bind fun _ => .violated (fun _ => trivial) fun _ => checkPrint_uses es

private theorem checkReturn_uses (fn : Function) (value : Option Expr) (span : Span) :
    Γ.Uses (Expr.callsOfList value.toList) (Γ.checkReturn fn value span) := by
  cases value with
  | none => exact .anything _ fun _ h => nomatch h
  | some e =>
    have he : Γ.Uses (e.calls ++ []) (Γ.checkReturn fn (some e) span) :=
      (typeOf_uses e).bind fun _ => .anything _ fun _ h => nomatch h
    exact he

private theorem checkCall_uses (callee : Ident) (args : List Expr) (span : Span) :
    Γ.Uses (callee.name :: Expr.callsOfList args) (Γ.checkCall callee args span) :=
  (checkCallee_uses Γ callee).bind fun _ => (typesOf_use args).before

private theorem checkCond_uses (e : Expr) : Γ.Uses e.calls (Γ.checkCond e) := (typeOf_uses e).before

private theorem elementOf_uses : (i : Iterable) → Γ.Uses i.calls (Γ.elementOf i)
  | .range _ _ _ _ => .anything _ fun _ h => nomatch h
  | .expr e => (typeOf_uses e).before

/-! ### Statements -/

/-- Where the check succeeds, the functions are in force that were before, and these names are known. -/
def Learns (Γ : Env) (names : List String) : Checked Env → Prop :=
  Meets (fun Γ' => Γ.functions ⊆ Γ'.functions ∧ Γ'.Knows names) fun _ => True

namespace Learns

variable {x : Checked Env}

private theorem nothing (h : Γ'.functions = Γ.functions) : Γ.Learns [] (.ok Γ') :=
  ⟨fun _ hg => h ▸ hg, fun _ hf => nomatch hf⟩

private theorem bind {f : Env → Checked Env} (hx : Γ.Learns names x)
    (hf : ∀ Γ' : Env, Γ.functions ⊆ Γ'.functions → Γ'.Learns more (f Γ')) : Γ.Learns (names ++ more) (x >>= f) :=
  Meets.bind hx fun Γ' h => (hf Γ' h.1).mono
    (fun _ h' => ⟨fun _ hg => h'.1 (h.1 hg), (h.2.mono h'.1).append h'.2⟩) fun _ he => he

/-- A part that uses names, and then the rest. -/
private theorem after {y : Checked α} {f : α → Checked Env} (hy : Γ.Uses names y) (hf : ∀ a, Γ.Learns more (f a)) :
    Γ.Learns (names ++ more) (y >>= f) :=
  Meets.bind hy fun a h => (hf a).mono (fun _ h' => ⟨h'.1, (h.mono h'.1).append h'.2⟩) fun _ he => he

/-- A part that uses nothing, and then the rest. -/
private theorem pass (y : Checked α) {f : α → Checked Env} (hf : ∀ a, Γ.Learns names (f a)) :
    Γ.Learns names (y >>= f) := by
  cases y with
  | ok a => exact hf a
  | error e => trivial

/-- A part that uses names, and nothing else. -/
private theorem only {y : Checked α} {f : α → Checked Env} (hy : Γ.Uses names y)
    (hf : ∀ a, Meets (fun Γ' => Γ'.functions = Γ.functions) (fun _ => True) (f a)) : Γ.Learns names (y >>= f) :=
  Meets.bind hy fun a h => (hf a).mono (fun _ h' => ⟨fun _ hg => h' ▸ hg, h.mono fun _ hg => h' ▸ hg⟩) fun _ he => he

/-- A block within, which is left again. -/
private theorem block (hΓ : Γ.functions ⊆ Γ'.functions) (hx : Γ'.Learns names x) :
    Γ.Learns names (x >>= fun Γ' => .ok Γ'.leave) :=
  Meets.bind hx fun _ h => ⟨fun _ hg => h.1 (hΓ hg), h.2⟩

end Learns

private theorem checkDecl_learns (d : Decl) (span : Span) (mutable : Bool) :
    Γ.Learns d.value.calls (Γ.checkDecl d span mutable) := by
  refine Learns.only (typeOf_uses d.value) fun ty => .violated (fun _ => trivial) fun _ => ?_
  have hdeclare := declare_functions Γ ⟨d.name.name, ty, mutable, span⟩
  dsimp only
  split
  · exact .violated (fun _ => trivial) fun _ => hdeclare
  · exact hdeclare

private theorem define_learns (Γ : Env) (name : Ident) (signature : Signature) :
    Γ.Learns [] (Γ.define name signature) :=
  .ite (fun _ => ⟨fun _ hg => List.mem_cons_of_mem _ hg, fun _ hf => nomatch hf⟩) fun _ => trivial

mutual

private theorem checkItem_learns : (i : Item) → (Γ : Env) → Γ.Learns i.calls (Γ.checkItem i)
  | .letDecl d span, _ => checkDecl_learns d span false
  | .func name params result body _, Γ => by
    refine (define_learns Γ name _).bind fun Γ hΓ => .pass (parameters [] params) fun names => ?_
    have hbody := checkBlock_learns body (Γ.enter names) ⟨name.name, signatureOf params result, name.span⟩
    exact .block (fun _ hg => hg) hbody

private theorem checkStmt_learns : (s : Stmt) → (Γ : Env) → (fn : Function) → Γ.Learns s.calls (Γ.checkStmt fn s)
  | .item i, Γ, _ => checkItem_learns i Γ
  | .varDecl d span, _, _ => checkDecl_learns d span true
  | .assign target value span, _, _ => .only (checkAssign_uses target value span) fun _ => rfl
  | .print args _, _, _ => .only (checkPrint_uses args) fun _ => rfl
  | .ret value span, _, fn => .only (checkReturn_uses fn value span) fun _ => rfl
  | .call callee args span, _, _ => .only (checkCall_uses callee args span) fun _ => rfl
  | .forLoop x iterable body _, Γ, fn => by
    refine .after (elementOf_uses iterable) fun ty => ?_
    have hbody := checkBlock_learns body (Γ.enter [⟨x.name, ty, false, x.span⟩]) fn
    exact .block (fun _ hg => hg) hbody
  | .whileLoop cond body _, Γ, fn | .ifThen cond body _, Γ, fn => by
    refine .after (checkCond_uses cond) fun _ => ?_
    have hbody := checkBlock_learns body (Γ.enter []) fn
    exact .block (fun _ hg => hg) hbody
  | .ifElse cond body other _, Γ, fn => by
    refine .after (checkCond_uses cond) fun _ => (checkBlock_learns body (Γ.enter []) fn).bind fun Γ' hΓ' => ?_
    have hother := checkBlock_learns other (Γ'.leave.enter []) fn
    exact .block (fun _ hg => hg) hother
  | .switch subject cases _, Γ, fn => by
    refine .after (typeOf_uses subject) fun ty => ?_
    exact checkCases_learn cases ty Γ fn

private theorem checkBlock_learns : (b : Block) → (Γ : Env) → (fn : Function) → Γ.Learns b.calls (Γ.checkBlock fn b)
  | .mk stmts _, Γ, fn => checkStmts_learn stmts Γ fn

private theorem checkStmts_learn : (ss : List Stmt) → (Γ : Env) → (fn : Function) →
    Γ.Learns (callsOfStmts ss) (Γ.checkStmts fn ss)
  | [], _, _ => .nothing rfl
  | s :: ss, Γ, fn => (checkStmt_learns s Γ fn).bind fun Γ _ => checkStmts_learn ss Γ fn

private theorem checkCases_learn : (cs : List Case) → (subject : Ty) → (Γ : Env) → (fn : Function) →
    Γ.Learns (callsOfCases cs) (Γ.checkCases fn subject cs)
  | [], _, _, _ => .nothing rfl
  | .mk comparator body span :: cs, subject, Γ, fn => by
    refine .pass (checkComparator subject comparator span cs.isEmpty) fun _ => ?_
    refine (checkBlock_learns body (Γ.enter []) fn).bind fun Γ' hΓ' => ?_
    exact checkCases_learn cs subject Γ'.leave fn

end

/-! ### Programs -/

private theorem checkItems_learn (is : List Item) (Γ : Env) : Γ.Learns (is.flatMap Item.calls) (Γ.checkItems is) := by
  induction is generalizing Γ with
  | nil => exact .nothing rfl
  | cons i is ih => exact (checkItem_learns i Γ).bind fun Γ _ => ih Γ

private theorem checkItems_append (is js : List Item) (Γ : Env) :
    Γ.checkItems (is ++ js) = Γ.checkItems is >>= fun Γ => Γ.checkItems js := by
  induction is generalizing Γ with
  | nil => rfl
  | cons i is ih =>
    show (Γ.checkItem i >>= fun Γ => Γ.checkItems (is ++ js)) = _
    simp only [ih]
    exact (bind_assoc _ _ _).symm

/-- The functions that an item calls are among those declared up to it. -/
theorem check_known {p : Program} {j : Nat} {i : Item} {f : String} (h : check p = .ok Γ) (hi : p.items[j]? = some i)
    (hf : f ∈ i.calls) (hfree : OpName.Free f) : ∃ g ∈ (p.items.take (j + 1)).flatMap Item.heads, g.name = f := by
  have happend := checkItems_append (p.items.take (j + 1)) (p.items.drop (j + 1)) initial
  rw [List.take_append_drop, show initial.checkItems p.items = _ from h] at happend
  -- the check of the items up to this one
  obtain ⟨Γ', hΓ', -⟩ := Checker.bind_eq_ok.1 happend.symm
  have hlearn := (checkItems_learn (p.items.take (j + 1)) initial).of_eq_ok hΓ'
  have hknown : Γ'.known = _ := (checkItems_account (p.items.take (j + 1)) initial).of_eq_ok hΓ'
  have hmem : i ∈ p.items.take (j + 1) :=
    List.mem_of_getElem? ((List.getElem?_take_of_lt (Nat.lt_succ_self j)).trans hi)
  obtain ⟨g, hg, hname⟩ := hlearn.2.exists_function (List.mem_flatMap.2 ⟨i, hmem, hf⟩) hfree
  have hg : g ∈ Γ'.known := List.mem_reverse.2 hg
  rw [hknown] at hg
  exact ⟨g, hg, hname⟩

end Env

end Scriptlet
