import Scriptlet.Proofs.Environment.Meets
import Scriptlet.Proofs.Spans.Basic

/-!
# Where violated rules point

`check_points`: the first rule that a program violates is violated at some of its tokens, and the declarations that are
named with it stand over earlier tokens.  The check goes through a program from the front to the back, so whatever is
in force before a token has been declared at tokens before it (`Env.Declared`).
-/

namespace Scriptlet

open Spans

/-- The other places in the source that an error names: where a name or a function has been declared. -/
def TypeError.places : TypeError → List Span
  | immutableAssignment _ declaredAt | assignmentMismatch _ _ _ declaredAt => [declaredAt]
  | duplicateFunction _ previous => previous.toList
  | _ => []

/-- The span covers tokens before the token `n`. -/
def Span.Before (ts : List Token) (n : Nat) (s : Span) : Prop := ∃ i j, s.Covers ts i j ∧ j ≤ n

/-- The error covers some tokens, and the other places that it names cover earlier ones. -/
def Points (ts : List Token) (e : Located TypeError) : Prop :=
  ∃ i j, e.span.Covers ts i j ∧ ∀ s ∈ e.value.places, s.Before ts i

/-- All that is in force has been declared at tokens before the token `n`. -/
structure Env.Declared (ts : List Token) (n : Nat) (Γ : Env) : Prop where
  names : ∀ b ∈ Γ.blocks, ∀ l ∈ b, l.declaredAt.Before ts n
  functions : ∀ f ∈ Γ.functions, f.declaredAt.Before ts n

section Points

variable {ts : List Token} {i j k n m : Nat} {s : Span} {Γ : Env}

private theorem Points.plain {e : Located TypeError} (h : e.span.Covers ts i j) (hplaces : e.value.places = []) :
    Points ts e :=
  ⟨i, j, h, by simp [hplaces]⟩

private theorem Span.Before.mono (h : s.Before ts n) (hnm : n ≤ m) : s.Before ts m := by
  obtain ⟨i, j, hs, hj⟩ := h
  exact ⟨i, j, hs, Nat.le_trans hj hnm⟩

private theorem Span.Covers.before (h : s.Covers ts i j) : s.Before ts j := ⟨i, j, h, Nat.le_refl j⟩

namespace Env

namespace Declared

private theorem mono (h : Γ.Declared ts n) (hnm : n ≤ m) : Γ.Declared ts m :=
  ⟨fun b hb l hl => (h.names b hb l hl).mono hnm, fun f hf => (h.functions f hf).mono hnm⟩

private theorem find? {name : String} {l : Local} (h : Γ.Declared ts n) (hl : Γ.find? name = some l) :
    l.declaredAt.Before ts n := by
  obtain ⟨b, hb, hlb⟩ := List.mem_flatten.1 (List.mem_of_find?_eq_some hl)
  exact h.names b hb l hlb

private theorem declare {l : Local} (h : Γ.Declared ts n) (hl : l.declaredAt.Before ts n) :
    (Γ.declare l).Declared ts n := by
  obtain ⟨blocks, functions⟩ := Γ
  cases blocks with
  | nil => exact h
  | cons b bs =>
    refine ⟨List.forall_mem_cons.2 ⟨List.forall_mem_cons.2 ⟨hl, h.names b (List.mem_cons_self ..)⟩, ?_⟩, h.functions⟩
    exact fun b' hb' => h.names b' (List.mem_cons_of_mem b hb')

private theorem enter {names : List Local} (h : Γ.Declared ts n) (hnames : ∀ l ∈ names, l.declaredAt.Before ts n) :
    (Γ.enter names).Declared ts n :=
  ⟨List.forall_mem_cons.2 ⟨hnames, h.names⟩, h.functions⟩

private theorem leave (h : Γ.Declared ts n) : Γ.leave.Declared ts n :=
  ⟨fun b hb => h.names b (List.mem_of_mem_tail hb), h.functions⟩

private theorem function? {name : String} {f : Function} (h : Γ.Declared ts n) (hf : Γ.function? name = some f) :
    f.declaredAt.Before ts n :=
  h.functions f (List.mem_of_find?_eq_some hf)

end Declared

/-- If the check comes to an error, it points at tokens. -/
abbrev Sited {α : Type} (ts : List Token) (P : α → Prop) (x : Checked α) : Prop := Meets P (Points ts) x

/-! ### Expressions -/

private theorem resultOf_sited {op : String} {args : List Ty} (hs : s.Covers ts i j) :
    Sited ts (fun _ => True) (Γ.resultOf op args s) := by
  unfold resultOf
  split
  · trivial
  · exact .error (.plain hs rfl)

private theorem checkCallee_sited {callee : Ident} (h : callee.span.Covers ts i j) :
    Sited ts (fun _ => True) (Γ.checkCallee callee) :=
  .ite (fun _ => .error (.plain h rfl)) fun _ => trivial

mutual

private theorem typeOf_sited (e : Expr) {i j : Nat} (h : e.Spans ts i j) : Sited ts (fun _ => True) (Γ.typeOf e) := by
  match e, h with
  | .literal _ _, _ => trivial
  | .name n s, ⟨hs, hname⟩ =>
    unfold typeOf
    split
    · trivial
    · exact .error (.plain hs rfl)
  | .call f args s, ⟨hs, k, l, hin, hf, hopen, hargs⟩ =>
    refine (checkCallee_sited hf.2).bind fun _ _ => ?_
    exact (typesOf_sited args hargs).bind fun types _ => resultOf_sited hs
  | .unary op e s, ⟨hs, k, l, hin, hop, he⟩ => exact (typeOf_sited e he).bind fun ty _ => resultOf_sited hs
  | .binary op l r s, ⟨hs, k, m, n, hin, hl, hop, hr⟩ =>
    refine (typeOf_sited l hl).bind fun left _ => ?_
    exact (typeOf_sited r hr).bind fun right _ => resultOf_sited hs

private theorem typesOf_sited (es : List Expr) {i j : Nat} (h : Expr.ListSpans ts es i j) :
    Sited ts (fun _ => True) (Γ.typesOf es) := by
  match es, h with
  | [], _ => trivial
  | e :: es, ⟨k, l, he, hsep, hes⟩ =>
    exact (typeOf_sited e he).bind fun ty _ => (typesOf_sited es hes).bind fun types _ => trivial

end

/-! ### Parts of statements -/

private theorem checkDecl_sited {d : Decl} {kw : Keyword} (mutable : Bool) (hΓ : Γ.Declared ts i) (hs : s.Covers ts i j)
    (hd : d.Spans ts kw i j) : Sited ts (Env.Declared ts j) (Γ.checkDecl d s mutable) := by
  obtain ⟨name, type, value⟩ := d
  obtain ⟨-, -, k, l, htype, -, hvalue, -⟩ := hd
  have hdeclare (ty : Ty) : (Γ.declare ⟨name.name, ty, mutable, s⟩).Declared ts j :=
    (hΓ.mono (Nat.le_of_lt hs.lt)).declare hs.before
  refine (typeOf_sited value hvalue).bind fun ty _ => .violated (fun _ => .plain hvalue.covers rfl) fun _ => ?_
  cases type with
  | none => exact hdeclare ty
  | some written => exact .violated (fun _ => .plain htype.2.1.2 rfl) fun _ => hdeclare ty

private theorem checkAssign_sited {target : Ident} {value : Expr} (hΓ : Γ.Declared ts i) (hs : s.Covers ts i j)
    (htarget : target.Spans ts i) (hvalue : value.Spans ts k n) (hik : i ≤ k) :
    Sited ts (fun _ => True) (Γ.checkAssign target value s) := by
  unfold checkAssign
  split
  · exact .error (.plain htarget.2 rfl)
  · next l hl =>
    have hl := hΓ.find? hl
    refine .violated (fun _ => ⟨i, j, hs, List.forall_mem_singleton.2 hl⟩) fun _ =>
      (typeOf_sited value hvalue).bind fun ty _ => .ite (fun _ => .error ?_) fun _ => trivial
    exact ⟨k, n, hvalue.covers, List.forall_mem_singleton.2 (hl.mono hik)⟩

private theorem checkPrint_sited (es : List Expr) (h : Listed ts (Expr.Spans ts) es i j) :
    Sited ts (fun _ => True) (Γ.checkPrint es) := by
  induction es generalizing i with
  | nil => trivial
  | cons e es ih =>
    obtain ⟨k, l, he, hsep, hes⟩ := h
    exact (typeOf_sited e he).bind fun ty _ => .violated (fun _ => .plain he.covers rfl) fun _ => ih hes

private theorem checkCall_sited {callee : Ident} {args : List Expr} (hs : s.Covers ts i j) (hcallee : callee.Spans ts i)
    (hargs : Listed ts (Expr.Spans ts) args k n) : Sited ts (fun _ => True) (Γ.checkCall callee args s) := by
  have hargs := Expr.listSpans_iff.2 hargs
  refine (checkCallee_sited hcallee.2).bind fun _ _ => (typesOf_sited args hargs).bind fun types _ => ?_
  exact (resultOf_sited hs).bind fun ty _ => trivial

private theorem checkCond_sited {e : Expr} (h : e.Spans ts i j) : Sited ts (fun _ => True) (Γ.checkCond e) :=
  (typeOf_sited e h).bind fun _ _ => .ite (fun _ => .error (.plain h.covers rfl)) fun _ => trivial

private theorem elementOf_sited (it : Iterable) (h : it.Spans ts i j) : Sited ts (fun _ => True) (Γ.elementOf it) := by
  match it, h with
  | .range first last step s, ⟨hs, hrange⟩ => exact .ite (fun _ => .error (.plain hs rfl)) fun _ => trivial
  | .expr e, h =>
    have he : e.Spans ts i j := h
    exact (typeOf_sited e he).bind fun ty _ => .violated (fun _ => .plain he.covers rfl) fun _ => trivial

private theorem checkConsts_sited (subject : Ty) (cs : List Const) (h : ∀ c ∈ cs, ∃ i j, c.Spans ts i j) :
    Sited ts (fun _ => True) (checkConsts subject cs) := by
  induction cs with
  | nil => trivial
  | cons c cs ih =>
    obtain ⟨⟨i, j, hc⟩, hcs⟩ := List.forall_mem_cons.1 h
    exact .violated (fun _ => .plain hc.1 rfl) fun _ => ih hcs

private theorem checkComparator_sited (subject : Ty) (isLast : Bool) (hs : s.Covers ts i j) (c : Option Comparator)
    (h : ∀ c' ∈ c, ∃ k l, c'.Spans ts k l) : Sited ts (fun _ => True) (checkComparator subject c s isLast) := by
  cases c with
  | none => exact .ite (fun _ => trivial) fun _ => .error (.plain hs rfl)
  | some c =>
    obtain ⟨k, l, hc⟩ := h c rfl
    match c, hc with
    | .const c, hc => exact checkConsts_sited subject [c] (List.forall_mem_singleton.2 ⟨k, l, hc⟩)
    | .oneOf (c :: cs), ⟨m, hc, hcs⟩ =>
      exact checkConsts_sited subject (c :: cs) (List.forall_mem_cons.2 ⟨⟨k, m, hc⟩, hcs.of_mem⟩)
    | .range lo hi s', ⟨hs', hrange⟩ => exact .ite (fun _ => .error (.plain hs' rfl)) fun _ => trivial

private theorem checkReturn_sited (fn : Function) (hs : s.Covers ts i j) (value : Option Expr)
    (h : ∀ e ∈ value, ∃ k l, e.Spans ts k l) : Sited ts (fun _ => True) (Γ.checkReturn fn value s) := by
  cases value with
  | none => exact .ite (fun _ => .error (.plain hs rfl)) fun _ => trivial
  | some e =>
    obtain ⟨k, l, he⟩ := h e rfl
    exact (typeOf_sited e he).bind fun ty _ => .ite (fun _ => .error (.plain he.covers rfl)) fun _ => trivial

private theorem define_sited {name : Ident} {signature : Signature} (hΓ : Γ.Declared ts i) (hname : name.Spans ts i) :
    Sited ts (Env.Declared ts (i + 1)) (Γ.define name signature) := by
  refine Meets.ite (fun _ => ?_) fun _ => .error ⟨i, i + 1, hname.2, fun s hs => ?_⟩
  · have hΓ := hΓ.mono (Nat.le_succ i)
    exact ⟨hΓ.names, List.forall_mem_cons.2 ⟨hname.2.before, hΓ.functions⟩⟩
  · obtain ⟨f, hf, rfl⟩ := Option.map_eq_some_iff.1 (Option.mem_toList.1 hs)
    exact hΓ.function? hf

private theorem parameters_sited (hts : Consecutive ts) (before : List Local) (ps : List Param)
    (h : Listed ts (Param.Spans ts) ps i j) (hbefore : ∀ l ∈ before, l.declaredAt.Before ts i) :
    Sited ts (fun names => ∀ l ∈ names, l.declaredAt.Before ts j) (parameters before ps) := by
  induction ps generalizing before i with
  | nil => exact fun l hl => (hbefore l hl).mono (h.2 ▸ Nat.le_succ i)
  | cons p ps ih =>
    obtain ⟨k, l, ⟨hname, hcolon, htype, rfl⟩, hsep, hps⟩ := h
    have hle : i + 3 ≤ l := hsep.le
    have hparam : (p.name.span.through p.type.span).Covers ts i (i + 3) := hname.2.through htype.2 hts (by omega)
    refine Meets.ite (fun _ => .error (.plain hname.2 rfl)) fun _ => ih _ hps ?_
    exact List.forall_mem_cons.2 ⟨hparam.before.mono hle, fun l' hl' => (hbefore l' hl').mono (by omega)⟩

/-! ### Statements -/

private theorem Sited.widen {x : Checked Env} (h : Sited ts (Env.Declared ts n) x) (hnm : n ≤ m) :
    Sited ts (Env.Declared ts m) x :=
  h.mono (fun _ hΓ => hΓ.mono hnm) fun _ he => he

/-- A block, which is left again. -/
private theorem Sited.left {x : Checked Env} (h : Sited ts (Env.Declared ts n) x) :
    Sited ts (Env.Declared ts n) (x >>= fun Γ => .ok Γ.leave) :=
  h.bind fun _ hΓ => hΓ.leave

/-- What declares nothing. -/
private theorem Sited.keep {α : Type} {P : α → Prop} {x : Checked α} (h : Sited ts P x) (hΓ : Γ.Declared ts i)
    (hij : i < j) : Sited ts (Env.Declared ts j) (x >>= fun _ => .ok Γ) :=
  h.bind fun _ _ => hΓ.mono (Nat.le_of_lt hij)

/-- A block without names yet. -/
private theorem Declared.enterNil (h : Γ.Declared ts n) (hnm : n ≤ m) : (Γ.enter []).Declared ts m :=
  (h.mono hnm).enter (List.forall_mem_nil _)

mutual

private theorem checkItem_sited (hts : Consecutive ts) (it : Item) {i j : Nat} (h : it.Spans ts i j) (Γ : Env)
    (hΓ : Γ.Declared ts i) : Sited ts (Env.Declared ts j) (Γ.checkItem it) := by
  match it, h with
  | .letDecl d s, ⟨hs, hd⟩ => exact checkDecl_sited false hΓ hs hd
  | .func name params result body s, ⟨hs, hfunc, hname, hopen, k, l, hparams, hresult, hbrace, hbody⟩ =>
    have hik : i + 3 < k := hparams.lt fun p i j hp => hp.le
    have hkl : k ≤ l := hresult.le
    refine (define_sited (hΓ.mono (Nat.le_succ i)) hname).bind fun Γ hΓ => ?_
    refine (parameters_sited hts [] params hparams (List.forall_mem_nil _)).bind fun names hnames => ?_
    have hinner : (Γ.enter names).Declared ts l :=
      (hΓ.mono (by omega)).enter fun l hl => (hnames l hl).mono hkl
    exact (checkBlock_sited hts body hbody _ _ hinner).left

private theorem checkStmt_sited (hts : Consecutive ts) (st : Stmt) {i j : Nat} (h : st.Spans ts i j) (Γ : Env)
    (fn : Function) (hΓ : Γ.Declared ts i) : Sited ts (Env.Declared ts j) (Γ.checkStmt fn st) := by
  match st, h with
  | .item it, h => exact checkItem_sited hts it h Γ hΓ
  | .varDecl d s, ⟨hs, hd⟩ => exact checkDecl_sited true hΓ hs hd
  | .assign target value s, ⟨hs, htarget, hassign, k, hvalue, hend⟩ =>
    exact (checkAssign_sited hΓ hs htarget hvalue (Nat.le_add_right i 2)).keep hΓ hs.lt
  | .print args s, ⟨hs, hprint, hopen, k, hargs, hend⟩ => exact (checkPrint_sited args hargs).keep hΓ hs.lt
  | .ret none s, ⟨hs, hret⟩ => exact (checkReturn_sited fn hs none fun e he => nomatch he).keep hΓ hs.lt
  | .ret (some e) s, ⟨hs, hret, k, he, hend⟩ =>
    have hvalue : ∀ e' ∈ some e, ∃ k l, e'.Spans ts k l := by
      rintro e' ⟨⟩
      exact ⟨i + 1, k, he⟩
    exact (checkReturn_sited fn hs _ hvalue).keep hΓ hs.lt
  | .call callee args s, ⟨hs, hcallee, hopen, k, hargs, hend⟩ =>
    exact (checkCall_sited hs hcallee hargs).keep hΓ hs.lt
  | .forLoop x it body s, ⟨hs, hfor, hx, hin, k, hit, hbrace, hbody⟩ =>
    have hik : i + 3 < k := hit.lt
    refine (elementOf_sited it hit).bind fun ty _ => ?_
    have hnames : ∀ l ∈ [⟨x.name, ty, false, x.span⟩], Span.Before ts k (Local.declaredAt l) :=
      List.forall_mem_singleton.2 (hx.2.before.mono (by omega))
    exact (checkBlock_sited hts body hbody _ fn ((hΓ.mono (by omega)).enter hnames)).left
  | .whileLoop cond body s, ⟨hs, hwhile, k, hcond, hbrace, hbody⟩
  | .ifThen cond body s, ⟨hs, hwhile, k, hcond, hbrace, hbody⟩ =>
    have hik : i + 1 < k := hcond.covers.lt
    refine (checkCond_sited hcond).bind fun _ _ => ?_
    exact (checkBlock_sited hts body hbody _ fn (hΓ.enterNil (by omega))).left
  | .ifElse cond body other s, ⟨hs, hif, k, l, hcond, hbrace, hbody, helse, hother⟩ =>
    have hik : i + 1 < k := hcond.covers.lt
    refine (checkCond_sited hcond).bind fun _ _ => ?_
    refine (checkBlock_sited hts body hbody _ fn (hΓ.enterNil (by omega))).bind fun Γ hΓ => ?_
    exact (checkBlock_sited hts other hother _ fn (hΓ.leave.enterNil (Nat.le_succ l))).left
  | .switch subject cases s, ⟨hs, hswitch, k, l, hsubject, hbrace, hcases, hclose, hend⟩ =>
    have hik : i + 1 < k := hsubject.covers.lt
    refine (typeOf_sited subject hsubject).bind fun ty _ => ?_
    exact (checkCases_sited hts cases hcases ty Γ fn (hΓ.mono (by omega))).widen (by omega)

private theorem checkBlock_sited (hts : Consecutive ts) (b : Block) {i j : Nat} (h : b.Spans ts i j) (Γ : Env)
    (fn : Function) (hΓ : Γ.Declared ts i) : Sited ts (Env.Declared ts j) (Γ.checkBlock fn b) := by
  match b, h with
  | .mk ss s, ⟨hs, k, l, hss, hends⟩ =>
    exact (checkStmts_sited hts ss hss Γ fn (hΓ.mono (by omega))).widen (by omega)

private theorem checkStmts_sited (hts : Consecutive ts) (ss : List Stmt) {i j : Nat} (h : Stmt.ListSpans ts ss i j)
    (Γ : Env) (fn : Function) (hΓ : Γ.Declared ts i) : Sited ts (Env.Declared ts j) (Γ.checkStmts fn ss) := by
  match ss, h with
  | [], h => exact h ▸ hΓ
  | s :: ss, ⟨k, hs, hss⟩ =>
    exact (checkStmt_sited hts s hs Γ fn hΓ).bind fun Γ hΓ => checkStmts_sited hts ss hss Γ fn hΓ

private theorem checkCases_sited (hts : Consecutive ts) (cs : List Case) {i j : Nat} (h : Case.ListSpans ts cs i j)
    (subject : Ty) (Γ : Env) (fn : Function) (hΓ : Γ.Declared ts i) :
    Sited ts (Env.Declared ts j) (Γ.checkCases fn subject cs) := by
  match cs, h with
  | [], h => exact h ▸ hΓ
  | .mk none body s :: cs, ⟨k, ⟨hs, hdefault, hbrace, hbody⟩, hcs⟩ =>
    refine (checkComparator_sited subject _ hs none fun c hc => nomatch hc).bind fun _ _ => ?_
    refine (checkBlock_sited hts body hbody _ fn (hΓ.enterNil (Nat.le_succ i))).bind fun Γ hΓ => ?_
    exact checkCases_sited hts cs hcs subject _ fn hΓ.leave
  | .mk (some c) body s :: cs, ⟨k, ⟨hs, hcase, l, hc, hbrace, hbody⟩, hcs⟩ =>
    have hil : i + 1 < l := hc.lt
    have hcomparator : ∀ c' ∈ some c, ∃ k l, c'.Spans ts k l := by
      rintro c' ⟨⟩
      exact ⟨i + 1, l, hc⟩
    refine (checkComparator_sited subject _ hs _ hcomparator).bind fun _ _ => ?_
    refine (checkBlock_sited hts body hbody _ fn (hΓ.enterNil (by omega))).bind fun Γ hΓ => ?_
    exact checkCases_sited hts cs hcs subject _ fn hΓ.leave

end

private theorem checkItems_sited (hts : Consecutive ts) (is : List Item) (h : Item.ListSpans ts is i j)
    (hΓ : Γ.Declared ts i) : Sited ts (Env.Declared ts j) (Γ.checkItems is) := by
  induction is generalizing Γ i with
  | nil => exact h ▸ hΓ
  | cons it is ih =>
    obtain ⟨k, hit, his⟩ := h
    exact (checkItem_sited hts it hit Γ hΓ).bind fun Γ hΓ => ih his hΓ

/-- The first rule that a program violates is violated at some of its tokens. -/
theorem check_points {p : Program} {e : Located TypeError} (hts : Consecutive ts) (h : p.Spans ts)
    (he : check p = .error e) : Points ts e := by
  have hinitial : initial.Declared ts 0 :=
    ⟨List.forall_mem_singleton.2 (List.forall_mem_nil _), List.forall_mem_nil _⟩
  exact (checkItems_sited hts p.items h hinitial).of_eq_error he

end Env

end Points

end Scriptlet
