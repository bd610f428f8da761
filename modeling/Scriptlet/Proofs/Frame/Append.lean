import Scriptlet.Proofs.Frame.Points

/-!
# What has been built is never changed later

When a part of a program has been checked, what is left of the checks around it writes to their scopes, which are older
than the part, and to scopes that are new; the scopes that the part has created are neither (`Point.Reaches.rest`).  So
they stay as they are from then on, whether the program is accepted or not, and the scopes around the part grow at
their ends only (`typecheck_append`).
-/

namespace Scriptlet

open Typing Checker
open Ir (Step)

namespace Point

variable {s t u : Typing.State} {scope : Nat} {c c' : Point}

/-! ### What is left to do -/

/-- The state in which the check of the part ends, also if it fails. -/
def finish (c : Point) : Typing.State := endOf c.check c.state

private theorem EndsIn.finish_eq (h : c.EndsIn t) : c.finish = t := endOf_of_ok h

private theorem EndsIn.leads (h : c.EndsIn t) :
    c.state.Leads (Step.AddsTo fun id => id = c.scope ∨ c.state.ir.scopes.size ≤ id) t :=
  h.finish_eq ▸ c.part.check_confined c.scope c.state

private theorem EndsIn.size_le (h : c.EndsIn t) : c.state.ir.scopes.size ≤ t.ir.scopes.size := h.leads.grows.size

/-- The second point lies in the check from the first: no scope is gone, and what is left to do when the part there
has been checked adds to the scope of the first, and to new scopes. -/
structure Resumes (c c' : Point) : Prop where
  size : c.state.ir.scopes.size ≤ c'.state.ir.scopes.size
  scope : c'.scope < c'.state.ir.scopes.size
  rest : c'.finish.Leads (Step.AddsTo fun id => id = c.scope ∨ c'.finish.ir.scopes.size ≤ id) c.finish

/-- The check of a part, and then one that is confined to the scope. -/
private theorem leads_of_seq {x : Checker Unit} {k : Unit → Checker Unit} (hk : Confined (· = scope) (k ())) :
    (endOf x s).Leads (Step.AddsTo fun id => id = scope ∨ (endOf x s).ir.scopes.size ≤ id) (endOf (x >>= k) s) := by
  cases h : after x s with
  | ok r =>
    rw [endOf_bind_of_ok h, endOf_of_ok h]
    exact hk r.2
  | error e =>
    rw [endOf_bind_of_error h]
    exact .refl _ _

/-- A statement for which a value is found first goes on with it, from the same state. -/
private theorem finish_of_lowered {α : Type} {x : Stmt} {l : Ir → Checked α} {a : α} {f : α → Checker Unit}
    (hx : checkStmt scope x = getIr >>= fun ir => lift (l ir) >>= f) (h : l s.ir = .ok a) :
    finish ⟨scope, .stmt x, s⟩ = endOf (f a) s := by
  have hlift : after (lift (l s.ir)) s = .ok (a, s) := by
    rw [after_lift, h]
    rfl
  calc finish ⟨scope, .stmt x, s⟩ = endOf (getIr >>= fun ir => lift (l ir) >>= f) s := congrArg (endOf · s) hx
    _ = endOf (lift (l s.ir) >>= f) s := endOf_bind_of_ok (after_getIr s) _
    _ = endOf (f a) s := endOf_bind_of_ok hlift f

/-- The part is the last that the check comes to. -/
private theorem resumes_of_finish_eq (hsize : c.state.ir.scopes.size ≤ c'.state.ir.scopes.size)
    (hscope : c'.scope < c'.state.ir.scopes.size) (h : c.finish = c'.finish) : c.Resumes c' where
  size := hsize
  scope := hscope
  rest := h ▸ .refl _ _

/-- After the part, there is another check in the scope. -/
private theorem resumes_of_finish_bind {k : Unit → Checker Unit}
    (hsize : c.state.ir.scopes.size ≤ c'.state.ir.scopes.size) (hscope : c'.scope < c'.state.ir.scopes.size)
    (h : c.finish = endOf (c'.check >>= k) c'.state) (hk : Confined (· = c.scope) (k ())) : c.Resumes c' where
  size := hsize
  scope := hscope
  rest := h ▸ leads_of_seq hk

/-- The part is all that a statement comes to, once a value has been found. -/
private theorem resumes_of_lowered {α : Type} {x : Stmt} {part : Part} {l : Ir → Checked α} {a : α}
    {f : α → Checker Unit} (hx : checkStmt scope x = getIr >>= fun ir => lift (l ir) >>= f) (h : l s.ir = .ok a)
    (hpart : f a = part.check scope) (hlt : scope < s.ir.scopes.size) :
    Resumes ⟨scope, .stmt x, s⟩ ⟨scope, part, s⟩ := by
  refine resumes_of_finish_eq (Nat.le_refl _) hlt ?_
  rw [finish_of_lowered hx h, hpart]
  rfl

/-- A scope that has just been opened is the last one. -/
private theorem lt_of_opened (s : Typing.State) (kind : ScopeKind) (scope : ScopeId) (func : Option String)
    (born : List (String × Var)) :
    s.ir.scopes.size < (s.perform (.openScope s.ir.scopes.size kind scope func born)).ir.scopes.size :=
  Nat.lt_of_lt_of_eq (Nat.lt_succ_self _) (Ir.size_openScope s.ir scope func born).symm

private theorem opened_of_func {name : Ident} {params : List Param} {signature : Signature} {inner : ScopeId}
    (hr : after (register name signature) s = .ok ((), t))
    (ho : after (openFunc scope name params) t = .ok (inner, u)) :
    inner = s.ir.scopes.size ∧ s.ir.scopes.size < u.ir.scopes.size := by
  obtain ⟨-, ht⟩ := register_eq_ok hr
  cases openFunc_eq_ok ho
  cases ht
  exact ⟨rfl, lt_of_opened (registered s name signature) .func scope (some name.name) (params.map paramBinding)⟩

/-- After a case, the others are left to check. -/
private theorem finish_case {subject : Var} {comparator : Option Comparator} {body : Block} {span : Span}
    {cases : List Case} {guard : Option Value} (h : lowerCase subject comparator span cases.isEmpty = .ok guard) :
    finish ⟨scope, .cases subject (.mk comparator body span :: cases), s⟩ =
      endOf (checkInner scope .caseBranch [] guard body >>= fun _ => checkCases scope subject cases) s := by
  have hlift : after (lift (lowerCase subject comparator span cases.isEmpty)) s = .ok (guard, s) := by
    rw [after_lift, h]
    rfl
  exact (congrArg (endOf · s) (checkCases_cons scope subject comparator body span cases)).trans
    (endOf_bind_of_ok hlift _)

/-- After the statements of a function, its scope is left to take its place. -/
private theorem finish_func {name : Ident} {params : List Param} {result : Option TypeName} (body : Block)
    (span : Span) {inner : ScopeId}
    (hr : after (register name ⟨params.map (·.type.ty), (result.map TypeName.ty).getD .void⟩) s = .ok ((), t))
    (ho : after (openFunc scope name params) t = .ok (inner, u)) :
    finish ⟨scope, .item (.func name params result body span), s⟩ =
      endOf (checkStmts inner body.stmts >>= fun _ =>
        perform (.closeScope inner .func scope (params.map (·.name.name)) none)) u := by
  rw [← checkBlock_eq]
  exact (endOf_bind_of_ok hr _).trans (endOf_bind_of_ok ho _)

/-- After the statements of a block, its scope is left to take its place. -/
private theorem finish_inner (scope : ScopeId) (kind : ScopeKind) (born : List (String × Var)) (guard : Option Value)
    (body : Block) (s : Typing.State) : finish ⟨scope, .inner kind born guard body, s⟩ =
      endOf (checkStmts s.ir.scopes.size body.stmts >>= fun _ =>
        perform (.closeScope s.ir.scopes.size kind scope (born.map Prod.fst) guard))
        (s.perform (.openScope s.ir.scopes.size kind scope none born)) := by
  rw [← checkBlock_eq]
  exact endOf_bind_of_ok (after_openScope kind scope none born s) _

private theorem Comes.resumes (h : c.Comes c') (hlt : c.scope < c.state.ir.scopes.size) : c.Resumes c' := by
  cases h with
  | item => exact resumes_of_finish_bind (Nat.le_refl _) hlt rfl (checkItems_confined _ _)
  | items h => exact resumes_of_finish_eq h.size_le (Nat.lt_of_lt_of_le hlt h.size_le) (endOf_bind_of_ok h _)
  | @func scope inner s t u name params result body span hr ho =>
    have hfinish := finish_func body span hr ho
    obtain ⟨rfl, hlt⟩ := opened_of_func hr ho
    exact resumes_of_finish_bind (Nat.le_of_lt hlt) hlt hfinish (closeScope_confined _ _ _ _ _)
  | stmt => exact resumes_of_finish_bind (Nat.le_refl _) hlt rfl (checkStmts_confined _ _)
  | stmts h => exact resumes_of_finish_eq h.size_le (Nat.lt_of_lt_of_le hlt h.size_le) (endOf_bind_of_ok h _)
  | itemStmt => exact resumes_of_finish_eq (Nat.le_refl _) hlt rfl
  | forLoop h => exact resumes_of_lowered (checkStmt_forLoop _ _ _ _ _) h rfl hlt
  | whileLoop h => exact resumes_of_lowered (checkStmt_whileLoop _ _ _ _) h rfl hlt
  | ifThen h => exact resumes_of_lowered (checkStmt_ifThen _ _ _ _) h rfl hlt
  | @thenBlock scope s cond body other span guard h =>
    have hfinish := finish_of_lowered (checkStmt_ifElse scope cond body other span) h
    exact resumes_of_finish_bind (Nat.le_refl _) hlt hfinish (checkInner_confined _ _ _ _ _)
  | @elseBlock scope s t cond body other span guard h hthen =>
    have hfinish := finish_of_lowered (checkStmt_ifElse scope cond body other span) h
    refine resumes_of_finish_eq hthen.size_le (Nat.lt_of_lt_of_le hlt hthen.size_le) ?_
    exact hfinish.trans (endOf_bind_of_ok hthen _)
  | switch h => exact resumes_of_lowered (checkStmt_switch _ _ _ _) h rfl hlt
  | case h => exact resumes_of_finish_bind (Nat.le_refl _) hlt (finish_case h) (checkCases_confined _ _ _)
  | cases h hcase =>
    refine resumes_of_finish_eq hcase.size_le (Nat.lt_of_lt_of_le hlt hcase.size_le) ?_
    exact (finish_case h).trans (endOf_bind_of_ok hcase _)
  | @block scope s kind born guard body =>
    have hlt := lt_of_opened s kind scope none born
    have hfinish := finish_inner scope kind born guard body s
    exact resumes_of_finish_bind (Nat.le_of_lt hlt) hlt hfinish (closeScope_confined _ _ _ _ _)

/-- Where the check of a part comes to another part, at any depth, what is left to do when that one has been checked
adds to scopes that are older, and to new ones. -/
theorem Reaches.rest (h : c.Reaches c') (hlt : c.scope < c.state.ir.scopes.size) :
    c'.scope < c'.state.ir.scopes.size ∧
      c'.finish.Leads (Step.AddsTo fun id => id < c'.state.ir.scopes.size ∨ c'.finish.ir.scopes.size ≤ id)
        c.finish := by
  induction h with
  | refl => exact ⟨hlt, .refl _ _⟩
  | @tail b c' _ hstep ih =>
    obtain ⟨hb, hrest⟩ := ih
    have hresumes := hstep.resumes hb
    have hsize : c'.finish.ir.scopes.size ≤ b.finish.ir.scopes.size := hresumes.rest.grows.size
    refine ⟨hresumes.scope, State.Leads.trans (hresumes.rest.mono ?_) (hrest.mono ?_)⟩
    · -- the scope around the part is older than the part
      refine fun step hs => hs.mono fun id hid => hid.imp_left fun heq => ?_
      exact heq ▸ Nat.lt_of_lt_of_le hb hresumes.size
    · intro step hs
      refine hs.mono fun id hid => ?_
      rcases hid with hid | hid
      · exact Or.inl (Nat.lt_of_lt_of_le hid hresumes.size)
      · exact Or.inr (Nat.le_trans hsize hid)

end Point

/-! ### Programs -/

private theorem checkItems_append (scope : ScopeId) (is js : List Item) (s : Typing.State) :
    after (checkItems scope (is ++ js)) s =
      after (checkItems scope is) s >>= fun r => after (checkItems scope js) r.2 := by
  induction is generalizing s with
  | nil => simp [checkItems]
  | cons i is ih => simp only [List.cons_append, checkItems, after_bind, ih, bind_assoc]

private theorem typecheck_of_append_error {p : Program} {e : Located TypeError} (h : typecheck p = .error e)
    (q : Program) : typecheck ⟨p.items ++ q.items⟩ = .error e := by
  have hp := typecheck_eq_error.1 h
  refine typecheck_eq_error.2 ?_
  rw [checkItems_append, hp]
  rfl

private theorem typecheck_of_append_ok {p q : Program} {ir : Ir} (h : typecheck ⟨p.items ++ q.items⟩ = .ok ir) :
    ∃ ir₀, typecheck p = .ok ir₀ ∧ ir₀.ExtendsAt ScopeId.root ir := by
  obtain ⟨u, hu, rfl⟩ := typecheck_eq_ok.1 h
  rw [checkItems_append] at hu
  obtain ⟨⟨_, t⟩, hp, hq⟩ := bind_eq_ok.1 hu
  refine ⟨t.ir, typecheck_eq_ok.2 ⟨t, hp, rfl⟩, ?_⟩
  have hfirst := checkItems_confined p.items ScopeId.root .initial
  have hlater := checkItems_confined q.items ScopeId.root t
  rw [endOf_of_ok hp] at hfirst
  rw [endOf_of_ok hq] at hlater
  exact hlater.extendsAt (Nat.lt_of_lt_of_le Nat.zero_lt_one hfirst.grows.size)

/-- The history of a check is that of its last state, from the first step on. -/
theorem outcome_history (p : Program) : (outcome p).history = (Point.ofProgram p).finish.history.reverse := by
  show _ = (endOf (checkItems .root p.items) .initial).history.reverse
  unfold outcome endOf
  cases checkItems .root p.items .initial <;> rfl

/-- The representation of a program that is accepted is that of the last state. -/
theorem ir_of_typecheck {p : Program} {ir : Ir} (h : typecheck p = .ok ir) : (Point.ofProgram p).finish.ir = ir := by
  obtain ⟨t, hp, rfl⟩ := typecheck_eq_ok.1 h
  exact congrArg State.ir (endOf_of_ok hp)

/-- A program that is not accepted is not accepted with other items after it either, for the same reason.  If it is
accepted with them, it is accepted without, and only the outermost scope has changed, which has grown.

Inside blocks it is the same.  Every statement of a program that is accepted is checked in its turn.  The check of a
part that succeeds changes, of the scopes that are there, only the one that it is in.  The scopes that it creates are
never touched again by the steps that follow, up to the end of the check of the program, also if this fails, and the
scopes around it only grow. -/
theorem typecheck_append (p q : Program) :
    (∀ e, typecheck p = .error e → typecheck ⟨p.items ++ q.items⟩ = .error e) ∧
      (∀ ir, typecheck ⟨p.items ++ q.items⟩ = .ok ir → ∃ ir₀, typecheck p = .ok ir₀ ∧ ir₀.ExtendsAt ScopeId.root ir) ∧
      (∀ ir, typecheck p = .ok ir → ∀ x ∈ p.items.flatMap Item.inside, (Point.ofProgram p).Checks x) ∧
      ∀ c t, (Point.ofProgram p).Reaches c → c.EndsIn t → c.state.ir.ExtendsAt c.scope t.ir ∧
        ∃ steps, (outcome p).history = t.history.reverse ++ steps ∧
          (∀ ir, typecheck p = .ok ir → ir = t.ir.applyAll steps) ∧
          t.ir.Untouched c.state.ir.scopes.size steps := by
  refine ⟨fun e h => typecheck_of_append_error h q, fun ir h => typecheck_of_append_ok h,
    fun ir h => Point.checks_of_typecheck h, fun c t hc ht => ?_⟩
  obtain ⟨hlt, steps, hsteps, hir, hhistory⟩ := hc.rest Nat.zero_lt_one
  rw [ht.finish_eq] at hsteps hir hhistory
  refine ⟨ht.leads.extendsAt hlt, steps, ?_, fun ir h => ?_, Ir.untouched_of_spares hsteps⟩
  · rw [outcome_history, hhistory, List.reverse_append, List.reverse_reverse]
  · rw [← ir_of_typecheck h, hir]

/-- `if true { var x = 1; }` -/
def branch : Stmt :=
  .ifThen (.literal (.bool true) ⟨14, 4⟩)
    (.mk [.varDecl ⟨⟨"x", ⟨25, 1⟩⟩, none, .literal (.int 1) ⟨29, 1⟩⟩ ⟨21, 10⟩] ⟨19, 14⟩) ⟨11, 22⟩

/-- `func f() { if true { var x = 1; } var y = 2; }` -/
def branching : Program :=
  ⟨[.func ⟨"f", ⟨5, 1⟩⟩ [] none
    (.mk [branch, .varDecl ⟨⟨"y", ⟨38, 1⟩⟩, none, .literal (.int 2) ⟨42, 1⟩⟩ ⟨34, 10⟩] ⟨9, 37⟩) ⟨0, 46⟩]⟩

/-- `let z = 3;`, on the next line -/
def another : Program := ⟨[.letDecl ⟨⟨"z", ⟨51, 1⟩⟩, none, .literal (.int 3) ⟨55, 1⟩⟩ ⟨47, 10⟩]⟩

/-- The branch creates the third scope; two steps follow, a declaration and the end of the function. -/
theorem branching_frame :
    (∃ ir₀ ir, typecheck branching = .ok ir₀ ∧ typecheck ⟨branching.items ++ another.items⟩ = .ok ir ∧
      ir₀.ExtendsAt ScopeId.root ir) ∧
    ∃ c t steps, (Point.ofProgram branching).Reaches c ∧ c.part = .stmt branch ∧ c.EndsIn t ∧
      c.state.ir.scopes.size = 2 ∧ t.ir.scopes.size = 3 ∧ steps.length = 2 ∧ t.ir.Untouched 2 steps := by
  obtain ⟨-, hok, -, hinside⟩ := typecheck_append branching another
  refine ⟨?_, ?_⟩
  · obtain ⟨ir₀, h, hextends⟩ := hok _ rfl
    exact ⟨ir₀, _, h, rfl, hextends⟩
  · have hreaches : (Point.ofProgram branching).Reaches ⟨1, .stmt branch, _⟩ :=
      .tail (.tail (.tail .refl .item) (.func rfl rfl)) .stmt
    obtain ⟨-, steps, hsteps, -, huntouched⟩ := hinside _ _ hreaches rfl
    have hlength : steps.length = 2 := by
      have h := congrArg List.length hsteps
      rw [List.length_append] at h
      exact Nat.add_left_cancel h.symm
    exact ⟨_, _, steps, hreaches, rfl, rfl, rfl, rfl, hlength, huntouched⟩

end Scriptlet
