import Mathlib.Logic.Relation
import Scriptlet.Proofs.Frame.Confined

/-!
# The points of a check

A check of a program comes to checks of its parts, each in a scope and from a state (`Point`, `Point.Comes`).  No
statement is passed over: in the check of a program that is accepted each of them gets its turn, at whatever depth it
stands (`checks_of_typecheck`).
-/

namespace Scriptlet

open Typing Checker

/-! ### The parts of a program -/

/-- A part of a program: items, statements, a block in a scope of its own, or the cases of a `switch`. -/
inductive Part where
  | items (items : List Item)
  | item (i : Item)
  | stmts (stmts : List Stmt)
  | stmt (stmt : Stmt)
  | inner (kind : ScopeKind) (born : List (String × Var)) (guard : Option Value) (body : Block)
  | cases (subject : Var) (cases : List Case)

/-- The check of a part in a scope. -/
def Part.check (scope : ScopeId) : Part → Checker Unit
  | .items is => checkItems scope is
  | .item i => checkItem scope i
  | .stmts ss => checkStmts scope ss
  | .stmt x => checkStmt scope x
  | .inner kind born guard body => checkInner scope kind born guard body
  | .cases subject cs => checkCases scope subject cs

/-- The check of a part of a program adds entries to its scope and to new ones only. -/
theorem Part.check_confined (part : Part) (scope : Nat) : Confined (· = scope) (part.check scope) := by
  cases part with
  | items is => exact checkItems_confined is scope
  | item i => exact checkItem_confined i scope
  | stmts ss => exact checkStmts_confined ss scope
  | stmt x => exact checkStmt_confined x scope
  | inner kind born guard body => exact checkInner_confined scope kind born guard body
  | cases subject cs => exact checkCases_confined cs subject scope

/-- A point of a check: a part that is about to be checked, its scope, and the state. -/
structure Point where
  scope : ScopeId
  part : Part
  state : Typing.State

namespace Point

/-- The point at which the check of a program begins. -/
def ofProgram (p : Program) : Point := ⟨.root, .items p.items, .initial⟩

/-- The check of the part. -/
def check (c : Point) : Checker Unit := c.part.check c.scope

/-- The check of the part succeeds, in that state. -/
def EndsIn (c : Point) (t : Typing.State) : Prop := after c.check c.state = .ok ((), t)

/-- The check of a part comes to the check of a part of it. -/
inductive Comes : Point → Point → Prop where
  | item {scope : ScopeId} {s : Typing.State} {i : Item} {is : List Item} :
    Comes ⟨scope, .items (i :: is), s⟩ ⟨scope, .item i, s⟩
  /-- When the first item has been checked, the others are. -/
  | items {scope : ScopeId} {s t : Typing.State} {i : Item} {is : List Item} (h : EndsIn ⟨scope, .item i, s⟩ t) :
    Comes ⟨scope, .items (i :: is), s⟩ ⟨scope, .items is, t⟩
  /-- The body of a function is checked in its scope, once the function is known and its scope open. -/
  | func {scope inner : ScopeId} {s t u : Typing.State} {name : Ident} {params : List Param} {result : Option TypeName}
    {body : Block} {span : Span}
    (hr : after (register name ⟨params.map (·.type.ty), (result.map TypeName.ty).getD .void⟩) s = .ok ((), t))
    (ho : after (openFunc scope name params) t = .ok (inner, u)) :
    Comes ⟨scope, .item (.func name params result body span), s⟩ ⟨inner, .stmts body.stmts, u⟩
  | stmt {scope : ScopeId} {s : Typing.State} {x : Stmt} {xs : List Stmt} :
    Comes ⟨scope, .stmts (x :: xs), s⟩ ⟨scope, .stmt x, s⟩
  /-- When the first statement has been checked, the others are. -/
  | stmts {scope : ScopeId} {s t : Typing.State} {x : Stmt} {xs : List Stmt} (h : EndsIn ⟨scope, .stmt x, s⟩ t) :
    Comes ⟨scope, .stmts (x :: xs), s⟩ ⟨scope, .stmts xs, t⟩
  | itemStmt {scope : ScopeId} {s : Typing.State} {i : Item} : Comes ⟨scope, .stmt (.item i), s⟩ ⟨scope, .item i, s⟩
  | forLoop {scope : ScopeId} {s : Typing.State} {var : Ident} {iterable : Iterable} {body : Block} {span : Span}
    {guard : Value} {ty : Ty} (h : iterable.lower s.ir scope = .ok (guard, ty)) :
    Comes ⟨scope, .stmt (.forLoop var iterable body span), s⟩
      ⟨scope, .inner .loop [(var.name, .mk .arg ty var.span false)] (some guard) body, s⟩
  | whileLoop {scope : ScopeId} {s : Typing.State} {cond : Expr} {body : Block} {span : Span} {guard : Value}
    (h : cond.lowerCond s.ir scope = .ok guard) :
    Comes ⟨scope, .stmt (.whileLoop cond body span), s⟩ ⟨scope, .inner .loop [] (some guard) body, s⟩
  | ifThen {scope : ScopeId} {s : Typing.State} {cond : Expr} {body : Block} {span : Span} {guard : Value}
    (h : cond.lowerCond s.ir scope = .ok guard) :
    Comes ⟨scope, .stmt (.ifThen cond body span), s⟩ ⟨scope, .inner .ifBranch [] (some guard) body, s⟩
  | thenBlock {scope : ScopeId} {s : Typing.State} {cond : Expr} {body other : Block} {span : Span} {guard : Value}
    (h : cond.lowerCond s.ir scope = .ok guard) :
    Comes ⟨scope, .stmt (.ifElse cond body other span), s⟩ ⟨scope, .inner .ifBranch [] (some guard) body, s⟩
  /-- The `else` block is checked after the other one. -/
  | elseBlock {scope : ScopeId} {s t : Typing.State} {cond : Expr} {body other : Block} {span : Span} {guard : Value}
    (h : cond.lowerCond s.ir scope = .ok guard)
    (hthen : EndsIn ⟨scope, .inner .ifBranch [] (some guard) body, s⟩ t) :
    Comes ⟨scope, .stmt (.ifElse cond body other span), s⟩ ⟨scope, .inner .elseBranch [] none other, t⟩
  | switch {scope : ScopeId} {s : Typing.State} {subject : Expr} {cases : List Case} {span : Span} {var : Var}
    (h : subject.lowerVar s.ir scope = .ok var) :
    Comes ⟨scope, .stmt (.switch subject cases span), s⟩ ⟨scope, .cases var cases, s⟩
  | case {scope : ScopeId} {s : Typing.State} {subject : Var} {comparator : Option Comparator} {body : Block}
    {span : Span} {cases : List Case} {guard : Option Value}
    (h : lowerCase subject comparator span cases.isEmpty = .ok guard) :
    Comes ⟨scope, .cases subject (.mk comparator body span :: cases), s⟩ ⟨scope, .inner .caseBranch [] guard body, s⟩
  /-- When the first case has been checked, the others are, with the same subject. -/
  | cases {scope : ScopeId} {s t : Typing.State} {subject : Var} {comparator : Option Comparator} {body : Block}
    {span : Span} {cases : List Case} {guard : Option Value}
    (h : lowerCase subject comparator span cases.isEmpty = .ok guard)
    (hcase : EndsIn ⟨scope, .inner .caseBranch [] guard body, s⟩ t) :
    Comes ⟨scope, .cases subject (.mk comparator body span :: cases), s⟩ ⟨scope, .cases subject cases, t⟩
  /-- The statements of a block are checked in a scope that has just been opened. -/
  | block {scope : ScopeId} {s : Typing.State} {kind : ScopeKind} {born : List (String × Var)} {guard : Option Value}
    {body : Block} : Comes ⟨scope, .inner kind born guard body, s⟩
      ⟨s.ir.scopes.size, .stmts body.stmts, s.perform (.openScope s.ir.scopes.size kind scope none born)⟩

/-- The check of a part comes to the check of another, inside it at any depth. -/
def Reaches : Point → Point → Prop := Relation.ReflTransGen Comes

variable {s t u : Typing.State} {scope : Nat} {c c' : Point} {x : Stmt}

/-- The check of a part comes to the check of the statement, which succeeds. -/
def Checks (c : Point) (x : Stmt) : Prop := ∃ scope s t, c.Reaches ⟨scope, .stmt x, s⟩ ∧ EndsIn ⟨scope, .stmt x, s⟩ t

private theorem Checks.of_comes (h : c.Comes c') (hx : c'.Checks x) : c.Checks x := by
  obtain ⟨scope, s, t, hreaches, hends⟩ := hx
  exact ⟨scope, s, t, .head h hreaches, hends⟩

private theorem EndsIn.checks (h : EndsIn ⟨scope, .stmt x, s⟩ t) : Checks ⟨scope, .stmt x, s⟩ x :=
  ⟨scope, s, t, .refl, h⟩

end Point

/-! ### Every statement is checked -/

mutual

/-- The statements in an item, at any depth. -/
def Item.inside : Item → List Stmt
  | .letDecl _ _ => []
  | .func _ _ _ body _ => body.inside

/-- The statement and those in it, at any depth. -/
def Stmt.inside : Stmt → List Stmt
  | .item i => .item i :: i.inside
  | .forLoop var iterable body span => .forLoop var iterable body span :: body.inside
  | .whileLoop cond body span => .whileLoop cond body span :: body.inside
  | .ifThen cond body span => .ifThen cond body span :: body.inside
  | .ifElse cond body other span => .ifElse cond body other span :: (body.inside ++ other.inside)
  | .switch subject cases span => .switch subject cases span :: insideCases cases
  | .varDecl d span => [.varDecl d span]
  | .assign target value span => [.assign target value span]
  | .print args span => [.print args span]
  | .ret value span => [.ret value span]
  | .call callee args span => [.call callee args span]

/-- The statements in a block, at any depth. -/
def Block.inside : Block → List Stmt
  | .mk stmts _ => insideStmts stmts

/-- The statements and those in them, at any depth. -/
def insideStmts : List Stmt → List Stmt
  | [] => []
  | x :: xs => x.inside ++ insideStmts xs

/-- The statements in cases, at any depth. -/
def insideCases : List Case → List Stmt
  | [] => []
  | .mk _ body _ :: cases => body.inside ++ insideCases cases

end

namespace Point

/-- A statement for which a value is found first goes on with it, if it succeeds. -/
private theorem EndsIn.lowered {α : Type} {scope : Nat} {s t : Typing.State} {x : Stmt} {l : Ir → Checked α}
    {f : α → Checker Unit} (h : EndsIn ⟨scope, .stmt x, s⟩ t)
    (hx : checkStmt scope x = getIr >>= fun ir => lift (l ir) >>= f) :
    ∃ a, l s.ir = .ok a ∧ after (f a) s = .ok ((), t) := by
  have h : after (checkStmt scope x) s = .ok ((), t) := h
  rw [hx] at h
  exact found_eq_ok.1 h

private theorem EndsIn.inner {scope : Nat} {s t : Typing.State} {kind : ScopeKind} {born : List (String × Var)}
    {guard : Option Value} {body : Block} (h : EndsIn ⟨scope, .inner kind born guard body, s⟩ t)
    (hbody : ∀ ⦃scope : Nat⦄ ⦃s t : Typing.State⦄, EndsIn ⟨scope, .stmts body.stmts, s⟩ t →
      ∀ x ∈ body.inside, Checks ⟨scope, .stmts body.stmts, s⟩ x) :
    ∀ x ∈ body.inside, Checks ⟨scope, .inner kind born guard body, s⟩ x := by
  intro x hx
  obtain ⟨u, hstmts, -⟩ := checkInner_eq_ok h
  rw [checkBlock_eq] at hstmts
  exact .of_comes .block (hbody hstmts x hx)

mutual

private theorem checks_item : (i : Item) → ∀ ⦃scope : Nat⦄ ⦃s t : Typing.State⦄, EndsIn ⟨scope, .item i, s⟩ t →
    ∀ x ∈ i.inside, Checks ⟨scope, .item i, s⟩ x
  | .letDecl d span => fun _ _ _ _ _ hx => nomatch hx
  | .func name params result body span => by
    intro scope s t h x hx
    have h : after (checkItem scope (.func name params result body span)) s = .ok ((), t) := h
    unfold checkItem at h
    obtain ⟨_, u, hr, h⟩ := after_bind_eq_ok.1 h
    obtain ⟨inner, v, ho, h⟩ := after_bind_eq_ok.1 h
    obtain ⟨_, w, hstmts, -⟩ := after_bind_eq_ok.1 h
    rw [checkBlock_eq] at hstmts
    exact .of_comes (.func hr ho) (checks_block body hstmts x hx)

private theorem checks_stmt : (y : Stmt) → ∀ ⦃scope : Nat⦄ ⦃s t : Typing.State⦄, EndsIn ⟨scope, .stmt y, s⟩ t →
    ∀ x ∈ y.inside, Checks ⟨scope, .stmt y, s⟩ x
  | .varDecl d span | .assign target value span | .print args span | .ret value span | .call callee args span => by
    intro scope s t h x hx
    cases List.mem_singleton.1 hx
    exact h.checks
  | .item i => fun _ _ _ h => List.forall_mem_cons.2 ⟨h.checks, fun x hx => .of_comes .itemStmt (checks_item i h x hx)⟩
  | .forLoop var iterable body span => by
    intro scope s t h
    obtain ⟨⟨guard, ty⟩, hguard, hinner⟩ := h.lowered (checkStmt_forLoop _ _ _ _ _)
    have hbody := EndsIn.inner hinner (checks_block body)
    exact List.forall_mem_cons.2 ⟨h.checks, fun x hx => .of_comes (.forLoop hguard) (hbody x hx)⟩
  | .whileLoop cond body span => by
    intro scope s t h
    obtain ⟨guard, hguard, hinner⟩ := h.lowered (checkStmt_whileLoop _ _ _ _)
    have hbody := EndsIn.inner hinner (checks_block body)
    exact List.forall_mem_cons.2 ⟨h.checks, fun x hx => .of_comes (.whileLoop hguard) (hbody x hx)⟩
  | .ifThen cond body span => by
    intro scope s t h
    obtain ⟨guard, hguard, hinner⟩ := h.lowered (checkStmt_ifThen _ _ _ _)
    have hbody := EndsIn.inner hinner (checks_block body)
    exact List.forall_mem_cons.2 ⟨h.checks, fun x hx => .of_comes (.ifThen hguard) (hbody x hx)⟩
  | .ifElse cond body other span => by
    intro scope s t h
    obtain ⟨guard, hguard, hboth⟩ := h.lowered (checkStmt_ifElse _ _ _ _ _)
    obtain ⟨_, u, hthen, helse⟩ := after_bind_eq_ok.1 hboth
    have hbody := EndsIn.inner hthen (checks_block body)
    have hother := EndsIn.inner helse (checks_block other)
    refine List.forall_mem_cons.2 ⟨h.checks, fun x hx => ?_⟩
    rcases List.mem_append.1 hx with hx | hx
    · exact .of_comes (.thenBlock hguard) (hbody x hx)
    · exact .of_comes (.elseBlock hguard hthen) (hother x hx)
  | .switch subject cases span => by
    intro scope s t h
    obtain ⟨var, hvar, hcases⟩ := h.lowered (checkStmt_switch _ _ _ _)
    exact List.forall_mem_cons.2 ⟨h.checks, fun x hx => .of_comes (.switch hvar) (checks_cases cases hcases x hx)⟩

private theorem checks_block : (body : Block) → ∀ ⦃scope : Nat⦄ ⦃s t : Typing.State⦄,
    EndsIn ⟨scope, .stmts body.stmts, s⟩ t → ∀ x ∈ body.inside, Checks ⟨scope, .stmts body.stmts, s⟩ x
  | .mk stmts _ => checks_stmts stmts

private theorem checks_stmts : (ys : List Stmt) → ∀ ⦃scope : Nat⦄ ⦃s t : Typing.State⦄, EndsIn ⟨scope, .stmts ys, s⟩ t →
    ∀ x ∈ insideStmts ys, Checks ⟨scope, .stmts ys, s⟩ x
  | [] => fun _ _ _ _ _ hx => nomatch hx
  | y :: ys => by
    intro scope s t h x hx
    have h : after (checkStmts scope (y :: ys)) s = .ok ((), t) := h
    obtain ⟨_, u, hfirst, hrest⟩ := after_bind_eq_ok.1 h
    rcases List.mem_append.1 hx with hx | hx
    · exact .of_comes .stmt (checks_stmt y hfirst x hx)
    · exact .of_comes (.stmts hfirst) (checks_stmts ys hrest x hx)

private theorem checks_cases : (cases : List Case) → ∀ ⦃subject : Var⦄ ⦃scope : Nat⦄ ⦃s t : Typing.State⦄,
    EndsIn ⟨scope, .cases subject cases, s⟩ t → ∀ x ∈ insideCases cases, Checks ⟨scope, .cases subject cases, s⟩ x
  | [] => fun _ _ _ _ _ _ hx => nomatch hx
  | .mk comparator body span :: cases => by
    intro subject scope s t h x hx
    obtain ⟨guard, u, hguard, hcase, hrest⟩ := checkCases_eq_ok h
    rcases List.mem_append.1 hx with hx | hx
    · exact .of_comes (.case hguard) (EndsIn.inner hcase (checks_block body) x hx)
    · exact .of_comes (.cases hguard hcase) (checks_cases cases hrest x hx)

end

private theorem checks_items {items : List Item} {scope : Nat} {s t : Typing.State}
    (h : EndsIn ⟨scope, .items items, s⟩ t) : ∀ x ∈ items.flatMap Item.inside, Checks ⟨scope, .items items, s⟩ x := by
  intro x hx
  induction items generalizing s with
  | nil => cases hx
  | cons i items ih =>
    have h : after (checkItems scope (i :: items)) s = .ok ((), t) := h
    obtain ⟨_, u, hfirst, hrest⟩ := after_bind_eq_ok.1 h
    rw [List.flatMap_cons] at hx
    rcases List.mem_append.1 hx with hx | hx
    · exact .of_comes .item (checks_item i hfirst x hx)
    · exact .of_comes (.items hfirst) (ih hrest hx)

/-- In the check of a program that is accepted, every statement gets its turn. -/
theorem checks_of_typecheck {p : Program} {ir : Ir} (h : typecheck p = .ok ir) :
    ∀ x ∈ p.items.flatMap Item.inside, (ofProgram p).Checks x := by
  obtain ⟨t, hp, -⟩ := typecheck_eq_ok.1 h
  exact checks_items hp

end Point

end Scriptlet
