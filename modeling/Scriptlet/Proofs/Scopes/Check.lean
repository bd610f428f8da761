import Scriptlet.Proofs.Frame.Append
import Scriptlet.Proofs.Scopes.Chain

/-!
# The scopes of a program while it is checked

A check builds the representation step by step, and stops at the first violated rule.  `Opens P openings x` says of a
check that from a representation with the property `P` it takes only steps that fit, and that the scopes it opens begin
with `openings`, as far as it gets.  There is one rule for each way to put checks together.  The properties that are
needed last (`Lasting`): a scope that is there remains there, and so does what it began with.

What the scopes of a program begin with can be read off its text (`Program.openings`).  After any number of steps,
then, the scopes are in order, names are found in them, and what was found keeps its meaning (`typecheck_scopes`).
-/

namespace Scriptlet

open Typing Checker
open Ir (Step)

/-! ### What a program opens -/

/-- The type of the loop variable. -/
def Iterable.variableType : Iterable → Ty
  | range .. => .int
  | expr _ => .string

mutual

/-- What the scopes in an item begin with, in the order of the text.  A parameter that has the name of an earlier one
does not become a binding, and neither do those after it. -/
def Item.openings : Item → List (List (String × Var))
  | .letDecl _ _ => []
  | .func _ params _ body _ => (splitParams [] params).1.map paramBinding :: body.openings

/-- What the scopes in a statement begin with. -/
def Stmt.openings : Stmt → List (List (String × Var))
  | .item i => i.openings
  | .varDecl _ _ | .assign _ _ _ | .print _ _ | .ret _ _ | .call _ _ _ => []
  | .forLoop var iterable body _ =>
    [(var.name, .mk .arg iterable.variableType var.span false)] :: body.openings
  | .whileLoop _ body _ | .ifThen _ body _ => [] :: body.openings
  | .ifElse _ thenBlock elseBlock _ => ([] :: thenBlock.openings) ++ [] :: elseBlock.openings
  | .switch _ cases _ => Case.openingsList cases

/-- What the scopes in a block begin with. -/
def Block.openings : Block → List (List (String × Var))
  | .mk stmts _ => Stmt.openingsList stmts

/-- What the scopes in some statements begin with. -/
def Stmt.openingsList : List Stmt → List (List (String × Var))
  | [] => []
  | stmt :: stmts => stmt.openings ++ Stmt.openingsList stmts

/-- What the scopes of some cases, and those in them, begin with. -/
def Case.openingsList : List Case → List (List (String × Var))
  | [] => []
  | .mk _ body _ :: cases => ([] :: body.openings) ++ Case.openingsList cases

end

/-- What the scopes of a program begin with, all but the root. -/
def Program.openings (p : Program) : List (List (String × Var)) := p.items.flatMap Item.openings

/-! ### Steps that fit -/

variable {α β : Type} {P Q : Ir → Prop} {openings openings' : List (List (String × Var))} {x : Checker α}
  {f : α → Checker β} {s t u : Typing.State} {steps steps' : List Step}

/-- From the first state, the steps lead to the second, and each of them fits. -/
structure Typing.State.Takes (s : Typing.State) (steps : List Step) (t : Typing.State) : Prop where
  ir : t.ir = s.ir.applyAll steps
  history : t.history = steps.reverse ++ s.history
  fits : s.ir.FitsAll steps

namespace Typing.State.Takes

private theorem nil (s : Typing.State) : s.Takes [] s := ⟨rfl, rfl, trivial⟩

private theorem single {step : Step} (h : s.ir.Fits step) : s.Takes [step] (s.perform step) := ⟨rfl, rfl, h, trivial⟩

private theorem append (h : s.Takes steps t) (h' : t.Takes steps' u) : s.Takes (steps ++ steps') u where
  ir := by
    rw [h'.ir, h.ir]
    exact List.foldl_append.symm
  history := by rw [h'.history, h.history, List.reverse_append, List.append_assoc]
  fits := Ir.fitsAll_append.2 ⟨h.fits, h.ir ▸ h'.fits⟩

private theorem grows (h : s.Takes steps t) : s.ir.Grows t.ir := by
  rw [h.ir]
  exact Ir.grows_applyAll s.ir h.fits.valued

end Typing.State.Takes

/-- A property that a representation keeps when it grows. -/
def Lasting (P : Ir → Prop) : Prop := ∀ ir ir' : Ir, ir.Grows ir' → P ir → P ir'

private theorem lasting_lt (scope : Nat) : Lasting fun ir => scope < ir.scopes.size :=
  fun _ _ hg hlt => Nat.lt_of_lt_of_le hlt hg.size

/-- The scope lies in another and began with some bindings. -/
structure Ir.BeganIn (ir : Ir) (inner outer : Nat) (born : List (String × Var)) : Prop where
  lt : inner < ir.scopes.size
  parent : (ir.scope inner).parent = some outer
  born : (ir.scope inner).born = born

private theorem lasting_beganIn (inner outer : Nat) (born : List (String × Var)) :
    Lasting fun ir => ir.BeganIn inner outer born := by
  intro ir ir' hg h
  have hextends := hg.scope inner h.lt
  exact ⟨lasting_lt inner ir ir' hg h.lt, hextends.parent.trans h.parent, hextends.born.trans h.born⟩

private theorem Lasting.and (hP : Lasting P) (hQ : Lasting Q) : Lasting fun ir => P ir ∧ Q ir :=
  fun ir ir' hg h => ⟨hP ir ir' hg h.1, hQ ir ir' hg h.2⟩

/-- From a representation with the property, the check takes steps that fit; the scopes that it opens begin with
`openings`, all of them if it succeeds and the first of them in any case. -/
def Opens (P : Ir → Prop) (openings : List (List (String × Var))) (x : Checker α) : Prop :=
  ∀ s : Typing.State, P s.ir → ∃ steps : List Step, s.Takes steps (endOf x s) ∧
    steps.filterMap Step.begins? <+: openings ∧ ∀ r, after x s = .ok r → steps.filterMap Step.begins? = openings

namespace Opens

/-- A check that takes no step. -/
private theorem of_endOf_eq (h : ∀ s, endOf x s = s) : Opens P [] x := by
  intro s _
  refine ⟨[], ?_, List.nil_prefix, fun _ _ => rfl⟩
  rw [h s]
  exact .nil s

private theorem pure (a : α) : Opens P [] (Pure.pure a : Checker α) := .of_endOf_eq fun _ => rfl

/-- A check that fails at once opens no scope, of those that would have been opened. -/
private theorem throw (e : Located TypeError) : Opens P openings (throw e : Checker α) := by
  intro s _
  refine ⟨[], .nil s, List.nil_prefix, fun r hr => ?_⟩
  cases hr

private theorem getIr : Opens P [] getIr := .of_endOf_eq fun _ => rfl

private theorem lift (c : Checked α) : Opens P [] (Checker.lift c) := by
  cases c with
  | ok a => exact .pure a
  | error e => exact .throw e

private theorem mono (h : Opens P openings x) (hQ : ∀ ir, Q ir → P ir) : Opens Q openings x :=
  fun s hs => h s (hQ s.ir hs)

private theorem perform {step : Step} (h : ∀ ir, P ir → ir.Fits step) (hb : step.begins? = none) :
    Opens P [] (Checker.perform step) := by
  intro s hs
  have hnone : [step].filterMap Step.begins? = [] := by simp [hb]
  refine ⟨[step], .single (h s.ir hs), ?_, fun _ _ => hnone⟩
  exact hnone ▸ List.prefix_rfl

private theorem bind_of (hP : Lasting P) (hx : Opens P openings x)
    (hf : ∀ s r, after x s = .ok r → Opens P openings' (f r.1)) : Opens P (openings ++ openings') (x >>= f) := by
  intro s hs
  obtain ⟨steps, htakes, hbegins, hall⟩ := hx s hs
  cases h : after x s with
  | error e =>
    rw [endOf_bind_of_error h]
    refine ⟨steps, htakes, hbegins.trans (List.prefix_append _ _), fun r hr => ?_⟩
    rw [after_bind, h] at hr
    cases hr
  | ok r =>
    rw [endOf_of_ok h] at htakes
    obtain ⟨steps', htakes', hbegins', hall'⟩ := hf s r h r.2 (hP s.ir r.2.ir htakes.grows hs)
    have hfirst : steps.filterMap Step.begins? = openings := hall r h
    refine ⟨steps ++ steps', ?_, ?_, fun r' hr' => ?_⟩
    · rw [endOf_bind_of_ok h]
      exact htakes.append htakes'
    · rw [List.filterMap_append, hfirst]
      exact (List.prefix_append_right_inj openings).2 hbegins'
    · rw [after_bind, h] at hr'
      rw [List.filterMap_append, hfirst, hall' r' hr']

private theorem bind (hP : Lasting P) (hx : Opens P openings x) (hf : ∀ a, Opens P openings' (f a)) :
    Opens P (openings ++ openings') (x >>= f) := hx.bind_of hP fun _ r _ => hf r.1

/-- A check after which no more scopes are opened. -/
private theorem bind_nil (hP : Lasting P) (hx : Opens P openings x) (hf : ∀ a, Opens P [] (f a)) :
    Opens P openings (x >>= f) := openings.append_nil ▸ hx.bind hP hf

/-- What follows a value that has been found may rely on it. -/
private theorem lift_bind (hP : Lasting P) {c : Checked α} (hf : ∀ a, c = .ok a → Opens P openings (f a)) :
    Opens P openings (Checker.lift c >>= f) := by
  refine (Opens.lift c).bind_of hP fun s r h => ?_
  rw [after_lift] at h
  cases c with
  | ok a =>
    cases h
    exact hf a rfl
  | error e => cases h

private theorem getIr_bind (hP : Lasting P) {f : Ir → Checker β} (hf : ∀ ir, Opens P openings (f ir)) :
    Opens P openings (Checker.getIr >>= f) := Opens.getIr.bind hP hf

private theorem ite {c : Prop} [Decidable c] {x y : Checker α} (hx : Opens P openings x) (hy : Opens P openings y) :
    Opens P openings (if c then x else y) := by
  by_cases hc : c
  · rw [if_pos hc]
    exact hx
  · rw [if_neg hc]
    exact hy

/-- What follows the opening of a scope may rely on how the scope has begun. -/
private theorem openScope {kind : ScopeKind} {outer : Nat} {func : Option String} {born : List (String × Var)}
    {f : ScopeId → Checker β} (houter : ∀ ir, P ir → outer < ir.scopes.size)
    (hborn : ∀ b ∈ born, b.2.value.isArg = true) (hP : Lasting P)
    (hf : ∀ inner : Nat, Opens (fun ir => P ir ∧ ir.BeganIn inner outer born) openings (f inner)) :
    Opens P (born :: openings) (Checker.openScope kind outer func born >>= f) := by
  intro s hs
  have hafter := after_openScope kind outer func born s
  have htakes : s.Takes [.openScope s.ir.scopes.size kind outer func born] _ :=
    .single ⟨rfl, houter s.ir hs, hborn⟩
  have hself := Ir.scope_openScope_self s.ir outer func born
  have hbegan : (s.ir.openScope outer func born).BeganIn s.ir.scopes.size outer born := by
    refine ⟨by simp, ?_, Ir.born_openScope s.ir outer func hborn⟩
    rw [hself, Scope.parent_bindAll]
    rfl
  obtain ⟨steps, htakes', hbegins, hall⟩ := hf s.ir.scopes.size _ ⟨hP _ _ htakes.grows hs, hbegan⟩
  refine ⟨.openScope s.ir.scopes.size kind outer func born :: steps, ?_, (List.prefix_cons_inj born).2 hbegins,
    fun r hr => ?_⟩
  · rw [endOf_bind_of_ok hafter]
    exact htakes.append htakes'
  · rw [after_bind, hafter] at hr
    exact congrArg (born :: ·) (hall r hr)

end Opens

/-! ### Simple statements -/

variable {scope : Nat}

private theorem checkDecl_opens (hP : Lasting P) (d : Decl) (span : Span) (mutable : Bool) :
    Opens P [] (checkDecl scope d span mutable) := by
  unfold checkDecl
  refine .getIr_bind hP fun ir => .lift_bind hP fun r hv => ?_
  obtain ⟨value, ty⟩ := r
  have hvalue : value.isArg = false := (lower_typed d.value hv).isArg
  exact .ite (.throw _) ((Opens.lift _).bind hP fun _ => .perform (fun _ _ => hvalue) rfl)

private theorem act_opens (hP : Lasting P) (scope : Nat) (op : String) (c : Ir → Checked (List Var)) :
    Opens P [] (do
      let args ← lift (c (← getIr))
      Checker.perform (.act scope op args)) :=
  .getIr_bind hP fun _ => (Opens.lift _).bind hP fun _ => .perform (fun _ _ => trivial) rfl

/-- A scope takes its place in the one around it. -/
private theorem closeScope_opens {inner : Nat} {born : List (String × Var)} (kind : ScopeKind) (guard : Option Value)
    (h : ∀ ir, P ir → ir.BeganIn inner scope born) :
    Opens P [] (Checker.perform (.closeScope inner kind scope (born.map Prod.fst) guard)) := by
  refine .perform (fun ir hir => ?_) rfl
  have hbegan := h ir hir
  exact ⟨hbegan.parent, congrArg (List.map Prod.fst) hbegan.born.symm⟩

/-! ### Functions and blocks -/

private theorem register_opens (hP : Lasting P) (name : Ident) (signature : Signature) :
    Opens P [] (register name signature) := by
  unfold register
  have hget : Opens P [] (get : Checker Typing.State) := .of_endOf_eq fun _ => rfl
  have hregister : Opens P [] (Checker.perform (.register name.name signature)) := .perform (fun _ _ => trivial) rfl
  refine hget.bind hP fun s => hregister.bind hP fun _ => .ite (.throw _) fun t _ => ?_
  -- where the function was declared is no part of the representation
  exact ⟨[], ⟨rfl, rfl, trivial⟩, List.prefix_rfl, fun _ _ => rfl⟩

private theorem isArg_paramBinding (params : List Param) : ∀ b ∈ params.map paramBinding, b.2.value.isArg = true := by
  intro b hb
  obtain ⟨p, -, rfl⟩ := List.mem_map.1 hb
  rfl

/-- What follows the opening of a function's scope may rely on how the scope has begun, and that all parameters are
different. -/
private theorem openFunc_opens (hP : Lasting P) (hscope : ∀ ir, P ir → scope < ir.scopes.size) {name : Ident}
    {params : List Param} {f : ScopeId → Checker β}
    (hf : ∀ inner : Nat, Opens (fun ir => P ir ∧ ir.BeganIn inner scope (params.map paramBinding)) openings (f inner)) :
    Opens P ((splitParams [] params).1.map paramBinding :: openings) (openFunc scope name params >>= f) := by
  rw [openFunc_bind]
  refine .openScope hscope (isArg_paramBinding _) hP fun inner => ?_
  cases hd : (splitParams [] params).2 with
  | none =>
    rw [splitParams_of_distinct hd]
    exact hf inner
  | some p => exact .throw _

private theorem inner_opens {born : List (String × Var)} (hborn : ∀ b ∈ born, b.2.value.isArg = true)
    {kind : ScopeKind} {guard : Option Value} {body : Block}
    (hbody : ∀ inner : Nat, Opens (fun ir => inner < ir.scopes.size) openings (checkBlock inner body)) :
    Opens (fun ir => scope < ir.scopes.size) (born :: openings) (checkInner scope kind born guard body) := by
  unfold checkInner
  refine .openScope (fun _ hlt => hlt) hborn (lasting_lt scope) fun inner => ?_
  refine .bind_nil ((lasting_lt scope).and (lasting_beganIn inner scope born)) ?_ fun _ => ?_
  · exact (hbody inner).mono fun ir hir => hir.2.lt
  · exact closeScope_opens kind guard fun ir hir => hir.2

private theorem variableType_eq {iterable : Iterable} {ir : Ir} {guard : Value} {ty : Ty}
    (h : iterable.lower ir scope = .ok (guard, ty)) : ty = iterable.variableType := by
  cases iterable with
  | range first last step span =>
    obtain ⟨-, h⟩ := when_eq_ok h
    cases h
    rfl
  | expr e =>
    obtain ⟨var, -, h⟩ := bind_eq_ok.1 h
    obtain ⟨-, h⟩ := unless_eq_ok h
    cases h
    rfl

mutual

private theorem checkItem_opens : (i : Item) → (scope : Nat) →
    Opens (fun ir => scope < ir.scopes.size) i.openings (checkItem scope i)
  | .letDecl d span, scope => checkDecl_opens (lasting_lt scope) d span false
  | .func name params result body span, scope => by
    unfold checkItem Item.openings
    have hlt := lasting_lt scope
    refine (register_opens hlt name _).bind hlt fun _ => openFunc_opens hlt (fun _ h => h) fun inner => ?_
    refine .bind_nil (hlt.and (lasting_beganIn inner scope (params.map paramBinding))) ?_ fun _ => ?_
    · exact (checkBlock_opens body inner).mono fun ir hir => hir.2.lt
    · have hnames : params.map (·.name.name) = (params.map paramBinding).map Prod.fst := by
        rw [List.map_map]
        rfl
      rw [hnames]
      exact closeScope_opens .func none fun ir hir => hir.2

private theorem checkStmt_opens : (stmt : Stmt) → (scope : Nat) →
    Opens (fun ir => scope < ir.scopes.size) stmt.openings (checkStmt scope stmt)
  | .item i, scope => by
    unfold checkStmt Stmt.openings
    exact checkItem_opens i scope
  | .varDecl d span, scope => checkDecl_opens (lasting_lt scope) d span true
  | .assign target value span, scope =>
    act_opens (lasting_lt scope) scope OpName.assign fun ir => lowerAssign ir scope target value span
  | .print args span, scope =>
    act_opens (lasting_lt scope) scope OpName.print fun ir => lowerPrintArgs ir scope args
  | .ret value span, scope =>
    act_opens (lasting_lt scope) scope OpName.ret fun ir => lowerReturn ir scope value span
  | .call callee args span, scope =>
    act_opens (lasting_lt scope) scope callee.name fun ir => lowerCall ir scope callee args span
  | .forLoop var iterable body span, scope => by
    rw [checkStmt_forLoop, Stmt.openings]
    have hlt := lasting_lt scope
    refine .getIr_bind hlt fun ir => .lift_bind hlt fun r hr => ?_
    obtain ⟨guard, ty⟩ := r
    rw [← variableType_eq hr]
    exact inner_opens (fun b hb => List.mem_singleton.1 hb ▸ rfl) (checkBlock_opens body)
  | .whileLoop cond body span, scope => by
    rw [checkStmt_whileLoop, Stmt.openings]
    have hlt := lasting_lt scope
    exact .getIr_bind hlt fun ir => .lift_bind hlt fun _ _ => inner_opens (by simp) (checkBlock_opens body)
  | .ifThen cond body span, scope => by
    rw [checkStmt_ifThen, Stmt.openings]
    have hlt := lasting_lt scope
    exact .getIr_bind hlt fun ir => .lift_bind hlt fun _ _ => inner_opens (by simp) (checkBlock_opens body)
  | .ifElse cond thenBlock elseBlock span, scope => by
    rw [checkStmt_ifElse, Stmt.openings]
    have hlt := lasting_lt scope
    refine .getIr_bind hlt fun ir => .lift_bind hlt fun _ _ => ?_
    exact (inner_opens (by simp) (checkBlock_opens thenBlock)).bind hlt fun _ =>
      inner_opens (by simp) (checkBlock_opens elseBlock)
  | .switch subject cases span, scope => by
    rw [checkStmt_switch, Stmt.openings]
    have hlt := lasting_lt scope
    exact .getIr_bind hlt fun ir => .lift_bind hlt fun var _ => checkCases_opens cases var scope

private theorem checkBlock_opens : (block : Block) → (scope : Nat) →
    Opens (fun ir => scope < ir.scopes.size) block.openings (checkBlock scope block)
  | .mk stmts _, scope => checkStmts_opens stmts scope

private theorem checkStmts_opens : (stmts : List Stmt) → (scope : Nat) →
    Opens (fun ir => scope < ir.scopes.size) (Stmt.openingsList stmts) (checkStmts scope stmts)
  | [], _ => .pure ()
  | stmt :: stmts, scope =>
    (checkStmt_opens stmt scope).bind (lasting_lt scope) fun _ => checkStmts_opens stmts scope

private theorem checkCases_opens : (cases : List Case) → (subject : Var) → (scope : Nat) →
    Opens (fun ir => scope < ir.scopes.size) (Case.openingsList cases) (checkCases scope subject cases)
  | [], _, _ => .pure ()
  | .mk comparator body span :: cases, subject, scope => by
    rw [checkCases_cons, Case.openingsList]
    have hlt := lasting_lt scope
    refine .lift_bind hlt fun _ _ => ?_
    exact (inner_opens (by simp) (checkBlock_opens body)).bind hlt fun _ => checkCases_opens cases subject scope

end

private theorem checkItems_opens (items : List Item) (scope : Nat) :
    Opens (fun ir => scope < ir.scopes.size) (items.flatMap Item.openings) (checkItems scope items) := by
  induction items with
  | nil => exact .pure ()
  | cons i items ih => exact (checkItem_opens i scope).bind (lasting_lt scope) fun _ => ih

/-! ### Programs -/

/-- The steps of a check fit, from the first on, and open the scopes of the program; all of them if it succeeds. -/
private theorem history_fits (p : Program) :
    Ir.initial.FitsAll (outcome p).history ∧ (outcome p).history.filterMap Step.begins? <+: p.openings ∧
      ∀ ir, typecheck p = .ok ir → ir = Ir.initial.applyAll (outcome p).history ∧
        (outcome p).history.filterMap Step.begins? = p.openings := by
  obtain ⟨steps, htakes, hbegins, hall⟩ :=
    checkItems_opens p.items ScopeId.root .initial Ir.Orderly.initial.root_lt
  have hsteps : (outcome p).history = steps := by
    have hhistory : (Point.ofProgram p).finish.history = steps.reverse ++ [] := htakes.history
    rw [outcome_history, hhistory, List.append_nil, List.reverse_reverse]
  rw [hsteps]
  refine ⟨htakes.fits, hbegins, fun ir hir => ⟨?_, ?_⟩⟩
  · rw [← ir_of_typecheck hir]
    exact htakes.ir
  · obtain ⟨t, hp, -⟩ := typecheck_eq_ok.1 hir
    exact hall ((), t) hp

/-- What is true of the scopes after the first steps of the check of a program.  They are in order; those that have
been opened are the first of the program; searches find what is nearest; and a binding that was found has the same name
and variable after any further steps.  The representation of a program that is accepted is the one after all steps. -/
structure Program.Builds (p : Program) (first : List Step) : Prop where
  orderly : (Ir.initial.applyAll first).Orderly ([] :: first.filterMap Step.begins?)
  opened : first.filterMap Step.begins? <+: p.openings
  searches : ∀ id : Nat, id < (Ir.initial.applyAll first).scopes.size →
    ∃ ids, (Ir.initial.applyAll first).Searches id ids
  kept : ∀ (id : Nat) name b var, (Ir.initial.applyAll first).lookup name id = some (b, var) →
    ∀ later, first <+: later → later <+: (outcome p).history →
      (Ir.initial.applyAll later).binding? b = some (name, var)
  accepted : ∀ ir, typecheck p = .ok ir → ir = Ir.initial.applyAll (outcome p).history ∧
    (outcome p).history.filterMap Step.begins? = p.openings

/-- After any number of its first steps the check of a program has built the scopes in order. -/
theorem typecheck_scopes (p : Program) {first : List Step} (h : first <+: (outcome p).history) : p.Builds first := by
  obtain ⟨hfits, hopened, haccepted⟩ := history_fits p
  have hfirst : Ir.initial.FitsAll first := by
    obtain ⟨rest, hrest⟩ := h
    rw [← hrest] at hfits
    exact (Ir.fitsAll_append.1 hfits).1
  have horderly := Ir.Orderly.initial.applyAll hfirst
  refine ⟨horderly, (h.filterMap Step.begins?).trans hopened, fun id hlt => horderly.searches hlt,
    fun id name b var hl later hlater hall => ?_, haccepted⟩
  -- later steps let the representation grow
  obtain ⟨rest, rfl⟩ := hlater
  have hlater : Ir.initial.FitsAll (first ++ rest) := by
    obtain ⟨others, hothers⟩ := hall
    rw [← hothers] at hfits
    exact (Ir.fitsAll_append.1 hfits).1
  have hgrows := Ir.grows_applyAll (Ir.initial.applyAll first) (Ir.fitsAll_append.1 hlater).2.valued
  have happlyAll : Ir.initial.applyAll (first ++ rest) = (Ir.initial.applyAll first).applyAll rest :=
    List.foldl_append
  rw [happlyAll]
  exact hgrows.binding? (horderly.wellFormed.binding?_of_lookup hl)

/-- `func f(n: Int) { let n = n; for c in "ab" { let n = c; } }` -/
def shadowingLoop : Program :=
  ⟨[.func ⟨"f", ⟨5, 1⟩⟩ [⟨⟨"n", ⟨7, 1⟩⟩, ⟨.int, ⟨10, 3⟩⟩⟩] none
    (.mk [.item (.letDecl ⟨⟨"n", ⟨21, 1⟩⟩, none, .name "n" ⟨25, 1⟩⟩ ⟨17, 10⟩),
      .forLoop ⟨"c", ⟨32, 1⟩⟩ (.expr (.literal (.string "ab") ⟨37, 4⟩))
        (.mk [.item (.letDecl ⟨⟨"n", ⟨48, 1⟩⟩, none, .name "c" ⟨52, 1⟩⟩ ⟨44, 10⟩)] ⟨42, 14⟩) ⟨28, 28⟩] ⟨15, 43⟩)
    ⟨0, 58⟩]⟩

/-- Before the loop is left, its `n` hides the others, and no entry stands for its scope yet. -/
theorem shadowing_scopes : (outcome shadowingLoop).history.take 5 <+: (outcome shadowingLoop).history ∧
    ∃ inner outer : List (String × Var), inner.map Prod.fst = ["c"] ∧ outer.map Prod.fst = ["n"] ∧
      (Ir.initial.applyAll ((outcome shadowingLoop).history.take 5)).Orderly [[], outer, inner] := by
  have hfirst : (outcome shadowingLoop).history.take 5 <+: (outcome shadowingLoop).history := List.take_prefix _ _
  exact ⟨hfirst, _, _, rfl, rfl, (typecheck_scopes shadowingLoop hfirst).orderly⟩

end Scriptlet
