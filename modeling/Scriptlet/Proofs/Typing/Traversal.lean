import Scriptlet.Proofs.Typing.Lowering
import Scriptlet.Proofs.Typing.Moves
import Scriptlet.Proofs.Typing.Statements

/-!
# A check is a sequence of moves

A check of a statement that succeeds takes the representation through moves back to the same open scopes, and leaves
the scopes outside the one it is in as they are (`Traverses`).  For the subject of a `switch`, which is lowered once
for all cases, the latter is what is needed: the blocks before a case declare nothing around it, so that the names of
the subject still mean the same.

`typecheck_path` is the result for programs.
-/

namespace Scriptlet

/-! ### The functions of a program -/

mutual

/-- The names of the functions in an item, at any depth. -/
def Item.functionNames : Item → List String
  | .letDecl _ _ => []
  | .func name _ _ body _ => name.name :: body.functionNames

/-- The names of the functions in a statement. -/
def Stmt.functionNames : Stmt → List String
  | .item i => i.functionNames
  | .forLoop _ _ body _ | .whileLoop _ body _ | .ifThen _ body _ => body.functionNames
  | .ifElse _ thenBlock elseBlock _ => thenBlock.functionNames ++ elseBlock.functionNames
  | .switch _ cases _ => functionNamesOfCases cases
  | .varDecl _ _ | .assign _ _ _ | .print _ _ | .ret _ _ | .call _ _ _ => []

/-- The names of the functions in a block. -/
def Block.functionNames : Block → List String
  | .mk stmts _ => functionNamesOfStmts stmts

/-- The names of the functions in statements. -/
def functionNamesOfStmts : List Stmt → List String
  | [] => []
  | s :: ss => s.functionNames ++ functionNamesOfStmts ss

/-- The names of the functions in cases. -/
def functionNamesOfCases : List Case → List String
  | [] => []
  | .mk _ body _ :: cs => body.functionNames ++ functionNamesOfCases cs

end

/-- The names of the functions of a program, those inside functions included. -/
def Program.functionNames (p : Program) : List String := p.items.flatMap Item.functionNames

/-! ### Scopes that declare nothing -/

namespace Ir

variable {ir ir' : Ir} {scope : Nat} {v : Value} {ty : Ty}

/-- The scopes of the first have the same names in the second. -/
def SameNames (ir ir' : Ir) : Prop := ∀ id : Nat, id < ir.scopes.size →
  (ir'.scope id).bindings = (ir.scope id).bindings ∧ (ir'.scope id).visible = (ir.scope id).visible ∧
    (ir'.scope id).parent = (ir.scope id).parent

private theorem SameNames.lookup_eq (h : ir.SameNames ir') (hn : ir.Nested) (hn' : ir'.Nested) (name : String)
    {id : Nat} (hlt : id < ir.scopes.size) : ir'.lookup name id = ir.lookup name id := by
  induction id using Nat.strongRecOn with
  | ind id ih =>
    obtain ⟨hbindings, hvisible, hparent⟩ := h id hlt
    cases hv : (ir.scope id).visible.lookup name with
    | some i =>
      have hb : ir'.binding? ⟨id, i⟩ = ir.binding? ⟨id, i⟩ := by
        rw [binding?_eq, binding?_eq]
        exact congrArg (fun bindings : Array (String × Var) => bindings[i]?) hbindings
      rw [lookup_of_visible hv, lookup_of_visible (hvisible ▸ hv), hb]
    | none =>
      cases hp : (ir.scope id).parent with
      | none => rw [lookup_of_root hv hp, lookup_of_root (hvisible ▸ hv) (hparent.trans hp)]
      | some parent =>
        have hlt' : parent < id := hn id parent hp
        rw [lookup_of_parent hn hv hp, lookup_of_parent hn' (hvisible ▸ hv) (hparent.trans hp)]
        exact ih parent hlt' (Nat.lt_trans hlt' hlt)

private theorem SameNames.hasTypeAt (h : ir.SameNames ir') (hw : ir.WellFormed) (hw' : ir'.WellFormed)
    (hg : ir.Grows ir') (hlt : scope < ir.scopes.size) (ht : ir.HasTypeAt scope v ty) : ir'.HasTypeAt scope v ty := by
  refine Value.Typed.mono ht hg.ops fun name b ty hu => ?_
  obtain ⟨var, hl, hty⟩ := hu
  exact ⟨var, (h.lookup_eq hw.nested hw'.nested name hlt).trans hl, hty⟩

end Ir

/-! ### Checks of parts -/

/-- The moves of a check that starts and ends with the same open scopes; only the innermost of them, and new scopes,
are changed. -/
structure Traverses (P : String → Prop) (frames : List Frame) (ir ir' : Ir) : Prop where
  path : Path P ⟨ir, frames⟩ ⟨ir', frames⟩
  others : ∀ id : Nat, id < ir.scopes.size → id ≠ current frames → ir'.scope id = ir.scope id

namespace Traverses

variable {P : String → Prop} {frames : List Frame} {ir ir' ir'' : Ir}

private theorem refl (P : String → Prop) (frames : List Frame) (ir : Ir) : Traverses P frames ir ir :=
  ⟨Relation.ReflTransGen.refl, fun _ _ _ => rfl⟩

private theorem trans (h : Traverses P frames ir ir') (h' : Traverses P frames ir' ir'') :
    Traverses P frames ir ir'' where
  path := Relation.ReflTransGen.trans h.path h'.path
  others id hlt hne := (h'.others id (Nat.lt_of_lt_of_le hlt h.path.grows.size) hne).trans (h.others id hlt hne)

private theorem coherent (h : Traverses P frames ir ir') (hc : Building.Coherent ⟨ir, frames⟩) :
    Building.Coherent ⟨ir', frames⟩ := h.path.coherent hc

private theorem single {f : Scope → Scope} (hm : Move P ⟨ir, frames⟩ ⟨ir.modifyScope (current frames) f, frames⟩) :
    Traverses P frames ir (ir.modifyScope (current frames) f) where
  path := Relation.ReflTransGen.single hm
  others _ _ hne := Ir.scope_modifyScope_of_ne hne f

/-- Inside a scope that has just begun, those outside stay as they were. -/
private theorem scope_of_inner {g : Frame} (hg : ir.Grows ir') (hid : g.id = ir.scopes.size)
    (hsame : ∀ id : Nat, id < ir.scopes.size → ir'.scope id = ir.scope id) (h : Traverses P (g :: frames) ir' ir'')
    {id : Nat} (hlt : id < ir.scopes.size) : ir''.scope id = ir.scope id := by
  have hne : id ≠ g.id := hid ▸ Nat.ne_of_lt hlt
  exact (h.others id (Nat.lt_of_lt_of_le hlt hg.size) hne).trans (hsame id hlt)

/-- A scope that begins, the check of what is in it, and its end. -/
private theorem enclose {g : Frame} (hm : Move P ⟨ir, frames⟩ ⟨ir', g :: frames⟩) (hid : g.id = ir.scopes.size)
    (hsame : ∀ id : Nat, id < ir.scopes.size → ir'.scope id = ir.scope id) (h : Traverses P (g :: frames) ir' ir'') :
    Traverses P frames ir (ir''.apply (.closeScope g.id g.kind (current frames) (g.born.map Prod.fst) g.guard)) where
  path := ((Relation.ReflTransGen.single hm).trans h.path).tail .close
  others _ hlt hne := (Ir.scope_modifyScope_of_ne hne _).trans (scope_of_inner hm.grows hid hsame h hlt)

variable {f : Frame} {kind : ScopeKind} {born : List (String × Var)} {guard : Option Value}

private theorem scope_openScope_of_lt {func : Option String} (id : Nat) (hlt : id < ir.scopes.size) :
    (ir.apply (.openScope ir.scopes.size kind f.id func born)).scope id = ir.scope id :=
  Ir.scope_openScope_of_ne (Nat.ne_of_lt hlt) _ _ _

private theorem block (hg : Guard (ir.HasTypeAt f.id) kind born guard)
    (h : Traverses P (⟨ir.scopes.size, kind, born, guard⟩ :: f :: frames)
      (ir.apply (.openScope ir.scopes.size kind f.id none born)) ir') :
    Traverses P (f :: frames) ir (ir'.apply (.closeScope ir.scopes.size kind f.id (born.map Prod.fst) guard)) :=
  enclose (.block hg) rfl scope_openScope_of_lt h

/-- A block declares nothing around it. -/
private theorem sameNames_block (h : Traverses P (⟨ir.scopes.size, kind, born, guard⟩ :: f :: frames)
      (ir.apply (.openScope ir.scopes.size kind f.id none born)) ir') :
    ir.SameNames (ir'.apply (.closeScope ir.scopes.size kind f.id (born.map Prod.fst) guard)) := by
  intro id hlt
  have hg : ir.Grows (ir.apply (.openScope ir.scopes.size kind f.id none born)) := Ir.grows_openScope _ _ _ _
  have hscope : ir'.scope id = ir.scope id := scope_of_inner hg rfl scope_openScope_of_lt h hlt
  have hlt' : id < ir'.scopes.size := Nat.lt_of_lt_of_le hlt (hg.trans h.path.grows).size
  by_cases hid : id = f.id
  · subst hid
    have hpush : (ir'.apply (.closeScope ir.scopes.size kind f.id (born.map Prod.fst) guard)).scope f.id =
        (ir'.scope f.id).push (.scoped kind (born.map Prod.fst) guard ir.scopes.size) :=
      Ir.scope_modifyScope_self hlt' _
    rw [hpush, hscope]
    exact ⟨rfl, rfl, rfl⟩
  · have hpush : (ir'.apply (.closeScope ir.scopes.size kind f.id (born.map Prod.fst) guard)).scope id =
        ir'.scope id := Ir.scope_modifyScope_of_ne hid _
    rw [hpush, hscope]
    exact ⟨rfl, rfl, rfl⟩

end Traverses

open Typing Checker

variable {P : String → Prop} {frames : List Frame} {f : Frame} {s : Typing.State} {r : Unit × Typing.State}

/-! ### Simple statements -/

private theorem checkDecl_traverses (frames : List Frame) {d : Decl} {span : Span} {mutable : Bool}
    (h : after (checkDecl (current frames) d span mutable) s = .ok r) : Traverses P frames s.ir r.2.ir := by
  obtain ⟨value, ty, hv, hvoid, rfl⟩ := checkDecl_eq_ok h
  exact .single (.declare (lower_typed _ hv) hvoid)

private theorem act_traverses {c : Ir → Checked (List Var)} {op : String}
    (hc : ∀ args, c s.ir = .ok args → s.ir.Action (s.ir.HasTypeAt (current frames)) (current frames) op args)
    (h : after (getIr >>= fun ir => lift (c ir) >>= fun args => Checker.perform (.act (current frames) op args)) s =
      .ok r) : Traverses P frames s.ir r.2.ir := by
  obtain ⟨args, hargs, rfl⟩ := act_eq_ok h
  exact .single (.act (hc args hargs))

/-! ### Functions -/

private theorem func_move {ir : Ir} {name : String} (hfree : ir.ops.contains name = false) (hname : P name)
    (frames : List Frame) (params : List Param) (result : Ty) :
    Move P ⟨ir, frames⟩
      ⟨(ir.apply (.register name ⟨params.map (·.type.ty), result⟩)).apply
        (.openScope ir.scopes.size .func (current frames) (some name) (params.map paramBinding)),
        ⟨ir.scopes.size, .func, params.map paramBinding, none⟩ :: frames⟩ :=
  .func hfree hname (by simp [paramBinding, Var.value, Value.isArg]) (by simp [paramBinding, Var.ty])

/-! ### Statements -/

/-- The check of a block in a scope of its own, from what is known of checks of that block.  It declares nothing in the
scopes that were there. -/
private theorem inner_traverses {body : Block} {kind : ScopeKind} {born : List (String × Var)} {guard : Option Value}
    (hbody : ∀ ⦃g : Frame⦄ ⦃frames : List Frame⦄ ⦃s : Typing.State⦄ ⦃r : Unit × Typing.State⦄,
      Building.Coherent ⟨s.ir, g :: frames⟩ → after (checkBlock g.id body) s = .ok r →
        Traverses P (g :: frames) s.ir r.2.ir)
    (hc : Building.Coherent ⟨s.ir, f :: frames⟩) (hg : Guard (s.ir.HasTypeAt f.id) kind born guard)
    (h : after (checkInner f.id kind born guard body) s = .ok r) :
    Traverses P (f :: frames) s.ir r.2.ir ∧ s.ir.SameNames r.2.ir := by
  obtain ⟨t, hstmts, rfl⟩ := checkInner_eq_ok h
  have hinner : Traverses P (⟨s.ir.scopes.size, kind, born, guard⟩ :: f :: frames)
      (s.ir.apply (.openScope s.ir.scopes.size kind f.id none born)) t.ir :=
    hbody (g := ⟨s.ir.scopes.size, kind, born, guard⟩) (s := s.perform _) ((Move.block (P := P) hg).coherent hc) hstmts
  exact ⟨.block hg hinner, hinner.sameNames_block⟩

mutual

private theorem checkItem_traverses : (i : Item) → ∀ ⦃frames : List Frame⦄ ⦃s : Typing.State⦄ ⦃r : Unit × Typing.State⦄,
    Building.Coherent ⟨s.ir, frames⟩ → (∀ n ∈ i.functionNames, P n) → after (checkItem (current frames) i) s = .ok r →
      Traverses P frames s.ir r.2.ir
  | .letDecl d span => fun _ _ _ _ _ h => checkDecl_traverses _ h
  | .func name params result body _ => by
    intro frames s r hc hP h
    obtain ⟨hfree, t, hbody, rfl⟩ := checkFunc_eq_ok h
    have hm := func_move hfree (hP name.name List.mem_cons_self) frames params ((result.map TypeName.ty).getD .void)
    have hP' : ∀ n ∈ body.functionNames, P n := fun n hn => hP n (List.mem_cons_of_mem _ hn)
    have ht := checkBlock_traverses body (f := ⟨s.ir.scopes.size, .func, params.map paramBinding, none⟩)
      (s := (registered s name _).perform _) (hm.coherent hc) hP' hbody
    have hclose := Traverses.enclose hm rfl (fun _ hlt => Ir.scope_openScope_of_ne (Nat.ne_of_lt hlt) _ _ _) ht
    have hborn : (params.map paramBinding).map Prod.fst = params.map (·.name.name) := by simp [paramBinding]
    rw [hborn] at hclose
    exact hclose

private theorem checkStmt_traverses : (stmt : Stmt) → ∀ ⦃f : Frame⦄ ⦃frames : List Frame⦄ ⦃s : Typing.State⦄
    ⦃r : Unit × Typing.State⦄, Building.Coherent ⟨s.ir, f :: frames⟩ → (∀ n ∈ stmt.functionNames, P n) →
      after (checkStmt f.id stmt) s = .ok r → Traverses P (f :: frames) s.ir r.2.ir
  | .item i => fun _ _ _ _ hc hP h => checkItem_traverses i hc hP h
  | .varDecl d span => fun f frames _ _ _ _ h => checkDecl_traverses (f :: frames) h
  | .assign target value span => fun _ _ _ _ hc _ h =>
    act_traverses (fun _ hargs => assign_action hc.wellFormed hargs) h
  | .print args _ => fun _ _ _ _ _ _ h => act_traverses (fun _ hargs => print_action hargs) h
  | .ret value span => by
    intro f frames s r hc _ h
    -- statements stand in functions, whose result the table knows
    obtain ⟨signature, hs⟩ := hc.chain.signed
    exact act_traverses (fun _ hargs => return_action hs hargs) h
  | .call callee args span => fun _ _ _ _ _ _ h => act_traverses (fun _ hargs => call_action hargs) h
  | .forLoop var iterable body _ => by
    intro f frames s r hc hP h
    rw [checkStmt_forLoop] at h
    obtain ⟨⟨guard, ty⟩, hg, h⟩ := found_eq_ok.1 h
    exact (inner_traverses (fun _ _ _ _ hc h => checkBlock_traverses body hc hP h) hc (iterable_guard var hg) h).1
  | .whileLoop cond body _ => by
    intro f frames s r hc hP h
    rw [checkStmt_whileLoop] at h
    obtain ⟨guard, hg, h⟩ := found_eq_ok.1 h
    have hguard := Guard.whileLoop (lowerCond_typed hg)
    exact (inner_traverses (fun _ _ _ _ hc h => checkBlock_traverses body hc hP h) hc hguard h).1
  | .ifThen cond thenBlock _ => by
    intro f frames s r hc hP h
    rw [checkStmt_ifThen] at h
    obtain ⟨guard, hg, h⟩ := found_eq_ok.1 h
    have hguard := Guard.ifBranch (lowerCond_typed hg)
    exact (inner_traverses (fun _ _ _ _ hc h => checkBlock_traverses thenBlock hc hP h) hc hguard h).1
  | .ifElse cond thenBlock elseBlock _ => by
    intro f frames s r hc hP h
    obtain ⟨guard, t, hg, hthen, helse⟩ := checkIfElse_eq_ok h
    have hPthen : ∀ n ∈ thenBlock.functionNames, P n := fun n hn => hP n (List.mem_append_left _ hn)
    have hPelse : ∀ n ∈ elseBlock.functionNames, P n := fun n hn => hP n (List.mem_append_right _ hn)
    have hguard := Guard.ifBranch (lowerCond_typed hg)
    have hfirst := (inner_traverses (fun _ _ _ _ hc h => checkBlock_traverses thenBlock hc hPthen h) hc hguard hthen).1
    have hother := inner_traverses (fun _ _ _ _ hc h => checkBlock_traverses elseBlock hc hPelse h)
      (hfirst.coherent hc) .elseBranch helse
    exact hfirst.trans hother.1
  | .switch subject cases _ => by
    intro f frames s r hc hP h
    rw [checkStmt_switch] at h
    obtain ⟨var, hv, h⟩ := found_eq_ok.1 h
    exact checkCases_traverses cases var hc hP (lowerVar_typed hv) h

private theorem checkBlock_traverses : (block : Block) → ∀ ⦃f : Frame⦄ ⦃frames : List Frame⦄ ⦃s : Typing.State⦄
    ⦃r : Unit × Typing.State⦄, Building.Coherent ⟨s.ir, f :: frames⟩ → (∀ n ∈ block.functionNames, P n) →
      after (checkBlock f.id block) s = .ok r → Traverses P (f :: frames) s.ir r.2.ir
  | .mk stmts _ => fun _ _ _ _ hc hP h => checkStmts_traverses stmts hc hP h

private theorem checkStmts_traverses : (stmts : List Stmt) → ∀ ⦃f : Frame⦄ ⦃frames : List Frame⦄ ⦃s : Typing.State⦄
    ⦃r : Unit × Typing.State⦄, Building.Coherent ⟨s.ir, f :: frames⟩ → (∀ n ∈ functionNamesOfStmts stmts, P n) →
      after (checkStmts f.id stmts) s = .ok r → Traverses P (f :: frames) s.ir r.2.ir
  | [] => by
    intro f frames s r _ _ h
    cases h
    exact .refl _ _ _
  | stmt :: stmts => by
    intro f frames s r hc hP h
    obtain ⟨_, t, hfirst, h⟩ := after_bind_eq_ok.1 h
    have ht := checkStmt_traverses stmt hc (fun n hn => hP n (List.mem_append_left _ hn)) hfirst
    exact ht.trans (checkStmts_traverses stmts (ht.coherent hc) (fun n hn => hP n (List.mem_append_right _ hn)) h)

private theorem checkCases_traverses : (cases : List Case) → (subject : Var) → ∀ ⦃f : Frame⦄ ⦃frames : List Frame⦄
    ⦃s : Typing.State⦄ ⦃r : Unit × Typing.State⦄, Building.Coherent ⟨s.ir, f :: frames⟩ →
      (∀ n ∈ functionNamesOfCases cases, P n) → s.ir.HasTypeAt f.id subject.value subject.ty →
        after (checkCases f.id subject cases) s = .ok r → Traverses P (f :: frames) s.ir r.2.ir
  | [], _ => by
    intro f frames s r _ _ _ h
    cases h
    exact .refl _ _ _
  | .mk comparator body span :: cases, subject => by
    intro f frames s r hc hP hsubject h
    obtain ⟨guard, t, hg, hbody, h⟩ := checkCases_eq_ok h
    have hguard := case_guard hsubject hg
    have hPbody : ∀ n ∈ body.functionNames, P n := fun n hn => hP n (List.mem_append_left _ hn)
    have hPcases : ∀ n ∈ functionNamesOfCases cases, P n := fun n hn => hP n (List.mem_append_right _ hn)
    obtain ⟨hfirst, hsame⟩ :=
      inner_traverses (fun _ _ _ _ hc h => checkBlock_traverses body hc hPbody h) hc hguard hbody
    have hc' := hfirst.coherent hc
    -- the block of the case has declared nothing in the scope of the subject
    have hsubject' := hsame.hasTypeAt hc.wellFormed hc'.wellFormed hfirst.path.grows
      hc.chain.current_lt hsubject
    exact hfirst.trans (checkCases_traverses cases subject hc' hPcases hsubject' h)

end

private theorem checkItems_traverses (frames : List Frame) {items : List Item} (hc : Building.Coherent ⟨s.ir, frames⟩)
    (hP : ∀ n ∈ items.flatMap Item.functionNames, P n) (h : after (checkItems (current frames) items) s = .ok r) :
    Traverses P frames s.ir r.2.ir := by
  induction items generalizing s with
  | nil =>
    cases h
    exact .refl _ _ _
  | cons i items ih =>
    obtain ⟨_, t, hfirst, h⟩ := after_bind_eq_ok.1 h
    rw [List.flatMap_cons] at hP
    have ht := checkItem_traverses i hc (fun n hn => hP n (List.mem_append_left _ hn)) hfirst
    exact ht.trans (ih (ht.coherent hc) (fun n hn => hP n (List.mem_append_right _ hn)) h)

/-- A check of a program that succeeds is a way from the empty representation. -/
theorem typecheck_path {p : Program} {ir : Ir} (hP : ∀ n ∈ p.functionNames, P n) (h : typecheck p = .ok ir) :
    Path P ⟨.initial, []⟩ ⟨ir, []⟩ := by
  obtain ⟨t, ht, rfl⟩ := typecheck_eq_ok.1 h
  exact (checkItems_traverses [] coherent_initial hP ht).path

end Scriptlet
