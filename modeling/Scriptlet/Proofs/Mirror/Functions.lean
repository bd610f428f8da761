import Scriptlet.Proofs.Mirror.Check

/-!
# The functions of a checked program

`typecheck_mirrors`: the representation of a program that is accepted stands for it, entry by entry, and its operators
are those of the language and one for each function that the program declares anywhere.

A function enters the table where its declaration is checked, and no other step changes the table, so that the
functions enter it in the order of the program (`OperatorTable.Defines`).
-/

namespace Scriptlet

/-! ### The functions that a program declares -/

mutual

/-- The functions in an item, at any depth, in order. -/
def Item.functions : Item → List (String × Signature)
  | .letDecl _ _ => []
  | .func name params result body _ => (name.name, signatureOf params result) :: body.functions

/-- The functions in a statement. -/
def Stmt.functions : Stmt → List (String × Signature)
  | .item i => i.functions
  | .forLoop _ _ body _ | .whileLoop _ body _ | .ifThen _ body _ => body.functions
  | .ifElse _ thenBlock elseBlock _ => thenBlock.functions ++ elseBlock.functions
  | .switch _ cases _ => functionsOfCases cases
  | .varDecl _ _ | .assign _ _ _ | .print _ _ | .ret _ _ | .call _ _ _ => []

/-- The functions in a block. -/
def Block.functions : Block → List (String × Signature)
  | .mk stmts _ => functionsOfStmts stmts

/-- The functions in statements. -/
def functionsOfStmts : List Stmt → List (String × Signature)
  | [] => []
  | s :: ss => s.functions ++ functionsOfStmts ss

/-- The functions in cases. -/
def functionsOfCases : List Case → List (String × Signature)
  | [] => []
  | .mk _ body _ :: cs => body.functions ++ functionsOfCases cs

end

/-- The functions of a program, those inside functions included. -/
def Program.functions (p : Program) : List (String × Signature) := p.items.flatMap Item.functions

/-! ### Tables with more functions -/

namespace OperatorTable

variable {t t' t'' : OperatorTable} {fs gs : List (String × Signature)}

/-- The second table has these functions beside what is in the first; each name was free when its function came. -/
inductive Defines : OperatorTable → List (String × Signature) → OperatorTable → Prop where
  | nil {t : OperatorTable} : Defines t [] t
  | cons {t t' t'' : OperatorTable} {f : String × Signature} {fs : List (String × Signature)} :
    t.define? f.1 f.2 = some t' → Defines t' fs t'' → Defines t (f :: fs) t''

private theorem Defines.append (h : t.Defines fs t') (h' : t'.Defines gs t'') : t.Defines (fs ++ gs) t'' := by
  induction h with
  | nil => exact h'
  | cons hdef _ ih => exact .cons hdef (ih h')

/-- A function as an entry of the table. -/
def entryOf (f : String × Signature) : String × Operator := (f.1, ⟨[f.2], true⟩)

private theorem perm_alterEntries {name : String} {entries : List (String × Operator)}
    (h : entries.lookup name = none) (f : Option Operator → Operator) :
    (alterEntries name f entries).Perm ((name, f none) :: entries) := by
  induction entries with
  | nil => exact .refl _
  | cons x entries ih =>
    obtain ⟨n, op⟩ := x
    by_cases hn : name = n
    · rw [hn, List.lookup_cons_self] at h
      cases h
    · rw [List.lookup_cons, beq_false_of_ne hn] at h
      unfold alterEntries
      rw [if_neg (Ne.symm hn)]
      by_cases hlt : name < n
      · rw [if_pos hlt]
      · rw [if_neg hlt]
        exact ((ih h).cons (n, op)).trans (.swap _ _ _)

/-- A new function comes to the others. -/
private theorem entries_define {f : String × Signature} (h : t.define? f.1 f.2 = some t') :
    t'.entries.Perm (entryOf f :: t.entries) ∧ (Ascending t.entries → Ascending t'.entries) := by
  unfold define? at h
  by_cases hc : t.contains f.1 = true
  · rw [if_pos hc] at h
    cases h
  · rw [if_neg hc] at h
    cases h
    have hfree : t.entries.lookup f.1 = none := Option.not_isSome_iff_eq_none.1 hc
    exact ⟨perm_alterEntries hfree _, fun ha => ha.alterEntries _ _⟩

/-- No operator of the language is a function of a program. -/
theorem get?_builtins_ne (name : String) (s : Signature) : builtins.get? name ≠ some ⟨[s], true⟩ := by
  rw [get?_builtins]
  cases signaturesOf name builtinSignatures with
  | nil => simp [ofSignatures]
  | cons => simp [ofSignatures]

/-- A new function is all that its name stands for, and nothing else changes. -/
private theorem get?_of_define {f : String × Signature} (h : t.define? f.1 f.2 = some t') :
    t.get? f.1 = none ∧ ∀ name, t'.get? name = if name = f.1 then some ⟨[f.2], true⟩ else t.get? name := by
  cases hc : t.contains f.1 with
  | true =>
    unfold define? at h
    rw [if_pos hc] at h
    cases h
  | false =>
    have hget := get?_define hc f.2
    rw [h] at hget
    exact ⟨Option.not_isSome_iff_eq_none.1 (Bool.eq_false_iff.1 hc), hget⟩

/-- The table has what it had and the functions, and is in order if it was. -/
private theorem Defines.entries (h : t.Defines fs t') :
    t'.entries.Perm (t.entries ++ fs.map entryOf) ∧ (Ascending t.entries → Ascending t'.entries) := by
  induction h with
  | nil => exact ⟨by simp, id⟩
  | @cons t t' t'' f fs hdef _ ih =>
    obtain ⟨hperm, hasc⟩ := entries_define hdef
    refine ⟨?_, fun ha => ih.2 (hasc ha)⟩
    calc t''.entries.Perm (t'.entries ++ fs.map entryOf) := ih.1
      List.Perm _ (entryOf f :: t.entries ++ fs.map entryOf) := hperm.append_right _
      List.Perm _ (t.entries ++ entryOf f :: fs.map entryOf) := List.perm_middle.symm

/-- What the table holds for a name: what it had, or the function of that name. -/
theorem Defines.get?_eq_some (h : t.Defines fs t') {name : String} {o : Operator} :
    t'.get? name = some o ↔ t.get? name = some o ∨ ∃ s, (name, s) ∈ fs ∧ o = ⟨[s], true⟩ := by
  induction h with
  | nil => simp
  | @cons t t' t'' f fs hdef _ ih =>
    obtain ⟨hfree, hget⟩ := get?_of_define hdef
    rw [ih, hget]
    by_cases hn : name = f.1
    · subst hn
      rw [if_pos rfl, hfree]
      constructor
      · rintro (h | ⟨s, hs, rfl⟩)
        · exact .inr ⟨f.2, List.mem_cons_self, (Option.some.inj h).symm⟩
        · exact .inr ⟨s, List.mem_cons_of_mem _ hs, rfl⟩
      · rintro (h | ⟨s, hs, rfl⟩)
        · cases h
        · rcases List.mem_cons.1 hs with heq | hs
          · exact .inl (by rw [← heq])
          · exact .inr ⟨s, hs, rfl⟩
    · have hmem (s : Signature) : (name, s) ∈ f :: fs ↔ (name, s) ∈ fs := by
        rw [List.mem_cons, or_iff_right]
        exact fun heq => hn (congrArg Prod.fst heq)
      simp only [if_neg hn, hmem]

/-- A name that is taken is not one of the functions that come. -/
private theorem Defines.not_mem (h : t.Defines fs t') {name : String} {o : Operator} (hname : t.get? name = some o) :
    name ∉ fs.map Prod.fst := by
  induction h with
  | nil => simp
  | @cons t t' t'' f fs hdef _ ih =>
    obtain ⟨hfree, hget⟩ := get?_of_define hdef
    have hne : name ≠ f.1 := by
      rintro rfl
      rw [hfree] at hname
      cases hname
    have hlater := hget name
    rw [if_neg hne] at hlater
    rw [List.map_cons, List.mem_cons, not_or]
    exact ⟨hne, ih (hlater.trans hname)⟩

/-- The functions have different names. -/
theorem Defines.nodup (h : t.Defines fs t') : (fs.map Prod.fst).Nodup := by
  induction h with
  | nil => exact List.nodup_nil
  | @cons t t' t'' f fs hdef hrest ih =>
    obtain ⟨-, hget⟩ := get?_of_define hdef
    exact List.nodup_cons.2 ⟨hrest.not_mem ((hget f.1).trans (if_pos rfl)), ih⟩

end OperatorTable

/-! ### Checks -/

open Typing Checker OperatorTable

/-- Where the checker succeeds, these functions have entered the table. -/
def Declares {α : Type} (x : Checker α) (fs : List (String × Signature)) : Prop :=
  ∀ s r, after x s = .ok r → s.ir.ops.Defines fs r.2.ir.ops

namespace Declares

variable {α β : Type} {x : Checker α} {f : α → Checker β} {fs gs : List (String × Signature)}

private theorem bind (hx : Declares x fs) (hf : ∀ a, Declares (f a) gs) : Declares (x >>= f) (fs ++ gs) := by
  intro s r h
  obtain ⟨a, t, hfirst, h⟩ := after_bind_eq_ok.1 h
  exact (hx s _ hfirst).append (hf a t r h)

/-- The first part leaves the table as it is. -/
private theorem after (hx : Declares x []) (hf : ∀ a, Declares (f a) gs) : Declares (x >>= f) gs := hx.bind hf

/-- The second part leaves the table as it is. -/
private theorem before (hx : Declares x fs) (hf : ∀ a, Declares (f a) []) : Declares (x >>= f) fs := by
  have h := hx.bind hf
  rwa [List.append_nil] at h

private theorem pure (a : α) : Declares (Pure.pure a) [] := by
  rintro s r ⟨⟩
  exact .nil

private theorem throw (e : Located TypeError) : Declares (throw e : Checker α) [] := fun _ _ h => nomatch h

private theorem getIr : Declares getIr [] := by
  rintro s r ⟨⟩
  exact .nil

private theorem lift (c : Checked α) : Declares (lift c) [] := by
  intro s r h
  rw [after_lift] at h
  cases c with
  | ok a =>
    cases h
    exact .nil
  | error e => cases h

/-- A step that is not the declaration of a function. -/
private theorem perform {step : Ir.Step} (h : ∀ ir : Ir, (ir.apply step).ops = ir.ops) :
    Declares (perform step) [] := by
  rintro s r ⟨⟩
  have hops : (s.perform step).ir.ops = s.ir.ops := h s.ir
  rw [hops]
  exact .nil

private theorem openScope (kind : ScopeKind) (parent : ScopeId) (func : Option String) (born : List (String × Var)) :
    Declares (openScope kind parent func born) [] := by
  rintro s r ⟨⟩
  exact .nil

private theorem closeScope (id : ScopeId) (kind : ScopeKind) (parent : ScopeId) (born : List String)
    (guard : Option Value) : Declares (Checker.perform (.closeScope id kind parent born guard)) [] :=
  perform fun _ => rfl

private theorem register (name : Ident) (signature : Signature) :
    Declares (register name signature) [(name.name, signature)] := by
  intro s r h
  obtain ⟨hfree, hr⟩ := register_eq_ok h
  have hdef : s.ir.ops.define? name.name signature =
      some ((s.ir.ops.define? name.name signature).getD s.ir.ops) := by
    unfold define?
    rw [if_neg (by simp [hfree])]
    rfl
  rw [hr]
  exact .cons hdef .nil

private theorem openFunc (scope : ScopeId) (name : Ident) (params : List Param) :
    Declares (openFunc scope name params) [] := by
  intro s r h
  rw [openFunc_eq_ok h]
  exact .nil

end Declares

private theorem checkDecl_declares (scope : ScopeId) (d : Decl) (span : Span) (mutable : Bool) :
    Declares (checkDecl scope d span mutable) [] := by
  refine Declares.getIr.after fun ir => (Declares.lift _).after fun ⟨value, ty⟩ => ?_
  dsimp only
  split
  · exact .throw _
  · exact (Declares.lift _).after fun _ => .perform fun _ => rfl

private theorem act_declares (c : Ir → Checked (List Var)) (scope : ScopeId) (op : String) :
    Declares (getIr >>= fun ir => lift (c ir) >>= fun args => perform (.act scope op args)) [] :=
  Declares.getIr.after fun _ => (Declares.lift _).after fun _ => .perform fun _ => rfl

private theorem inner_declares {body : Block} {fs : List (String × Signature)}
    (hbody : ∀ inner, Declares (checkBlock inner body) fs) (scope : ScopeId) (kind : ScopeKind)
    (born : List (String × Var)) (guard : Option Value) : Declares (checkInner scope kind born guard body) fs :=
  (Declares.openScope _ _ _ _).after fun inner => (hbody inner).before fun _ => .closeScope _ _ _ _ _

mutual

private theorem checkItem_declares : (i : Item) → ∀ scope, Declares (checkItem scope i) i.functions
  | .letDecl d span, scope => checkDecl_declares scope d span false
  | .func name params _ body _, scope =>
    (Declares.register name _).bind fun _ => (Declares.openFunc scope name params).after fun inner =>
      (checkBlock_declares body inner).before fun _ => .closeScope _ _ _ _ _

private theorem checkStmt_declares : (s : Stmt) → ∀ scope, Declares (checkStmt scope s) s.functions
  | .item i, scope => checkItem_declares i scope
  | .varDecl d span, scope => checkDecl_declares scope d span true
  | .assign _ _ _, scope => act_declares _ scope _
  | .print _ _, scope => act_declares _ scope _
  | .ret _ _, scope => act_declares _ scope _
  | .call _ _ _, scope => act_declares _ scope _
  | .forLoop var iterable body span, scope => by
    rw [checkStmt_forLoop]
    exact Declares.getIr.after fun _ => (Declares.lift _).after fun _ =>
      inner_declares (checkBlock_declares body) _ _ _ _
  | .whileLoop cond body span, scope => by
    rw [checkStmt_whileLoop]
    exact Declares.getIr.after fun _ => (Declares.lift _).after fun _ =>
      inner_declares (checkBlock_declares body) _ _ _ _
  | .ifThen cond body span, scope => by
    rw [checkStmt_ifThen]
    exact Declares.getIr.after fun _ => (Declares.lift _).after fun _ =>
      inner_declares (checkBlock_declares body) _ _ _ _
  | .ifElse cond body other span, scope => by
    rw [checkStmt_ifElse]
    refine Declares.getIr.after fun _ => (Declares.lift _).after fun _ => ?_
    exact (inner_declares (checkBlock_declares body) _ _ _ _).bind fun _ =>
      inner_declares (checkBlock_declares other) _ _ _ _
  | .switch _ cases _, scope =>
    Declares.getIr.after fun _ => (Declares.lift _).after fun subject => checkCases_declare cases scope subject

private theorem checkBlock_declares : (b : Block) → ∀ scope, Declares (checkBlock scope b) b.functions
  | .mk stmts _, scope => checkStmts_declare stmts scope

private theorem checkStmts_declare : (ss : List Stmt) → ∀ scope, Declares (checkStmts scope ss) (functionsOfStmts ss)
  | [], _ => .pure ()
  | s :: ss, scope => (checkStmt_declares s scope).bind fun _ => checkStmts_declare ss scope

private theorem checkCases_declare : (cs : List Case) → ∀ scope subject,
    Declares (checkCases scope subject cs) (functionsOfCases cs)
  | [], _, _ => .pure ()
  | .mk comparator body span :: cs, scope, subject => by
    rw [checkCases_cons]
    refine (Declares.lift _).after fun _ => ?_
    exact (inner_declares (checkBlock_declares body) _ _ _ _).bind fun _ => checkCases_declare cs scope subject

end

private theorem checkItems_declare (scope : ScopeId) (is : List Item) :
    Declares (checkItems scope is) (is.flatMap Item.functions) := by
  induction is with
  | nil => exact .pure ()
  | cons i is ih => exact (checkItem_declares i scope).bind fun _ => ih

/-! ### Programs -/

/-- The table of a program that is accepted is that of the language, with the program's functions. -/
theorem typecheck_defines {p : Program} {ir : Ir} (h : typecheck p = .ok ir) :
    builtins.Defines p.functions ir.ops := by
  obtain ⟨t, ht, rfl⟩ := typecheck_eq_ok.1 h
  exact checkItems_declare _ _ _ _ ht

/-- The functions of a program that is accepted are those in its table. -/
theorem mem_functions_iff {p : Program} {ir : Ir} (h : typecheck p = .ok ir) {name : String} {s : Signature} :
    (name, s) ∈ p.functions ↔ ir.ops.get? name = some ⟨[s], true⟩ := by
  rw [(typecheck_defines h).get?_eq_some, or_iff_right (get?_builtins_ne name s)]
  simp

/-- The representation stands for the program, and has the language's operators and the program's functions. -/
structure Program.Mirrors (p : Program) (ir : Ir) : Prop where
  becomes : p.Becomes ir
  operators : ir.ops.entries.Perm (builtins.entries ++ p.functions.map entryOf)
  /-- No two entries of the table have one name. -/
  ascending : Ascending ir.ops.entries

/-- The representation of a program that is accepted mirrors it. -/
theorem typecheck_mirrors {p : Program} {ir : Ir} (h : typecheck p = .ok ir) : p.Mirrors ir := by
  obtain ⟨hperm, hasc⟩ := (typecheck_defines h).entries
  exact ⟨typecheck_becomes h, hperm, hasc ascending_builtins⟩

/-- `func next(n: Int) -> Int { return n + 1; } let one = next(0);` -/
def successor : Program :=
  let sum : Expr := .binary .add (.name "n" ⟨34, 1⟩) (.literal (.int 1) ⟨38, 1⟩) ⟨34, 5⟩
  let one : Decl := ⟨⟨"one", ⟨47, 3⟩⟩, none, .call ⟨"next", ⟨53, 4⟩⟩ [.literal (.int 0) ⟨58, 1⟩] ⟨53, 7⟩⟩
  ⟨[.func ⟨"next", ⟨5, 4⟩⟩ [⟨⟨"n", ⟨10, 1⟩⟩, ⟨.int, ⟨13, 3⟩⟩⟩] (some ⟨.int, ⟨21, 3⟩⟩)
    (.mk [.ret (some sum) ⟨27, 13⟩] ⟨25, 17⟩) ⟨0, 42⟩, .letDecl one ⟨43, 18⟩]⟩

/-- A function and a call of it have their entries. -/
theorem successor_mirrors : ∃ ir, typecheck successor = .ok ir ∧ successor.Mirrors ir :=
  ⟨_, rfl, typecheck_mirrors (p := successor) rfl⟩

end Scriptlet
