import Scriptlet.Program.Shown
import Scriptlet.Proofs.Dump.Trees

/-!
# Places in labelled trees

The trees of a program are those of the program without the places that a dump leaves out (`Program.forest_shown`), and
they determine it (`Program.shown_of_forest`).  The trees of a program without any places are its trees with blank spans
(`forestOfItems_bare`).
-/

namespace Scriptlet

open Dump

/-! ### Places that are not shown -/

mutual

private theorem Expr.forest_shown : (e : Expr) → (next : Forest Label) → e.shown.forest next = e.forest next
  | .literal v s, next => rfl
  | .name n s, next => rfl
  | .call f args s, next => by
    simp [Expr.shown, Expr.forest, Ident.bare, Expr.forestOfList_shown args]
  | .unary op e s, next => by simp [Expr.shown, Expr.forest, e.forest_shown]
  | .binary op l r s, next => by simp [Expr.shown, Expr.forest, l.forest_shown, r.forest_shown]

private theorem Expr.forestOfList_shown :
    (es : List Expr) → Expr.forestOfList (Expr.shownList es) = Expr.forestOfList es
  | [] => rfl
  | e :: es => by simp [Expr.shownList, Expr.forestOfList, e.forest_shown, Expr.forestOfList_shown es]

end

private theorem ty_comp_bare : TypeName.ty ∘ TypeName.bare = TypeName.ty := rfl

private theorem signature_bare (params : List Param) : signature (params.map Param.bare) = signature params := by
  simp [signature, Param.bare, Ident.bare, TypeName.bare]

private theorem Comparator.pattern_bare (c : Comparator) : c.bare.pattern = c.pattern := by
  cases c with
  | const | range => rfl
  | oneOf cs => simp [bare, pattern, Const.bare]

private theorem caseLabel_bare (c : Option Comparator) : caseLabel (c.map Comparator.bare) = caseLabel c := by
  cases c with
  | none => rfl
  | some c => exact congrArg Head.case c.pattern_bare

private theorem Iterable.forest_shown (r : Iterable) (next : Forest Label) : r.shown.forest next = r.forest next := by
  cases r with
  | range => rfl
  | expr e => exact e.forest_shown next

mutual

private theorem Item.forest_shown : (x : Item) → (next : Forest Label) → x.shown.forest next = x.forest next
  | .letDecl d s, next => by
    simp [Item.shown, Item.forest, Decl.shown, Ident.bare, ty_comp_bare, d.value.forest_shown]
  | .func name params result body s, next => by
    simp [Item.shown, Item.forest, Ident.bare, ty_comp_bare, signature_bare, body.forest_shown]

private theorem Stmt.forest_shown : (x : Stmt) → (next : Forest Label) → x.shown.forest next = x.forest next
  | .item x, next => x.forest_shown next
  | .varDecl d s, next => by
    simp [Stmt.shown, Stmt.forest, Decl.shown, Ident.bare, ty_comp_bare, d.value.forest_shown]
  | .assign target value s, next => by simp [Stmt.shown, Stmt.forest, Ident.bare, value.forest_shown]
  | .print args s, next => by simp [Stmt.shown, Stmt.forest, Expr.forestOfList_shown args]
  | .ret none s, next => rfl
  | .ret (some e) s, next => by simp [Stmt.shown, Stmt.forest, Expr.forestOfList, e.forest_shown]
  | .call f args s, next => by simp [Stmt.shown, Stmt.forest, Ident.bare, Expr.forestOfList_shown args]
  | .forLoop var iterable body s, next => by
    simp [Stmt.shown, Stmt.forest, Ident.bare, iterable.forest_shown, body.forest_shown]
  | .whileLoop cond body s, next => by simp [Stmt.shown, Stmt.forest, cond.forest_shown, body.forest_shown]
  | .ifThen cond body s, next => by simp [Stmt.shown, Stmt.forest, cond.forest_shown, body.forest_shown]
  | .ifElse cond body other s, next => by
    simp [Stmt.shown, Stmt.forest, cond.forest_shown, body.forest_shown, other.forest_shown]
  | .switch subject cases s, next => by
    simp [Stmt.shown, Stmt.forest, subject.forest_shown, forestOfCases_shown cases]

private theorem Block.forest_shown : (b : Block) → b.shown.forest = b.forest
  | .mk stmts _ => forestOfStmts_shown stmts

private theorem forestOfStmts_shown : (ss : List Stmt) → forestOfStmts (shownStmts ss) = forestOfStmts ss
  | [] => rfl
  | s :: ss => by simp [shownStmts, forestOfStmts, s.forest_shown, forestOfStmts_shown ss]

private theorem forestOfCases_shown : (cs : List Case) → forestOfCases (shownCases cs) = forestOfCases cs
  | [] => rfl
  | .mk c body s :: cs => by
    simp [shownCases, Case.shown, forestOfCases, caseLabel_bare, body.forest_shown, forestOfCases_shown cs]

end

/-- Blanking the places that a dump leaves out does not change the dump. -/
theorem Program.forest_shown (p : Program) : p.shown.forest = p.forest := by
  obtain ⟨is⟩ := p
  show forestOfItems (is.map Item.shown) = forestOfItems is
  induction is with
  | nil => rfl
  | cons x is ih => rw [List.map_cons, forestOfItems, forestOfItems, x.forest_shown, ih]

/-! ### Trees without places -/

/-- The label without its place. -/
def Dump.Label.bare : Label → Label
  | word kind => word kind
  | line head _ => line head .blank

mutual

private theorem Expr.forest_bare : (e : Expr) → (next : Forest Label) →
    e.bare.forest (next.map Label.bare) = (e.forest next).map Label.bare
  | .literal v s, next => rfl
  | .name n s, next => rfl
  | .call f args s, next => by
    simp [Expr.bare, Expr.forest, Forest.map, Label.bare, Ident.bare, Expr.forestOfList_bare args]
  | .unary op e s, next => by simp [Expr.bare, Expr.forest, Forest.map, Label.bare, ← e.forest_bare]
  | .binary op l r s, next => by
    simp [Expr.bare, Expr.forest, Forest.map, Label.bare, ← l.forest_bare, ← r.forest_bare]

private theorem Expr.forestOfList_bare : (es : List Expr) →
    Expr.forestOfList (Expr.bareList es) = (Expr.forestOfList es).map Label.bare
  | [] => rfl
  | e :: es => by rw [Expr.bareList, Expr.forestOfList, Expr.forestOfList_bare es, e.forest_bare, Expr.forestOfList]

end

private theorem Iterable.forest_bare (r : Iterable) (next : Forest Label) :
    r.bare.forest (next.map Label.bare) = (r.forest next).map Label.bare := by
  cases r with
  | range => rfl
  | expr e => exact e.forest_bare next

mutual

private theorem Item.forest_bare : (x : Item) → (next : Forest Label) →
    x.bare.forest (next.map Label.bare) = (x.forest next).map Label.bare
  | .letDecl d s, next => by
    simp [Item.bare, Item.forest, Decl.bare, Forest.map, Label.bare, Ident.bare, ty_comp_bare, ← d.value.forest_bare]
  | .func name params result body s, next => by
    simp [Item.bare, Item.forest, Forest.map, Label.bare, Ident.bare, ty_comp_bare, signature_bare, body.forest_bare]

private theorem Stmt.forest_bare : (x : Stmt) → (next : Forest Label) →
    x.bare.forest (next.map Label.bare) = (x.forest next).map Label.bare
  | .item x, next => x.forest_bare next
  | .varDecl d s, next => by
    simp [Stmt.bare, Stmt.forest, Decl.bare, Forest.map, Label.bare, Ident.bare, ty_comp_bare, ← d.value.forest_bare]
  | .assign target value s, next => by
    simp [Stmt.bare, Stmt.forest, Forest.map, Label.bare, Ident.bare, ← value.forest_bare]
  | .print args s, next => by
    simp [Stmt.bare, Stmt.forest, Forest.map, Label.bare, ← Expr.bareList_eq, Expr.forestOfList_bare args]
  | .ret none s, next => rfl
  | .ret (some e) s, next => by
    simp [Stmt.bare, Stmt.forest, Expr.forestOfList, Forest.map, Label.bare, ← e.forest_bare]
  | .call f args s, next => by
    simp [Stmt.bare, Stmt.forest, Forest.map, Label.bare, Ident.bare, ← Expr.bareList_eq, Expr.forestOfList_bare args]
  | .forLoop var iterable body s, next => by
    simp [Stmt.bare, Stmt.forest, Forest.map, Label.bare, Ident.bare, ← iterable.forest_bare, body.forest_bare]
  | .whileLoop cond body s, next => by
    simp [Stmt.bare, Stmt.forest, Forest.map, Label.bare, ← cond.forest_bare, body.forest_bare]
  | .ifThen cond body s, next => by
    simp [Stmt.bare, Stmt.forest, Forest.map, Label.bare, ← cond.forest_bare, body.forest_bare]
  | .ifElse cond body other s, next => by
    simp [Stmt.bare, Stmt.forest, Forest.map, Label.bare, ← cond.forest_bare, body.forest_bare, other.forest_bare]
  | .switch subject cases s, next => by
    simp [Stmt.bare, Stmt.forest, Forest.map, Label.bare, ← subject.forest_bare, forestOfCases_bare cases]

private theorem Block.forest_bare : (b : Block) → b.bare.forest = b.forest.map Label.bare
  | .mk stmts _ => forestOfStmts_bare stmts

private theorem forestOfStmts_bare : (ss : List Stmt) → forestOfStmts (bareStmts ss) = (forestOfStmts ss).map Label.bare
  | [] => rfl
  | s :: ss => by rw [bareStmts, forestOfStmts, forestOfStmts_bare ss, s.forest_bare, forestOfStmts]

private theorem forestOfCases_bare : (cs : List Case) → forestOfCases (bareCases cs) = (forestOfCases cs).map Label.bare
  | [] => rfl
  | .mk c body s :: cs => by
    simp [bareCases, Case.bare, forestOfCases, Forest.map, Label.bare, caseLabel_bare, body.forest_bare,
      forestOfCases_bare cs]

end

/-- The tree of a program without places is its tree with the places taken out of the labels. -/
theorem forestOfItems_bare (is : List Item) : forestOfItems (is.map Item.bare) = (forestOfItems is).map Label.bare := by
  induction is with
  | nil => rfl
  | cons x is ih => rw [List.map_cons, forestOfItems, ih, x.forest_bare, forestOfItems]

/-! ### Places that are shown -/

private theorem bare_of_name {f f' : Ident} (h : f.name = f'.name) : f.bare = f'.bare := by
  rw [Ident.bare, Ident.bare, h]

private theorem bare_of_type {type type' : Option TypeName} (h : type.map TypeName.ty = type'.map TypeName.ty) :
    type.map TypeName.bare = type'.map TypeName.bare := by
  have hbare (type : Option TypeName) :
      type.map TypeName.bare = (type.map TypeName.ty).map fun ty => ⟨ty, .blank⟩ := by
    cases type <;> rfl
  rw [hbare, h, ← hbare]

private theorem bare_of_signature {params params' : List Param} (h : signature params = signature params') :
    params.map Param.bare = params'.map Param.bare := by
  have hbare (params : List Param) :
      params.map Param.bare = (signature params).map fun p => ⟨⟨p.1, .blank⟩, ⟨p.2, .blank⟩⟩ := by
    simp [signature, Param.bare, Ident.bare, TypeName.bare]
  rw [hbare, h, ← hbare]

private theorem bare_of_pattern {c c' : Comparator} (h : c.pattern = c'.pattern) : c.bare = c'.bare := by
  have hbare (cs : List Const) : cs.map Const.bare = (cs.map Const.literal).map fun l => ⟨l, .blank⟩ := by
    simp [Const.bare]
  cases c with
  | const c =>
    cases c' with
    | const c' => rw [Comparator.bare, Comparator.bare, Const.bare, Const.bare, Pattern.const.inj h]
    | _ => cases h
  | oneOf cs =>
    cases c' with
    | oneOf cs' => rw [Comparator.bare, Comparator.bare, hbare, hbare, Pattern.oneOf.inj h]
    | _ => cases h
  | range lo hi s =>
    cases c' with
    | range lo' hi' s' =>
      cases h
      rfl
    | _ => cases h

private theorem bare_of_caseLabel {c c' : Option Comparator} (h : caseLabel c = caseLabel c') :
    c.map Comparator.bare = c'.map Comparator.bare := by
  cases c with
  | none =>
    cases c' with
    | none => rfl
    | some c' => cases h
  | some c =>
    cases c' with
    | none => cases h
    | some c' => exact congrArg some (bare_of_pattern (Head.case.inj h))

/-- Of trees with equal lines, the heads and spans are equal, and so is what is below them and after them. -/
private theorem line_inj {head head' : Head} {s s' : Span} {below below' next next' : Forest Label}
    (h : Forest.tree (.line head s) below next = .tree (.line head' s') below' next') :
    head = head' ∧ s = s' ∧ below = below' ∧ next = next' := by
  obtain ⟨hlabel, hbelow, hnext⟩ := Forest.tree.inj h
  obtain ⟨hhead, hspan⟩ := Label.line.inj hlabel
  exact ⟨hhead, hspan, hbelow, hnext⟩

private theorem Expr.forest_ne_nil (e : Expr) (next : Forest Label) : e.forest next ≠ .nil := by
  cases e <;> exact fun h => nomatch h

mutual

/-- The trees of an expression and of what comes after it determine both. -/
private theorem Expr.shown_of_forest : (e e' : Expr) → (next next' : Forest Label) → e.forest next = e'.forest next' →
    e.shown = e'.shown ∧ next = next'
  | .literal v s, e', next, next', h => by
    cases e' with
    | literal v' s' =>
      cases h
      exact ⟨rfl, rfl⟩
    | _ => cases h
  | .name n s, e', next, next', h => by
    cases e' with
    | name n' s' =>
      cases h
      exact ⟨rfl, rfl⟩
    | _ => cases h
  | .call f args s, e', next, next', h => by
    cases e' with
    | call f' args' s' =>
      obtain ⟨hhead, rfl, hargs, rfl⟩ := line_inj h
      have hf := bare_of_name (Head.call.inj hhead)
      have hargs := Expr.shownList_of_forest args args' hargs
      rw [Expr.shown, Expr.shown, hf, hargs]
      exact ⟨rfl, rfl⟩
    | _ => cases h
  | .unary op e s, e', next, next', h => by
    cases e' with
    | unary op' e' s' =>
      obtain ⟨hlabel, he, rfl⟩ := Forest.tree.inj h
      cases hlabel
      have he := (e.shown_of_forest e' _ _ he).1
      rw [Expr.shown, Expr.shown, he]
      exact ⟨rfl, rfl⟩
    | _ => cases h
  | .binary op l r s, e', next, next', h => by
    cases e' with
    | binary op' l' r' s' =>
      obtain ⟨hlabel, hoperands, rfl⟩ := Forest.tree.inj h
      cases hlabel
      obtain ⟨hl, hr⟩ := l.shown_of_forest l' _ _ hoperands
      have hr := (r.shown_of_forest r' _ _ hr).1
      rw [Expr.shown, Expr.shown, hl, hr]
      exact ⟨rfl, rfl⟩
    | _ => cases h

private theorem Expr.shownList_of_forest : (es es' : List Expr) → Expr.forestOfList es = Expr.forestOfList es' →
    Expr.shownList es = Expr.shownList es'
  | [], es', h => by
    cases es' with
    | nil => rfl
    | cons e' es' => exact absurd h.symm (e'.forest_ne_nil _)
  | e :: es, es', h => by
    cases es' with
    | nil => exact absurd h (e.forest_ne_nil _)
    | cons e' es' =>
      obtain ⟨he, hes⟩ := e.shown_of_forest e' _ _ h
      rw [Expr.shownList, Expr.shownList, he, Expr.shownList_of_forest es es' hes]

end

private theorem Expr.map_shown_of_forest {e e' : Option Expr}
    (h : Expr.forestOfList e.toList = Expr.forestOfList e'.toList) : e.map Expr.shown = e'.map Expr.shown := by
  have hlists := Expr.shownList_of_forest _ _ h
  cases e with
  | none =>
    cases e' with
    | none => rfl
    | some e' => cases hlists
  | some e =>
    cases e' with
    | none => cases hlists
    | some e' => exact congrArg some (List.cons.inj hlists).1

private theorem Iterable.shown_of_forest {r r' : Iterable} {next next' : Forest Label}
    (h : r.forest next = r'.forest next') : r.shown = r'.shown ∧ next = next' := by
  cases r with
  | range first last step s =>
    cases r' with
    | range =>
      cases h
      exact ⟨rfl, rfl⟩
    | expr e => cases e <;> cases h
  | expr e =>
    cases r' with
    | range => cases e <;> cases h
    | expr e' =>
      obtain ⟨he, hnext⟩ := e.shown_of_forest e' _ _ h
      exact ⟨congrArg expr he, hnext⟩

private theorem Decl.shown_of_forest {d d' : Decl} (hname : d.name.name = d'.name.name)
    (htype : d.type.map TypeName.ty = d'.type.map TypeName.ty) (hvalue : d.value.forest .nil = d'.value.forest .nil) :
    d.shown = d'.shown := by
  rw [shown, shown, bare_of_name hname, bare_of_type htype, (d.value.shown_of_forest d'.value _ _ hvalue).1]

private theorem Stmt.forest_ne_nil (s : Stmt) (next : Forest Label) : s.forest next ≠ .nil := by
  cases s with
  | item x => cases x <;> exact fun h => nomatch h
  | _ => exact fun h => nomatch h

mutual

/-- The trees of an item and of what comes after it determine both. -/
private theorem Item.shown_of_forest : (x x' : Item) → (next next' : Forest Label) → x.forest next = x'.forest next' →
    x.shown = x'.shown ∧ next = next'
  | .letDecl d s, x', next, next', h => by
    cases x' with
    | letDecl d' s' =>
      obtain ⟨hhead, rfl, hvalue, rfl⟩ := line_inj h
      obtain ⟨hname, htype⟩ := Head.letDecl.inj hhead
      rw [Item.shown, Item.shown, Decl.shown_of_forest hname htype hvalue]
      exact ⟨rfl, rfl⟩
    | _ => cases h
  | .func name params result body s, x', next, next', h => by
    cases x' with
    | func name' params' result' body' s' =>
      obtain ⟨hhead, rfl, hbody, rfl⟩ := line_inj h
      obtain ⟨hname, hparams, hresult⟩ := Head.func.inj hhead
      have hbody := body.shown_of_forest body' hbody
      rw [Item.shown, Item.shown, bare_of_name hname, bare_of_signature hparams, bare_of_type hresult, hbody]
      exact ⟨rfl, rfl⟩
    | _ => cases h

/-- The trees of a statement and of what comes after it determine both. -/
private theorem Stmt.shown_of_forest : (x x' : Stmt) → (next next' : Forest Label) → x.forest next = x'.forest next' →
    x.shown = x'.shown ∧ next = next'
  | .item x, x', next, next', h => by
    cases x' with
    | item x' =>
      obtain ⟨hx, hnext⟩ := x.shown_of_forest x' _ _ h
      exact ⟨congrArg Stmt.item hx, hnext⟩
    | _ => cases x <;> cases h
  | .varDecl d s, x', next, next', h => by
    cases x' with
    | varDecl d' s' =>
      obtain ⟨hhead, rfl, hvalue, rfl⟩ := line_inj h
      obtain ⟨hname, htype⟩ := Head.varDecl.inj hhead
      rw [Stmt.shown, Stmt.shown, Decl.shown_of_forest hname htype hvalue]
      exact ⟨rfl, rfl⟩
    | item x' => cases x' <;> cases h
    | _ => cases h
  | .assign target value s, x', next, next', h => by
    cases x' with
    | assign target' value' s' =>
      obtain ⟨hhead, rfl, hvalue, rfl⟩ := line_inj h
      have htarget := bare_of_name (Head.assign.inj hhead)
      have hvalue := (value.shown_of_forest value' _ _ hvalue).1
      rw [Stmt.shown, Stmt.shown, htarget, hvalue]
      exact ⟨rfl, rfl⟩
    | item x' => cases x' <;> cases h
    | _ => cases h
  | .print args s, x', next, next', h => by
    cases x' with
    | print args' s' =>
      obtain ⟨hlabel, hargs, rfl⟩ := Forest.tree.inj h
      cases hlabel
      rw [Stmt.shown, Stmt.shown, Expr.shownList_of_forest args args' hargs]
      exact ⟨rfl, rfl⟩
    | item x' => cases x' <;> cases h
    | _ => cases h
  | .ret value s, x', next, next', h => by
    cases x' with
    | ret value' s' =>
      obtain ⟨hlabel, hvalue, rfl⟩ := Forest.tree.inj h
      cases hlabel
      rw [Stmt.shown, Stmt.shown, Expr.map_shown_of_forest hvalue]
      exact ⟨rfl, rfl⟩
    | item x' => cases x' <;> cases h
    | _ => cases h
  | .call f args s, x', next, next', h => by
    cases x' with
    | call f' args' s' =>
      obtain ⟨hhead, rfl, hargs, rfl⟩ := line_inj h
      have hf := bare_of_name (Head.call.inj hhead)
      rw [Stmt.shown, Stmt.shown, hf, Expr.shownList_of_forest args args' hargs]
      exact ⟨rfl, rfl⟩
    | item x' => cases x' <;> cases h
    | _ => cases h
  | .forLoop var iterable body s, x', next, next', h => by
    cases x' with
    | forLoop var' iterable' body' s' =>
      obtain ⟨hhead, rfl, hparts, rfl⟩ := line_inj h
      have hvar := bare_of_name (Head.forLoop.inj hhead)
      obtain ⟨hiterable, hparts⟩ := Iterable.shown_of_forest hparts
      have hbody := body.shown_of_forest body' (Forest.tree.inj hparts).2.1
      rw [Stmt.shown, Stmt.shown, hvar, hiterable, hbody]
      exact ⟨rfl, rfl⟩
    | item x' => cases x' <;> cases h
    | _ => cases h
  | .whileLoop cond body s, x', next, next', h => by
    cases x' with
    | whileLoop cond' body' s' =>
      obtain ⟨hlabel, hparts, rfl⟩ := Forest.tree.inj h
      cases hlabel
      obtain ⟨hcond, hparts⟩ := cond.shown_of_forest cond' _ _ hparts
      have hbody := body.shown_of_forest body' (Forest.tree.inj hparts).2.1
      rw [Stmt.shown, Stmt.shown, hcond, hbody]
      exact ⟨rfl, rfl⟩
    | item x' => cases x' <;> cases h
    | _ => cases h
  | .ifThen cond body s, x', next, next', h => by
    cases x' with
    | ifThen cond' body' s' =>
      obtain ⟨hlabel, hparts, rfl⟩ := Forest.tree.inj h
      cases hlabel
      obtain ⟨hcond, hparts⟩ := cond.shown_of_forest cond' _ _ hparts
      have hbody := body.shown_of_forest body' (Forest.tree.inj hparts).2.1
      rw [Stmt.shown, Stmt.shown, hcond, hbody]
      exact ⟨rfl, rfl⟩
    | ifElse cond' body' other' s' =>
      -- there is no tree of an `else`
      obtain ⟨-, hparts, -⟩ := Forest.tree.inj h
      obtain ⟨-, hparts⟩ := cond.shown_of_forest cond' _ _ hparts
      cases (Forest.tree.inj hparts).2.2
    | item x' => cases x' <;> cases h
    | _ => cases h
  | .ifElse cond body other s, x', next, next', h => by
    cases x' with
    | ifThen cond' body' s' =>
      obtain ⟨-, hparts, -⟩ := Forest.tree.inj h
      obtain ⟨-, hparts⟩ := cond.shown_of_forest cond' _ _ hparts
      cases (Forest.tree.inj hparts).2.2
    | ifElse cond' body' other' s' =>
      obtain ⟨hlabel, hparts, rfl⟩ := Forest.tree.inj h
      cases hlabel
      obtain ⟨hcond, hparts⟩ := cond.shown_of_forest cond' _ _ hparts
      obtain ⟨-, hbody, hother⟩ := Forest.tree.inj hparts
      have hbody := body.shown_of_forest body' hbody
      have hother := other.shown_of_forest other' (Forest.tree.inj hother).2.1
      rw [Stmt.shown, Stmt.shown, hcond, hbody, hother]
      exact ⟨rfl, rfl⟩
    | item x' => cases x' <;> cases h
    | _ => cases h
  | .switch subject cases s, x', next, next', h => by
    cases x' with
    | switch subject' cases' s' =>
      obtain ⟨hlabel, hparts, rfl⟩ := Forest.tree.inj h
      cases hlabel
      obtain ⟨hsubject, hcases⟩ := subject.shown_of_forest subject' _ _ hparts
      rw [Stmt.shown, Stmt.shown, hsubject, shownCases_of_forest cases cases' hcases]
      exact ⟨rfl, rfl⟩
    | item x' => cases x' <;> cases h
    | _ => cases h

private theorem Block.shown_of_forest : (b b' : Block) → b.forest = b'.forest → b.shown = b'.shown
  | .mk stmts _, .mk stmts' _, h => by
    rw [Block.shown, Block.shown, shownStmts_of_forest stmts stmts' h]

private theorem shownStmts_of_forest : (ss ss' : List Stmt) → forestOfStmts ss = forestOfStmts ss' →
    shownStmts ss = shownStmts ss'
  | [], ss', h => by
    cases ss' with
    | nil => rfl
    | cons s' ss' => exact absurd h.symm (s'.forest_ne_nil _)
  | s :: ss, ss', h => by
    cases ss' with
    | nil => exact absurd h (s.forest_ne_nil _)
    | cons s' ss' =>
      obtain ⟨hs, hss⟩ := s.shown_of_forest s' _ _ h
      rw [shownStmts, shownStmts, hs, shownStmts_of_forest ss ss' hss]

private theorem shownCases_of_forest : (cs cs' : List Case) → forestOfCases cs = forestOfCases cs' →
    shownCases cs = shownCases cs'
  | [], cs', h => by
    cases cs' with
    | nil => rfl
    | cons c' cs' =>
      cases c'
      cases h
  | .mk c body s :: cs, cs', h => by
    cases cs' with
    | nil => cases h
    | cons c' cs' =>
      obtain ⟨c', body', s'⟩ := c'
      obtain ⟨hhead, rfl, hbody, hcs⟩ := line_inj h
      have hc := bare_of_caseLabel hhead
      have hbody := body.shown_of_forest body' hbody
      rw [shownCases, shownCases, Case.shown, Case.shown, hc, hbody, shownCases_of_forest cs cs' hcs]

end

/-- The trees of a program determine all but the places that a dump leaves out. -/
theorem Program.shown_of_forest {p p' : Program} (h : p.forest = p'.forest) : p.shown = p'.shown := by
  obtain ⟨is⟩ := p
  obtain ⟨is'⟩ := p'
  have hne (x : Item) (next : Forest Label) : x.forest next ≠ .nil := by
    cases x <;> exact fun h => nomatch h
  replace h : forestOfItems is = forestOfItems is' := h
  refine congrArg Program.mk ?_
  show is.map Item.shown = is'.map Item.shown
  induction is generalizing is' with
  | nil =>
    cases is' with
    | nil => rfl
    | cons x' is' => exact absurd h.symm (hne x' _)
  | cons x is ih =>
    cases is' with
    | nil => exact absurd h (hne x _)
    | cons x' is' =>
      obtain ⟨hx, his⟩ := x.shown_of_forest x' _ _ h
      rw [List.map_cons, List.map_cons, hx, ih is' his]

end Scriptlet
