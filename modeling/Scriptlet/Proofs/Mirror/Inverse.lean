import Scriptlet.Proofs.Double.Notation
import Scriptlet.Proofs.Mirror.Basic
import Scriptlet.Proofs.Mirror.Raise
import Scriptlet.Proofs.Readable.Basic

/-!
# A representation says what it stands for

`Program.Becomes.raise_eq`: a representation that stands for a readable program reads back as this program, without
places and without the types of variables, and with the default cases apart.
-/

namespace Scriptlet

/-! ### Constants -/

/-- The canonical decimal of an integer reads back as it. -/
theorem Text.IsDecimal.integer_eq {n : Int} {text : String} (h : IsDecimal n text) : integer text.toList = n := by
  obtain ⟨digits, hdigits, -, hvalue, htext⟩ := h
  rw [htext]
  split
  · rw [integer, hvalue]
    omega
  · have hinteger : integer digits = digitsValue digits := by
      unfold integer
      split
      · exact absurd (hdigits.2 '-' (List.mem_cons_self ..)) Bool.false_ne_true
      · rfl
    rw [hinteger, hvalue]
    omega

/-- The value of a readable constant reads back as this constant. -/
private theorem Literal.Becomes.raise_eq {l : Literal} {v : Value} (h : l.Becomes v) (hr : l.Readable) :
    v.raise = .literal l .blank := by
  cases h with
  | int h => rw [Value.raise, Literal.ofAtom, h.integer_eq]
  | double h =>
    rw [Value.raise, Literal.ofAtom, (h hr.1).ofText?_eq hr.1 hr.2]
    rfl
  | string | true | false => rfl

/-- A constant is found by its type and its text. -/
theorem Literal.ofAtom_atomText {l : Literal} (h : l.Readable) : Literal.ofAtom l.ty l.atomText = l := by
  have hraise := l.becomes_ofLiteral.raise_eq h
  rw [Value.ofLiteral, Value.raise] at hraise
  exact (Expr.literal.inj hraise).1

section Constants

variable {c : Const} {x : Var}

private theorem Const.Becomes.literal_eq (h : c.Becomes x) (hr : c.literal.Readable) : x.literal = c.literal := by
  cases h with
  | mk h => rw [Var.literal, Var.raise, h.raise_eq hr]

private theorem Const.Becomes.integer_eq {n : Int} {span : Span} (h : Const.Becomes ⟨.int n, span⟩ x) :
    x.integer = n := by
  rw [Var.integer, h.literal_eq trivial]

private theorem Const.Becomes.const_eq (h : c.Becomes x) (hr : c.literal.Readable) : x.const = c.bare := by
  rw [Var.const, h.literal_eq hr, Const.bare]

end Constants

/-! ### Expressions -/

private theorem UnaryOp.find?_all (u : UnaryOp) : UnaryOp.all.find? (·.opName == u.opName) = some u := by
  cases u <;> decide

private theorem BinaryOp.find?_all (b : BinaryOp) : BinaryOp.all.find? (·.opName == b.opName) = some b := by
  cases b <;> decide

private theorem find?_unary_eq_none {op : String} (h : op ∉ OpName.reserved) :
    UnaryOp.all.find? (·.opName == op) = none := by
  refine List.find?_eq_none.2 fun u hu heq => h ?_
  exact List.mem_append_left _ (List.mem_append_left _ (List.mem_map.2 ⟨u, hu, beq_iff_eq.1 heq⟩))

private theorem find?_binary_eq_none {op : String} (h : op ∉ OpName.reserved) :
    BinaryOp.all.find? (·.opName == op) = none := by
  refine List.find?_eq_none.2 fun b hb heq => h ?_
  exact List.mem_append_left _ (List.mem_append_right _ (List.mem_map.2 ⟨b, hb, beq_iff_eq.1 heq⟩))

private theorem Expr.ofApplication_unary (u : UnaryOp) (e : Expr) :
    Expr.ofApplication u.opName [e] = .unary u e .blank := by
  simp [Expr.ofApplication, UnaryOp.find?_all]

private theorem Expr.ofApplication_binary (b : BinaryOp) (l r : Expr) :
    Expr.ofApplication b.opName [l, r] = .binary b l r .blank := by
  simp [Expr.ofApplication, BinaryOp.find?_all]

private theorem Expr.ofApplication_call {f : String} (h : f ∉ OpName.reserved) (es : List Expr) :
    Expr.ofApplication f es = .call ⟨f, .blank⟩ es .blank := by
  simp [Expr.ofApplication, find?_unary_eq_none h, find?_binary_eq_none h]

mutual

/-- The value of a readable expression reads back as this expression. -/
private theorem Expr.Becomes.raise_eq {e : Expr} {v : Value} (h : e.Becomes v) (hr : e.Readable) :
    v.raise = e.bare := by
  cases h with
  | literal span hl => exact hl.raise_eq hr
  | name n span b => rfl
  | call f span hargs =>
    rw [Value.raise, hargs.raise_eq hr.2, Expr.ofApplication_call hr.1, Expr.bare, Ident.bare]
  | unary ty span hop he =>
    obtain rfl := UnaryOp.mem_names.1 hop
    rw [Value.raise, Var.raiseList, Var.raiseList, Var.raise, he.raise_eq hr, Expr.ofApplication_unary, Expr.bare]
  | binary ty ty' span hop hl hr' =>
    obtain rfl := BinaryOp.mem_names.1 hop
    simp only [Value.raise, Var.raiseList, Var.raise, hl.raise_eq hr.1, hr'.raise_eq hr.2,
      Expr.ofApplication_binary, Expr.bare]

/-- The arguments of readable expressions read back as these. -/
private theorem Expr.AllBecome.raise_eq {es : List Expr} {vars : List Var} (h : Expr.AllBecome es vars)
    (hr : Expr.AllReadable es) : Var.raiseList vars = Expr.bareList es := by
  cases h with
  | nil => rfl
  | cons ty he hes => rw [Var.raiseList, Var.raise, he.raise_eq hr.1, hes.raise_eq hr.2, Expr.bareList]

end

private theorem Expr.AllBecome.map_raise_eq {es : List Expr} {vars : List Var} (h : Expr.AllBecome es vars)
    (hr : Expr.AllReadable es) : vars.map Var.raise = es.map Expr.bare := by
  rw [← Var.raiseList_eq, h.raise_eq hr, Expr.bareList_eq]

/-! ### Guards -/

private theorem Iterable.Becomes.ofGuard_eq {i : Iterable} {guard : Value} (h : i.Becomes guard) (hr : i.Readable) :
    Iterable.ofGuard guard = i.bare := by
  cases h with
  | range hx hy hz =>
    simp [Iterable.ofGuard, Value.application, hx.integer_eq, hy.integer_eq, hz.integer_eq, Iterable.bare]
  | expr ty he => simp [Iterable.ofGuard, Value.application, Var.raise, he.raise_eq hr, Iterable.bare]

/-- The guard of a case has the subject of its `switch`. -/
private theorem Comparator.Becomes.subject?_eq {subject : Var} {c : Comparator} {guard : Value}
    (h : c.Becomes subject guard) : guard.subject? = some subject := by
  cases h <;> rfl

private theorem map_const {cs : List Const} {xs : List Var} (h : List.Forall₂ Const.Becomes cs xs)
    (hr : ∀ c ∈ cs, c.literal.Readable) : xs.map Var.const = cs.map Const.bare := by
  induction h with
  | nil => rfl
  | cons hc _ ih =>
    obtain ⟨hr, hrs⟩ := List.forall_mem_cons.1 hr
    rw [List.map_cons, List.map_cons, hc.const_eq hr, ih hrs]

private theorem ofApplication_caseOf (args : List Var) :
    Comparator.ofApplication "$caseOf" args = .oneOf (args.map Var.const) := by
  unfold Comparator.ofApplication
  split <;> rfl

/-- The guard of a case reads back as what the case matches. -/
private theorem Comparator.Becomes.ofGuard_eq {subject : Var} {c : Comparator} {guard : Value}
    (h : c.Becomes subject guard) (hr : ∀ k ∈ c.consts, k.literal.Readable) : Comparator.ofGuard guard = c.bare := by
  cases h with
  | @const c x hc =>
    have hconst := hc.const_eq (hr c (List.mem_singleton.2 rfl))
    simp [Comparator.ofGuard, Value.application, Comparator.ofApplication, OpName.caseIs, hconst, Comparator.bare]
  | oneOf hcs =>
    simp only [Comparator.ofGuard, Value.application, List.tail_cons, ofApplication_caseOf, map_const hcs hr,
      Comparator.bare]
  | range hx hy =>
    simp [Comparator.ofGuard, Value.application, Comparator.ofApplication, OpName.caseIn, hx.integer_eq, hy.integer_eq,
      Comparator.bare]

/-! ### Signatures -/

private theorem zipWith_params (params : List Param) :
    List.zipWith (fun p ty => (⟨⟨p, .blank⟩, ⟨ty, .blank⟩⟩ : Param)) (params.map (·.name.name))
      (params.map (·.type.ty)) = params.map Param.bare := by
  induction params with
  | nil => rfl
  | cons p params ih => simp [ih, Param.bare, Ident.bare, TypeName.bare]

private theorem resultType_bare (result : Option TypeName) :
    resultType (some ⟨(result.map TypeName.ty).getD .void, .blank⟩) = resultType (result.map TypeName.bare) := by
  cases result <;> rfl

private theorem Item.ofSignature_signatureOf (name : String) (params : List Param) (result : Option TypeName)
    (body : Block) : Item.ofSignature name (params.map (·.name.name)) (signatureOf params result) body =
      .func ⟨name, .blank⟩ (params.map Param.bare) (resultType (result.map TypeName.bare)) body .blank := by
  simp only [Item.ofSignature, signatureOf, zipWith_params, resultType_bare]

/-! ### Statements of one entry -/

section Actions

variable {es : List Expr} {vars : List Var}

private theorem ofAction_assign {target : Ident} {value : Expr} {v : Value} (h : value.Becomes v) (hr : value.Readable)
    (b : BindingId) (ty ty' : Ty) (span span' : Span) :
    Stmt.ofAction "$assign" [.mk (.ref target.name b) ty span true, .mk v ty' span' false] =
      .assign target.bare value.bare .blank := by
  simp [Stmt.ofAction, OpName.assign, Var.raise, Value.raise, h.raise_eq hr, Ident.bare]

private theorem ofAction_print (h : Expr.AllBecome es vars) (hr : Expr.AllReadable es) :
    Stmt.ofAction "print" vars = .print (es.map Expr.bare) .blank := by
  simp [Stmt.ofAction, OpName.assign, OpName.print, h.map_raise_eq hr]

private theorem ofAction_ret {value : Option Expr} (h : Expr.AllBecome value.toList vars)
    (hr : Expr.AllReadable value.toList) : Stmt.ofAction "$return" vars = .ret (value.map Expr.bare) .blank := by
  simp only [Stmt.ofAction, h.map_raise_eq hr]
  cases value <;> simp [OpName.assign, OpName.print, OpName.ret]

private theorem ofAction_call {f : Ident} (hf : f.name ∉ OpName.reserved) (h : Expr.AllBecome es vars)
    (hr : Expr.AllReadable es) : Stmt.ofAction f.name vars = .call f.bare (es.map Expr.bare) .blank := by
  have hne : f.name ≠ OpName.assign ∧ f.name ≠ OpName.print ∧ f.name ≠ OpName.ret := by
    refine ⟨?_, ?_, ?_⟩ <;> rintro heq <;> refine hf (heq ▸ ?_) <;> decide
  simp [Stmt.ofAction, hne, h.map_raise_eq hr, Ident.bare]

end Actions

/-! ### Numbers of scopes -/

section Blocks

variable {ir : Ir}

mutual

private theorem Item.Becomes.le {i : Item} {n n' : Nat} {es : List Entry} (h : Item.Becomes ir i n es n') : n ≤ n' := by
  cases h with
  | letDecl => exact Nat.le_refl n
  | func _ _ _ hb => exact Nat.le_of_lt hb.lt

private theorem Stmt.Becomes.le {s : Stmt} {n n' : Nat} {es : List Entry} (h : Stmt.Becomes ir s n es n') : n ≤ n' := by
  cases h with
  | item hi => exact hi.le
  | varDecl | assign | print | ret | call => exact Nat.le_refl n
  | forLoop _ _ _ hb => exact Nat.le_of_lt hb.lt
  | whileLoop _ _ hb => exact Nat.le_of_lt hb.lt
  | ifThen _ _ hb => exact Nat.le_of_lt hb.lt
  | ifElse _ _ hb ho => exact Nat.le_of_lt (Nat.lt_trans hb.lt ho.lt)
  | switch _ _ _ hc => exact hc.le

private theorem Block.Becomes.lt {b : Block} {n n' : Nat} (h : Block.Becomes ir b n n') : n < n' := by
  cases h with
  | mk _ hs => exact hs.le

private theorem StmtsBecome.le {ss : List Stmt} {n n' : Nat} {es : List Entry} (h : StmtsBecome ir ss n es n') :
    n ≤ n' := by
  cases h with
  | nil => exact Nat.le_refl n
  | cons hs hss => exact Nat.le_trans hs.le hss.le

private theorem CasesBecome.le {subject : Var} {cs : List Case} {n n' : Nat} {es : List Entry}
    (h : CasesBecome ir subject cs n es n') : n ≤ n' := by
  cases h with
  | nil => exact Nat.le_refl n
  | case _ _ hb hcs => exact Nat.le_of_lt (Nat.lt_of_lt_of_le hb.lt hcs.le)
  | default _ hb => exact Nat.le_of_lt hb.lt

end

private theorem ItemsBecome.le {is : List Item} {n n' : Nat} {es : List Entry} (h : ItemsBecome ir is n es n') :
    n ≤ n' := by
  induction h with
  | nil => exact Nat.le_refl _
  | cons hi _ ih => exact Nat.le_trans hi.le ih

/-! ### The first entry -/

variable {n n' : Nat} {es after : List Entry}

/-- The first entry of a statement is no `else`, and if it is a guarded case, its subject is that of the statement. -/
private theorem Stmt.Becomes.head {s : Stmt} (h : Stmt.Becomes ir s n es n') (ha : firstElse? after = none) :
    firstElse? (es ++ after) = none ∧
      ∀ span, firstSubject? (es ++ after) = some span →
        s.subjectSpan? = some span ∨ firstSubject? after = some span := by
  cases h with
  | item hi => cases hi <;> exact ⟨rfl, fun _ h => by cases h⟩
  | switch _ _ _ hc =>
    cases hc with
    | nil => exact ⟨ha, fun _ h => .inr h⟩
    | case _ hg _ _ =>
      refine ⟨rfl, fun span h => .inl ?_⟩
      simpa [firstSubject?, hg.subject?_eq, Var.span, Stmt.subjectSpan?] using h
    | default => exact ⟨rfl, fun _ h => by cases h⟩
  | _ => exact ⟨rfl, fun _ h => by cases h⟩

private theorem StmtsBecome.head {ss : List Stmt} (h : StmtsBecome ir ss n es n') :
    firstElse? es = none ∧ ∀ span, firstSubject? es = some span → span ∈ ss.filterMap Stmt.subjectSpan? := by
  induction ss generalizing n es with
  | nil =>
    cases h
    exact ⟨rfl, fun _ h => by cases h⟩
  | cons s ss ih =>
    cases h with
    | cons hs hss =>
      obtain ⟨helse, hsubject⟩ := ih hss
      obtain ⟨helse', hsubject'⟩ := hs.head helse
      refine ⟨helse', fun span h => ?_⟩
      rw [List.mem_filterMap]
      rcases hsubject' span h with h | h
      · exact ⟨s, List.mem_cons_self .., h⟩
      · obtain ⟨t, ht, hspan⟩ := List.mem_filterMap.1 (hsubject span h)
        exact ⟨t, List.mem_cons_of_mem s ht, hspan⟩

/-- The entries of cases begin with a guarded one, unless there is only a default case. -/
private theorem CasesBecome.head {subject : Var} {cs : List Case} (h : CasesBecome ir subject cs n es n')
    (ha : firstSubject? after ≠ some subject.span) :
    firstSubject? (es ++ after) = some subject.span ↔ cs.any (·.comparator.isSome) = true := by
  cases h with
  | nil => simpa using ha
  | default => simp [firstSubject?, Case.comparator]
  | case _ hg => simp [firstSubject?, hg.subject?_eq, Case.comparator]

private theorem any_comparator (cs : List Case) : (splitCases (untypedCases (bareCases cs))).any (·.comparator.isSome) =
    cs.any (·.comparator.isSome) := by
  induction cs with
  | nil => rfl
  | cons c cs ih =>
    obtain ⟨comparator, body, span⟩ := c
    simp only [bareCases, Case.bare, untypedCases, Case.untyped, splitCases, Case.split, List.any_cons, ih]
    simp only [Case.comparator, Option.isSome_map]

/-! ### Statements -/

section Entries

variable {inner : ScopeId → Block} {e : Entry}

private theorem raiseStmts_item {i : Item} (h : raiseItem? ir inner e = some i) (es : List Entry) :
    raiseStmts ir inner (e :: es) = .item i :: raiseStmts ir inner es := by
  rw [raiseStmts, h]

private theorem raiseStmts_entry (h : raiseItem? ir inner e = none) (es : List Entry) :
    raiseStmts ir inner (e :: es) = raiseEntry inner e es (raiseStmts ir inner es) := by
  rw [raiseStmts, h]

/-- An `else` is part of the statement before it. -/
private theorem raiseStmts_else (born : List String) (guard : Option Value) (id : ScopeId) (es : List Entry) :
    raiseStmts ir inner (.scoped .elseBranch born guard id :: es) = raiseStmts ir inner es := raiseStmts_entry rfl es

/-- A guarded case before others of the same `switch` becomes the first of them, and before its default case it makes
a `switch` of its own. -/
private theorem raiseEntry_case {subject : Var} {c : Comparator} {guard : Value} {body : Block} {cs : List Case}
    {id : ScopeId} {ss : List Stmt} (hg : c.Becomes subject guard) (hc : ∀ k ∈ c.consts, k.literal.Readable)
    (hb : inner id = body) (h : firstSubject? es = some subject.span ↔ cs.any (·.comparator.isSome) = true) :
    raiseEntry inner (.scoped .caseBranch [] (some guard) id) es
        (splitSwitch subject.raise cs .blank ++ ss) =
      splitSwitch subject.raise (.mk (some c.bare) body .blank :: cs) .blank ++ ss := by
  have hfilter : cs.filter (·.comparator.isSome) = [] ↔ ¬ cs.any (·.comparator.isSome) = true := by
    rw [List.filter_eq_nil_iff, List.any_eq_true]
    simp only [not_exists, not_and]
  simp only [raiseEntry, hg.subject?_eq, hg.ofGuard_eq hc, hb, Option.map_some, h,
    splitSwitch_cons]
  rcases hcs : cs.filter (·.comparator.isSome) with - | ⟨c', cs'⟩
  · rw [if_neg (hfilter.1 hcs)]
    simp [splitSwitch, hcs]
  · have hany : cs.any (·.comparator.isSome) = true := by
      by_contra hany
      rw [hfilter.2 hany] at hcs
      cases hcs
    rw [if_pos hany]
    simp only [splitSwitch, hcs]
    rfl

end Entries

mutual

private theorem Item.Becomes.raise_eq {i : Item} {n n' depth : Nat} {es : List Entry} (h : Item.Becomes ir i n es n')
    (hr : i.Readable) (hd : n' ≤ n + depth) :
    ∃ e, es = [e] ∧ raiseItem? ir (ir.raiseBlock depth) e = some i.bare.untyped.split := by
  cases h with
  | letDecl ty span hv =>
    refine ⟨_, rfl, ?_⟩
    simp [raiseItem?, Var.mutable, Decl.ofVar, Var.raise, hv.raise_eq hr, Item.bare, Decl.bare, Ident.bare,
      Item.untyped, Decl.untyped, Item.split]
  | func span hname hsig hb =>
    refine ⟨_, rfl, ?_⟩
    simp [raiseItem?, hname, hsig, Item.ofSignature_signatureOf, hb.raise_eq hr hd, Item.bare, Ident.bare,
      Item.untyped, Item.split]
termination_by sizeOf i

private theorem Stmt.Becomes.raise_eq {s : Stmt} {n n' depth : Nat} {es after : List Entry}
    (h : Stmt.Becomes ir s n es n') (hr : s.Readable) (hd : n' ≤ n + depth) (helse : firstElse? after = none)
    (hsubject : ∀ span ∈ s.subjectSpan?, firstSubject? after ≠ some span) :
    raiseStmts ir (ir.raiseBlock depth) (es ++ after) =
      s.bare.untyped.split ++ raiseStmts ir (ir.raiseBlock depth) after := by
  cases h with
  | item hi =>
    obtain ⟨e, rfl, he⟩ := hi.raise_eq hr hd
    exact raiseStmts_item he after
  | varDecl ty span hv =>
    refine (raiseStmts_entry (by simp [raiseItem?, Var.mutable]) after).trans ?_
    simp [raiseEntry, Decl.ofVar, Var.raise, hv.raise_eq hr, Stmt.bare, Decl.bare, Ident.bare, Stmt.untyped,
      Decl.untyped, Stmt.split]
  | assign target b ty ty' span hv =>
    refine (raiseStmts_entry rfl after).trans ?_
    simp [raiseEntry, ofAction_assign hv hr, Stmt.bare, Stmt.untyped, Stmt.split]
  | print span hargs =>
    refine (raiseStmts_entry rfl after).trans ?_
    simp [raiseEntry, ofAction_print hargs hr, Stmt.bare, Stmt.untyped, Stmt.split]
  | ret span hargs =>
    refine (raiseStmts_entry rfl after).trans ?_
    simp [raiseEntry, ofAction_ret hargs hr, Stmt.bare, Stmt.untyped, Stmt.split]
  | call callee span hargs =>
    refine (raiseStmts_entry rfl after).trans ?_
    simp [raiseEntry, ofAction_call hr.1 hargs hr.2, Stmt.bare, Stmt.untyped, Stmt.split]
  | forLoop var span hi hb =>
    refine (raiseStmts_entry rfl after).trans ?_
    simp [raiseEntry, Stmt.ofLoop, hi.ofGuard_eq hr.1, hb.raise_eq hr.2 hd, Stmt.bare, Ident.bare, Stmt.untyped,
      Stmt.split]
  | whileLoop span hc hb =>
    refine (raiseStmts_entry rfl after).trans ?_
    simp [raiseEntry, Stmt.ofLoop, hc.raise_eq hr.1, hb.raise_eq hr.2 hd, Stmt.bare, Stmt.untyped, Stmt.split]
  | ifThen span hc hb =>
    refine (raiseStmts_entry rfl after).trans ?_
    simp [raiseEntry, helse, Stmt.ofBranch, hc.raise_eq hr.1, hb.raise_eq hr.2 hd, Stmt.bare, Stmt.untyped, Stmt.split]
  | ifElse span hc hb ho =>
    have hlt := hb.lt
    have hlt' := ho.lt
    have hbody := hb.raise_eq hr.2.1 (Nat.le_trans (Nat.le_of_lt hlt') hd)
    have hother := ho.raise_eq hr.2.2 (Nat.le_trans hd (Nat.add_le_add_right (Nat.le_of_lt hlt) depth))
    refine (raiseStmts_entry rfl _).trans ?_
    simp [raiseStmts_else, raiseEntry, firstElse?, Stmt.ofBranch, hc.raise_eq hr.1, hbody, hother, Stmt.bare,
      Stmt.untyped, Stmt.split]
  | @switch subject v _ _ _ _ ty span hv hc =>
    have hraise : (Var.mk v ty subject.span false).raise = subject.bare := hv.raise_eq hr.1
    rw [hc.raise_eq hr.2 hd (hsubject _ rfl), hraise, Stmt.bare, Stmt.untyped, Stmt.split]
termination_by sizeOf s

private theorem Block.Becomes.raise_eq {b : Block} {n n' depth : Nat} (h : Block.Becomes ir b n n') (hr : b.Readable)
    (hd : n' ≤ n + depth) : ir.raiseBlock depth n = b.bare.untyped.split := by
  have hlt := h.lt
  cases h with
  | mk span hs =>
    obtain ⟨depth, rfl⟩ : ∃ d, depth = d + 1 := ⟨depth - 1, by omega⟩
    rw [Ir.raiseBlock, hs.raise_eq hr.1 hr.2 (by omega), Block.bare, Block.untyped, Block.split]
termination_by sizeOf b

private theorem StmtsBecome.raise_eq {ss : List Stmt} {n n' depth : Nat} {es : List Entry}
    (h : StmtsBecome ir ss n es n') (hr : StmtsReadable ss) (hn : (ss.filterMap Stmt.subjectSpan?).Nodup)
    (hd : n' ≤ n + depth) :
    raiseStmts ir (ir.raiseBlock depth) es = splitStmts (untypedStmts (bareStmts ss)) := by
  cases h with
  | nil => rfl
  | @cons s ss es es' _ m _ hs hss =>
    have hle := hs.le
    have hle' := hss.le
    obtain ⟨helse, hfirst⟩ := hss.head
    have hsubject : ∀ span ∈ s.subjectSpan?, firstSubject? es' ≠ some span := by
      intro span hspan hes
      rw [List.filterMap_cons_some hspan, List.nodup_cons] at hn
      exact hn.1 (hfirst span hes)
    have hnodup : (ss.filterMap Stmt.subjectSpan?).Nodup := hn.sublist ((List.sublist_cons_self s ss).filterMap _)
    rw [hs.raise_eq hr.1 (Nat.le_trans hle' hd) helse hsubject,
      hss.raise_eq hr.2 hnodup (Nat.le_trans hd (Nat.add_le_add_right hle depth)), bareStmts, untypedStmts, splitStmts]
termination_by sizeOf ss

private theorem CasesBecome.raise_eq {subject : Var} {cs : List Case} {n n' depth : Nat} {es after : List Entry}
    (h : CasesBecome ir subject cs n es n') (hr : CasesReadable cs) (hd : n' ≤ n + depth)
    (hsubject : firstSubject? after ≠ some subject.span) : raiseStmts ir (ir.raiseBlock depth) (es ++ after) =
      splitSwitch subject.raise (splitCases (untypedCases (bareCases cs))) .blank ++
        raiseStmts ir (ir.raiseBlock depth) after := by
  cases h with
  | nil => rfl
  | default span hb =>
    refine (raiseStmts_entry rfl after).trans ?_
    simp [raiseEntry, hb.raise_eq hr.1.2 hd, bareCases, Case.bare, untypedCases, Case.untyped, splitCases, Case.split,
      splitSwitch, Case.comparator]
  | @case _ c _ body cs es _ m _ span hg hb hcs =>
    have hlt := hb.lt
    have hbody := hb.raise_eq hr.1.2 (Nat.le_trans hcs.le hd)
    have hrest := hcs.raise_eq hr.2 (Nat.le_trans hd (Nat.add_le_add_right (Nat.le_of_lt hlt) depth)) hsubject
    have hfirst := hcs.head hsubject
    rw [← any_comparator] at hfirst
    refine (raiseStmts_entry rfl (es ++ after)).trans ?_
    rw [hrest, raiseEntry_case hg (hr.1.1 c rfl) hbody hfirst, bareCases, Case.bare, untypedCases, Case.untyped,
      splitCases, Case.split, Option.map_some]
termination_by sizeOf cs

end

/-! ### Programs -/

private theorem ItemsBecome.raise_eq {is : List Item} {n n' depth : Nat} {es : List Entry}
    (h : ItemsBecome ir is n es n') (hr : ∀ i ∈ is, i.Readable) (hd : n' ≤ depth) :
    es.filterMap (raiseItem? ir (ir.raiseBlock depth)) = is.map fun i => i.bare.untyped.split := by
  induction h with
  | nil => rfl
  | cons hi his ih =>
    rw [List.forall_mem_cons] at hr
    obtain ⟨e, rfl, he⟩ := hi.raise_eq hr.1 (Nat.le_trans (Nat.le_trans his.le hd) (Nat.le_add_left depth _))
    rw [List.singleton_append, List.filterMap_cons_some he, ih hr.2 hd, List.map_cons]

/-- What stands for a readable program reads back as it. -/
theorem Program.Becomes.raise_eq {p : Program} (h : p.Becomes ir) (hr : p.Readable) : ir.raise = p.plain.split := by
  have hitems := ItemsBecome.raise_eq h hr (Nat.le_refl _)
  simp only [Ir.raise, hitems, Program.plain, Program.bare, Program.untyped, Program.split, List.map_map]
  rfl

end Blocks

end Scriptlet
