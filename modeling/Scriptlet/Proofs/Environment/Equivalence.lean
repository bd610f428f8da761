import Scriptlet.Proofs.Environment.Expressions

/-!
# The check and the environments agree

Whatever the program, `typecheck` accepts it exactly if `Env.check` does, and otherwise both report the same violated
rule at the same place.  A state of the check is followed through every statement together with an environment that
represents it (`checkStmt_agrees`), and a block that ends leaves the environment of the block around it in force
because the relation speaks of all open scopes at once.
-/

namespace Scriptlet

open Typing Checker

variable {l : Layer} {stack : List Layer} {s : Typing.State} {Γ : Env}

/-- A state after a part of the check, and an environment. -/
def Represented (stack : List Layer) (r : Unit × Typing.State) (Γ : Env) : Prop := Represents stack r.2 Γ

/-! ### Simple statements -/

private theorem checkDecl_agrees (h : Represents (l :: stack) s Γ) (d : Decl) (span : Span) (mutable : Bool) :
    Agree (Represented (l :: stack)) (after (checkDecl l.scope d span mutable) s) (Γ.checkDecl d span mutable) := by
  unfold checkDecl Env.checkDecl
  simp only [after_bind, after_getIr, after_lift, ok_bind, lowered_bind]
  refine (lower_agrees h d.value).bind fun r ty hr => ?_
  subst hr
  by_cases hvoid : r.2 = .void
  · simp only [hvoid]
    exact .error _
  · rw [if_neg hvoid, if_neg hvoid]
    simp only [after_bind, after_lift, after_perform, lowered_bind]
    have hdeclare := h.declare d.name.name (.mk r.1 r.2 span mutable)
    cases d.type with
    | none => exact .ok hdeclare
    | some written =>
      simp only [annotationOk]
      by_cases hw : written.ty = r.2
      · rw [if_pos hw, if_neg (not_not_intro hw)]
        exact .ok hdeclare
      · rw [if_neg hw, if_pos hw]
        exact .error _

private theorem act_agrees {c : Ir → Checked (List Var)} {y : Checked Unit} (h : Represents (l :: stack) s Γ)
    (hc : Agree (fun _ _ => True) (c s.ir) y) (op : String) : Agree (Represented (l :: stack))
      (after (getIr >>= fun ir => lift (c ir) >>= fun args => Checker.perform (.act l.scope op args)) s)
      (y >>= fun _ => .ok Γ) := by
  rw [after_found]
  exact hc.bind fun args _ _ => .ok (h.act op args)

/-! ### Functions -/

/-- The parameters before the first repeated name, and that name. -/
private theorem parameters_agree (seen : List String) (before : List Local) (ps : List Param)
    (h : ∀ n, n ∈ seen ↔ before.any (·.name = n)) :
    (∃ p, (splitParams seen ps).2 = some p ∧
      Env.parameters before ps = .error ⟨p.name.span, .duplicateParam p.name.name⟩) ∨
    ((splitParams seen ps).2 = none ∧ (splitParams seen ps).1 = ps ∧ Env.parameters before ps =
      .ok ((ps.map fun p => Local.ofVar (paramBinding p).1 (paramBinding p).2).reverse ++ before)) := by
  induction ps generalizing seen before with
  | nil => exact Or.inr ⟨rfl, rfl, rfl⟩
  | cons p ps ih =>
    unfold splitParams Env.parameters
    by_cases hp : p.name.name ∈ seen
    · rw [if_pos hp, if_pos ((h _).1 hp)]
      exact Or.inl ⟨p, rfl, rfl⟩
    · rw [if_neg hp, if_neg (fun hb => hp ((h _).2 hb))]
      -- the names seen are those of the parameters so far
      have hnext : ∀ n, n ∈ p.name.name :: seen ↔
          (Local.ofVar (paramBinding p).1 (paramBinding p).2 :: before).any (·.name = n) := by
        intro n
        rw [List.mem_cons, h n, List.any_cons, Bool.or_eq_true, decide_eq_true_iff]
        exact or_congr_left eq_comm
      rcases ih _ _ hnext with ⟨q, hq, he⟩ | ⟨hnone, hall, hok⟩
      · exact Or.inl ⟨q, hq, he⟩
      · refine Or.inr ⟨hnone, by simp [hall], ?_⟩
        rw [List.map_cons, List.reverse_cons, List.append_assoc]
        exact hok

private theorem register_agrees {γ δ : Type} {R : γ → δ → Prop} (h : Represents stack s Γ) (name : Ident)
    (signature : Signature) {f : Unit × Typing.State → Checked γ} {g : Env → Checked δ}
    (hf : ∀ t Γ', Represents stack t Γ' → Γ'.signatures name.name = [signature] →
      Agree R (f ((), t)) (g Γ')) :
    Agree R (after (register name signature) s >>= f) (Γ.define name signature >>= g) := by
  have hc := h.contains name.name
  rw [after_register]
  unfold Env.define
  by_cases hs : (Γ.signatures name.name).isEmpty
  · rw [hs] at hc
    have hfree : Γ.signatures name.name = [] := List.isEmpty_iff.1 hs
    rw [if_neg (by simp [hc]), if_pos hs]
    refine hf _ _ (h.register hfree signature) ?_
    rw [Env.signatures_cons hfree, if_pos rfl]
  · rw [if_pos (by simpa [hc] using hs), if_neg hs, h.declared]
    exact .error _

private theorem openFunc_agrees {γ δ : Type} {R : γ → δ → Prop} (h : Represents (l :: stack) s Γ) (fn : Function)
    (name : Ident) (params : List Param) (hname : fn.name = name.name) (hfn : Γ.signatures fn.name = [fn.signature])
    {f : ScopeId × Typing.State → Checked γ} {g : List Local → Checked δ}
    (hf : ∀ t names, Represents (⟨s.ir.scopes.size, some fn⟩ :: l :: stack) t (Γ.enter names) →
      Agree R (f (s.ir.scopes.size, t)) (g names)) :
    Agree R (after (openFunc l.scope name params) s >>= f) (Env.parameters [] params >>= g) := by
  rcases parameters_agree [] [] params (by simp) with ⟨p, hdup, he⟩ | ⟨hnone, hall, hok⟩
  · rw [after_openFunc_of_duplicate hdup, he]
    exact .error _
  · rw [after_openFunc_of_distinct hnone, hall, hok]
    apply hf
    rw [List.append_nil]
    have hf : (some name.name <|> (s.ir.scope l.scope).func) = (some fn).map Function.name := congrArg some hname.symm
    have ho := h.openScope .func (some name.name) (params.map paramBinding) hf (by rintro f ⟨⟩; exact hfn)
    rw [List.map_map] at ho
    exact ho

/-! ### Statements -/

mutual

private theorem checkItem_agrees : (i : Item) → ∀ ⦃l : Layer⦄ ⦃stack : List Layer⦄ ⦃s : Typing.State⦄ ⦃Γ : Env⦄,
    Represents (l :: stack) s Γ → Agree (Represented (l :: stack)) (after (checkItem l.scope i) s) (Γ.checkItem i)
  | .letDecl d span => fun _ _ _ _ h => checkDecl_agrees h d span false
  | .func name params result body _ => by
    intro l stack s Γ h
    unfold checkItem Env.checkItem
    simp only [after_bind, after_perform]
    refine register_agrees h name _ fun t Γ' ht hsig => ?_
    refine openFunc_agrees ht ⟨name.name, _, name.span⟩ name params rfl hsig fun u names hu => ?_
    exact (checkBlock_agrees body hu rfl).bind fun r Γ'' hr => .ok (hr.closeScope _ _ _ _)

private theorem checkStmt_agrees : (stmt : Stmt) → ∀ ⦃l : Layer⦄ ⦃stack : List Layer⦄ ⦃s : Typing.State⦄ ⦃Γ : Env⦄
    ⦃fn : Function⦄, Represents (l :: stack) s Γ → l.function = some fn →
      Agree (Represented (l :: stack)) (after (checkStmt l.scope stmt) s) (Γ.checkStmt fn stmt)
  | .item i => fun _ _ _ _ _ h _ => checkItem_agrees i h
  | .varDecl d span => fun _ _ _ _ _ h _ => checkDecl_agrees h d span true
  | .assign target value span => fun _ _ _ _ _ h _ => act_agrees h (lowerAssign_agrees h target value span) _
  | .print args _ => fun _ _ _ _ _ h _ => act_agrees h (lowerPrintArgs_agrees h args) _
  | .ret value span => fun _ _ _ _ _ h hl => act_agrees h (lowerReturn_agrees h hl value span) _
  | .call callee args span => fun _ _ _ _ _ h _ => act_agrees h (lowerCall_agrees h callee args span) _
  | .forLoop var iterable body _ => by
    intro l stack s Γ fn h hl
    unfold checkStmt Env.checkStmt
    simp only [after_bind, after_getIr, after_lift, ok_bind, lowered_bind]
    refine (iterable_agrees h iterable).bind fun r ty hr => ?_
    subst hr
    have hbody := h.openBlock .loop [(var.name, .mk .arg r.2 var.span false)]
    exact (checkBlock_agrees body hbody hl).bind fun t Γ' ht => .ok (ht.closeScope _ _ _ _)
  | .whileLoop cond body _ => by
    intro l stack s Γ fn h hl
    unfold checkStmt Env.checkStmt
    simp only [after_bind, after_getIr, after_lift, after_openScope, after_perform, ok_bind, lowered_bind]
    refine (lowerCond_agrees h cond).bind fun guard _ _ => ?_
    exact (checkBlock_agrees body (h.openBlock .loop []) hl).bind fun t Γ' ht => .ok (ht.closeScope _ _ _ _)
  | .ifThen cond thenBlock _ => by
    intro l stack s Γ fn h hl
    unfold checkStmt Env.checkStmt
    simp only [after_bind, after_getIr, after_lift, after_openScope, after_perform, ok_bind, lowered_bind]
    refine (lowerCond_agrees h cond).bind fun guard _ _ => ?_
    exact (checkBlock_agrees thenBlock (h.openBlock .ifBranch []) hl).bind fun t Γ' ht => .ok (ht.closeScope _ _ _ _)
  | .ifElse cond thenBlock elseBlock _ => by
    intro l stack s Γ fn h hl
    unfold checkStmt Env.checkStmt
    simp only [after_bind, after_getIr, after_lift, after_openScope, after_perform, ok_bind, lowered_bind]
    refine (lowerCond_agrees h cond).bind fun guard _ _ => ?_
    refine (checkBlock_agrees thenBlock (h.openBlock .ifBranch []) hl).bind fun t Γ' ht => ?_
    -- the scope of the first block is complete before that of the second begins
    have hother := (ht.closeScope s.ir.scopes.size .ifBranch [] (some guard)).openBlock .elseBranch []
    exact (checkBlock_agrees elseBlock hother hl).bind fun u Γ'' hu => .ok (hu.closeScope _ _ _ _)
  | .switch subject cases _ => by
    intro l stack s Γ fn h hl
    unfold checkStmt Env.checkStmt
    simp only [after_bind, after_getIr, after_lift, ok_bind, lowered_bind]
    refine (lowerVar_agrees h subject).bind fun var ty hv => ?_
    subst hv
    exact checkCases_agrees cases var h hl

private theorem checkBlock_agrees : (block : Block) → ∀ ⦃l : Layer⦄ ⦃stack : List Layer⦄ ⦃s : Typing.State⦄ ⦃Γ : Env⦄
    ⦃fn : Function⦄, Represents (l :: stack) s Γ → l.function = some fn →
      Agree (Represented (l :: stack)) (after (checkBlock l.scope block) s) (Γ.checkBlock fn block)
  | .mk stmts _ => fun _ _ _ _ _ h hl => checkStmts_agrees stmts h hl

private theorem checkStmts_agrees :
    (stmts : List Stmt) → ∀ ⦃l : Layer⦄ ⦃stack : List Layer⦄ ⦃s : Typing.State⦄ ⦃Γ : Env⦄ ⦃fn : Function⦄,
      Represents (l :: stack) s Γ → l.function = some fn →
      Agree (Represented (l :: stack)) (after (checkStmts l.scope stmts) s) (Γ.checkStmts fn stmts)
  | [] => fun _ _ _ _ _ h _ => .ok h
  | stmt :: stmts => by
    intro l stack s Γ fn h hl
    unfold checkStmts Env.checkStmts
    rw [after_bind]
    exact (checkStmt_agrees stmt h hl).bind fun r Γ' hr => checkStmts_agrees stmts hr hl

private theorem checkCases_agrees : (cases : List Case) → (subject : Var) → ∀ ⦃l : Layer⦄ ⦃stack : List Layer⦄
    ⦃s : Typing.State⦄ ⦃Γ : Env⦄ ⦃fn : Function⦄, Represents (l :: stack) s Γ → l.function = some fn →
      Agree (Represented (l :: stack)) (after (checkCases l.scope subject cases) s) (Γ.checkCases fn subject.ty cases)
  | [], _ => fun _ _ _ _ _ h _ => .ok h
  | .mk comparator body span :: cases, subject => by
    intro l stack s Γ fn h hl
    unfold checkCases Env.checkCases
    simp only [after_bind, after_lift, after_openScope, after_perform, ok_bind, lowered_bind]
    refine (lowerCase_agrees subject comparator span cases.isEmpty).bind fun guard _ _ => ?_
    refine (checkBlock_agrees body (h.openBlock .caseBranch []) hl).bind fun t Γ' ht => ?_
    exact checkCases_agrees cases subject (ht.closeScope _ _ _ _) hl

end

private theorem checkItems_agrees (items : List Item) (h : Represents (l :: stack) s Γ) :
    Agree (Represented (l :: stack)) (after (checkItems l.scope items) s) (Γ.checkItems items) := by
  induction items generalizing s Γ with
  | nil => exact .ok h
  | cons i items ih =>
    unfold checkItems Env.checkItems
    rw [after_bind]
    exact (checkItem_agrees i h).bind fun r Γ' hr => ih hr

/-! ### Programs -/

private theorem represents_initial : Represents [⟨ScopeId.root, none⟩] .initial Env.initial := by
  have hsig (name : String) : Env.initial.signatures name =
      OperatorTable.signaturesOf name OperatorTable.builtinSignatures := List.append_nil _
  have hget (name : String) :
      Typing.State.initial.ir.ops.get? name = OperatorTable.ofSignatures (Env.initial.signatures name) := by
    rw [hsig]
    exact OperatorTable.get?_builtins name
  refine ⟨Ir.wellFormed_initial, .root ⟨Nat.zero_lt_one, fun _ => rfl, rfl⟩ rfl, fun name => ?_, fun name => ?_,
    fun _ => rfl, ?_⟩
  · unfold OperatorTable.contains
    rw [hget]
    cases Env.initial.signatures name <;> rfl
  · rw [hget]
    cases Env.initial.signatures name <;> rfl
  · rintro l hl f hf
    rw [List.mem_singleton.1 hl] at hf
    cases hf

/-- The check of a program, seen with environments: a state that an environment represents, or the same error. -/
private theorem check_agrees (p : Program) : Agree (Represented [⟨ScopeId.root, none⟩])
    (after (checkItems .root p.items) .initial) (Env.check p) :=
  checkItems_agrees p.items represents_initial

/-- The check of a program that is rejected reports what is violated with environments. -/
theorem check_of_typecheck_error {p : Program} {e : Located TypeError} (h : typecheck p = .error e) :
    Env.check p = .error e := by
  have hagree := check_agrees p
  rw [typecheck_eq_error.1 h] at hagree
  exact hagree.eq_error

/-- A program that is accepted is accepted with environments. -/
theorem check_of_typecheck_ok {p : Program} {ir : Ir} (h : typecheck p = .ok ir) : ∃ Γ, Env.check p = .ok Γ := by
  have hagree := check_agrees p
  obtain ⟨t, ht, -⟩ := typecheck_eq_ok.1 h
  rw [ht] at hagree
  obtain ⟨Γ, hΓ, -⟩ := hagree.eq_ok
  exact ⟨Γ, hΓ⟩

/-- A program is accepted by the check exactly if it is accepted with environments, and otherwise both report the same
rule, violated at the same place. -/
theorem typecheck_eq_check (p : Program) : (typecheck p).map (fun _ => ()) = (Env.check p).map (fun _ => ()) := by
  have h := (check_agrees p).forget
  rw [typecheck_eq, ← h]
  cases after (checkItems .root p.items) .initial <;> rfl

end Scriptlet
