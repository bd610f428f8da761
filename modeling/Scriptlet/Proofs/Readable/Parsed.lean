import Scriptlet.Proofs.Double.Rounding
import Scriptlet.Proofs.Readable.Reader

/-!
# What is parsed is readable

`program_gives`: a program that is read from spelled tokens is readable.  An expression begins where its first token
does, which for the subject of a `switch` is after the keyword and before all that follows the statement.  So two
`switch` statements of a block have their subjects in different places (`stmtsFrom_gives`).
-/

namespace Scriptlet

open Parse

/-! ### Doubles -/

namespace Double

private theorem Canonical.neg {x : Double} (h : x.Canonical) : x.neg.Canonical := by
  cases x <;> exact h

private theorem isFinite_neg (x : Double) : x.neg.isFinite = x.isFinite := by
  cases x <;> rfl

end Double

/-- A number that is read is finite and in its one form. -/
theorem Literal.readable_of_doubleValue? {text : String} {x : Double} (h : Parser.doubleValue? text = some x) :
    (Literal.double x).Readable := by
  unfold Parser.doubleValue? at h
  simp only at h
  split at h
  · next hf =>
    cases h
    exact ⟨Double.canonical_ofDecimal _ _ _, hf⟩
  · cases h

theorem Literal.Readable.neg {x : Double} (h : (Literal.double x).Readable) : (Literal.double x.neg).Readable :=
  ⟨h.1.neg, (Double.isFinite_neg x).trans h.2⟩

namespace Descent

open Scriptlet.Parser (Level)

variable {α : Type} {n : Nat}

/-! ### Expressions -/

/-- The reader makes readable expressions that begin where it does. -/
def GivesExpr (r : Descent Expr) : Prop := ∀ n, Gives n (fun e _ => e.span.lo = n ∧ e.Readable) r

section Expressions

variable {inner operand : Descent Expr}

private theorem leftAssocFrom_gives {ops : Level} (h : GivesExpr operand) (fuel : Nat) {m : Nat} {lhs : Expr}
    (hlo : lhs.span.lo = m) (hlhs : lhs.Readable) :
    Gives n (fun e _ => e.span.lo = m ∧ e.Readable) (leftAssocFrom ops operand fuel lhs) := by
  induction fuel generalizing n lhs with
  | zero => exact .exhausted
  | succ fuel ih =>
    refine .peek fun k _ => ?_
    split
    · exact .pure ⟨hlo, hlhs⟩
    · exact .after advance fun _ n _ => (h n).bind fun rhs _ _ hrhs => ih hlo ⟨hlhs, hrhs.2⟩

private theorem leftAssoc_gives (ops : Level) (h : GivesExpr operand) : GivesExpr (leftAssoc ops operand) := fun n =>
  (h n).bind fun _ _ _ hlhs => .rounds fun k => leftAssocFrom_gives h k hlhs.1 hlhs.2

private theorem powerFrom_gives (h : GivesExpr operand) (fuel : Nat) : GivesExpr (powerFrom operand fuel) := by
  induction fuel with
  | zero => exact fun n => .exhausted
  | succ fuel ih =>
    refine fun n => (h n).bind fun lhs m _ hlhs => .after (take _) fun b m _ => .ite ?_ (.pure hlhs)
    exact (ih m).map fun rhs _ _ hrhs => ⟨hlhs.1, hlhs.2, hrhs.2⟩

private theorem unaryFrom_gives (h : GivesExpr operand) (fuel : Nat) : GivesExpr (unaryFrom operand fuel) := by
  induction fuel with
  | zero => exact fun n => .exhausted
  | succ fuel ih =>
    refine fun n => .peek fun k _ => ?_
    split
    · exact h n
    · refine .nextSpan fun s hs => .after advance fun _ m _ => (ih m).map fun e _ _ he => ?_
      exact ⟨hs, he.2⟩

private theorem exprs_give (h : GivesExpr inner) : Gives n (fun es _ => Expr.AllReadable es) (list inner) :=
  (Gives.list fun n => (h n).mono fun _ _ _ he => he.2).mono fun _ _ _ hes => Expr.allReadable_iff.2 hes

private theorem callExpr_gives (h : GivesExpr inner) : GivesExpr (callExpr inner) := fun _ =>
  Gives.ident.bind fun _ _ _ hf => (exprs_give h).bind fun _ _ _ hargs => .lastSpan fun _ =>
    .pure ⟨hf.2, hf.1, hargs⟩

private theorem nameExpr_gives : GivesExpr nameExpr := fun _ => Gives.ident.map fun _ _ _ hname => ⟨hname.2, trivial⟩

private theorem literal_gives {l : Literal} (h : l.Readable) : GivesExpr (literal l) := fun _ =>
  .nextSpan fun _ hs => .after advance fun _ _ _ => .pure ⟨hs, h⟩

private theorem inputCall_gives (h : GivesExpr inner) : GivesExpr (inputCall inner) := fun _ =>
  .nextSpan fun _ hs => .after advance fun _ _ _ => (exprs_give h).bind fun _ _ _ hargs => .lastSpan fun _ =>
    .pure ⟨hs, (by decide : Keyword.inputKw.text ∉ OpName.reserved), hargs⟩

private theorem parenthesized_gives (h : GivesExpr inner) : GivesExpr (parenthesized inner) := fun _ =>
  .nextSpan fun s hs => .after advance fun _ m _ => (h m).bind fun e _ _ he => .after (symbol _) fun close _ _ =>
    .pure ⟨by rw [Expr.span_withSpan]; exact hs, he.2.withSpan _⟩

/-- The value of a literal is read ahead. -/
private theorem doubleValue_gives (text : String) :
    Gives n (fun x m => m = n ∧ (Literal.double x).Readable) (doubleValue text) := by
  unfold doubleValue
  split
  · next x hx => exact .pure ⟨rfl, Literal.readable_of_doubleValue? hx⟩
  · exact .outOfRange text

private theorem intValue_gives (negative : Bool) (text : String) :
    Gives n (fun _ m => m = n) (intValue negative text) := by
  unfold intValue
  split
  · exact .pure rfl
  · exact .outOfRange text

private theorem primary_gives (h : GivesExpr inner) : GivesExpr (primary inner) := by
  refine fun n => .peek fun k _ => ?_
  split
  · refine (intValue_gives _ _).bind fun i m _ hm => ?_
    subst hm
    exact literal_gives (l := .int i) trivial m
  · refine (doubleValue_gives _).bind fun x m _ hx => ?_
    obtain ⟨rfl, hx⟩ := hx
    exact literal_gives hx m
  · next text _ => exact literal_gives (l := .string text) trivial n
  · exact literal_gives (l := .bool true) trivial n
  · exact literal_gives (l := .bool false) trivial n
  · exact inputCall_gives h n
  · exact parenthesized_gives h n
  · exact .peekSecond fun _ => .ite (callExpr_gives h n) (nameExpr_gives n)
  · exact .unexpected _

private theorem logic_gives (h : GivesExpr inner) : GivesExpr (logic inner) :=
  have hunary : GivesExpr (unary inner) := fun n => .rounds fun k => unaryFrom_gives (primary_gives h) k n
  have hpower : GivesExpr (power inner) := fun n => .rounds fun k => powerFrom_gives hunary k n
  leftAssoc_gives _ (leftAssoc_gives _ (leftAssoc_gives _ (leftAssoc_gives _ hpower)))

end Expressions

private theorem expr_gives (depth : Nat) : GivesExpr (expr depth) := by
  induction depth with
  | zero => exact fun n => .exhausted
  | succ depth ih => exact logic_gives ih

/-! ### Parts of statements -/

private theorem constValue_gives (negative : Bool) : Gives n (fun l _ => l.Readable) (constValue negative) := by
  refine .peek fun k _ => ?_
  split
  · exact (intValue_gives _ _).map fun _ _ _ _ => trivial
  · refine (doubleValue_gives _).map fun x _ _ hx => ?_
    split
    · exact hx.2.neg
    · exact hx.2
  · exact .pure trivial
  · exact .pure trivial
  · exact .pure trivial
  · exact .unexpected _

private theorem const_gives : Gives n (fun c _ => c.literal.Readable) const :=
  .spanned (.after (take _) fun _ _ _ => (constValue_gives _).bind fun _ _ _ hl => .after advance fun _ _ _ =>
    .pure fun _ _ => hl)

private theorem constsFrom_gives (fuel : Nat) :
    Gives n (fun cs _ => ∀ c ∈ cs, c.literal.Readable) (constsFrom fuel) := by
  induction fuel generalizing n with
  | zero => exact .exhausted
  | succ fuel ih =>
    refine .after (take _) fun _ _ _ => .ite ?_ (.pure (by simp))
    exact const_gives.bind fun c _ _ hc => ih.map fun cs _ _ hcs => List.forall_mem_cons.2 ⟨hc, hcs⟩

private theorem caseRange_gives : Gives n (fun build _ => ∀ s, (build s).consts = []) caseRange :=
  .after (keyword _) fun _ _ _ => .after (symbol _) fun _ _ _ => .after intConst fun _ _ _ =>
    .after (symbol _) fun _ _ _ => .after intConst fun _ _ _ => .after (symbol _) fun _ _ _ => .pure fun _ => rfl

private theorem comparator_gives : Gives n (fun c _ => ∀ k ∈ c.consts, k.literal.Readable) comparator := by
  rw [comparator_eq]
  refine .peek fun k _ => .ite (.spanned ?_) ?_
  · refine caseRange_gives.mono fun build _ _ hbuild s _ => ?_
    rw [hbuild s]
    exact List.forall_mem_nil _
  · refine const_gives.bind fun c _ _ hc => .rounds fun k => (constsFrom_gives k).map fun cs _ _ hcs => ?_
    cases cs with
    | nil => simpa [comparatorOf, Comparator.consts] using hc
    | cons c' cs => exact List.forall_mem_cons.2 ⟨hc, hcs⟩

private theorem forRange_gives : Gives n (fun build _ => ∀ s, (build s).Readable) forRange :=
  .after (keyword _) fun _ _ _ => .after (symbol _) fun _ _ _ => .after intConst fun _ _ _ =>
    .after (symbol _) fun _ _ _ => .after intConst fun _ _ _ => .after (symbol _) fun _ _ _ =>
      .after intConst fun _ _ _ => .after (symbol _) fun _ _ _ => .pure fun _ => trivial

/-! ### Statements -/

/-- The reader makes readable statements.  The subject of a `switch` lies after the beginning of the statement and
before its end. -/
def GivesStmt (r : Descent (Span → Stmt)) : Prop :=
  ∀ n, Gives n (fun build m => ∀ s, (build s).Readable ∧ ∀ t ∈ (build s).subjectSpan?, n < t.lo ∧ t.lo ≤ m) r

/-- The reader makes readable blocks. -/
def GivesBlock (r : Descent Block) : Prop := ∀ n, Gives n (fun b _ => b.Readable) r

section Statements

variable {e : Descent Expr} {b : Descent Block}

private theorem iterable_gives (he : GivesExpr e) : Gives n (fun i _ => i.Readable) (iterable e) := by
  refine .peek fun k _ => .ite (.spanned ?_) ?_
  · exact forRange_gives.mono fun _ _ _ hbuild s _ => hbuild s
  · exact (he n).map fun _ _ _ he => he.2

private theorem decl_gives (he : GivesExpr e) (k : Keyword) : Gives n (fun d _ => d.value.Readable) (decl e k) :=
  .after (keyword k) fun _ _ _ => .after ident fun _ _ _ => .after (typeAfter _) fun _ _ _ =>
    .after (symbol _) fun _ m _ => (he m).bind fun _ _ _ he => .after (symbol _) fun _ _ _ => .pure he.2

/-- A statement that is no `switch` has no subject. -/
private theorem no_subject {s : Stmt} {m : Nat} (hr : s.Readable) (hs : s.subjectSpan? = none) :
    s.Readable ∧ ∀ t ∈ s.subjectSpan?, n < t.lo ∧ t.lo ≤ m :=
  ⟨hr, by simp [hs]⟩

private theorem letItem_gives (he : GivesExpr e) : Gives n (fun build _ => ∀ s, (build s).Readable) (letItem e) :=
  (decl_gives he _).map fun _ _ _ hd _ => hd

private theorem printStmt_gives (he : GivesExpr e) : GivesStmt (printStmt e) := fun _ =>
  .after (keyword _) fun _ _ _ => (exprs_give he).bind fun _ _ _ hargs => .after (symbol _) fun _ _ _ =>
    .pure fun _ => no_subject hargs rfl

private theorem returnStmt_gives (he : GivesExpr e) : GivesStmt (returnStmt e) := by
  refine fun n => .after (keyword _) fun _ _ _ => .after (take _) fun _ m _ => .ite ?_ ?_
  · exact .pure fun _ => no_subject trivial rfl
  · exact (he m).bind fun _ _ _ he => .after (symbol _) fun _ _ _ => .pure fun _ => no_subject ⟨he.2, trivial⟩ rfl

private theorem assignStmt_gives (he : GivesExpr e) : GivesStmt (assignStmt e) := fun _ =>
  .after ident fun _ _ _ => .after (symbol _) fun _ m _ => (he m).bind fun _ _ _ he =>
    .after (symbol _) fun _ _ _ => .pure fun _ => no_subject he.2 rfl

private theorem callStmt_gives (he : GivesExpr e) : GivesStmt (callStmt e) := fun _ =>
  Gives.ident.bind fun _ _ _ hf => (exprs_give he).bind fun _ _ _ hargs => .after (symbol _) fun _ _ _ =>
    .pure fun _ => no_subject ⟨hf.1, hargs⟩ rfl

private theorem forStmt_gives (he : GivesExpr e) (hb : GivesBlock b) : GivesStmt (forStmt e b) := fun _ =>
  .after (keyword _) fun _ _ _ => .after ident fun _ _ _ => .after (keyword _) fun _ _ _ =>
    (iterable_gives he).bind fun _ m _ hi => (hb m).map fun _ _ _ hb _ => no_subject ⟨hi, hb⟩ rfl

private theorem whileStmt_gives (he : GivesExpr e) (hb : GivesBlock b) : GivesStmt (whileStmt e b) := fun _ =>
  .after (keyword _) fun _ m _ => (he m).bind fun _ m _ hc => (hb m).map fun _ _ _ hb _ =>
    no_subject ⟨hc.2, hb⟩ rfl

private theorem ifFrom_gives (he : GivesExpr e) (hb : GivesBlock b) (fuel : Nat) : GivesStmt (ifFrom e b fuel) := by
  induction fuel with
  | zero => exact fun n => .exhausted
  | succ fuel ih =>
    refine fun n => .after (keyword _) fun _ m _ => (he m).bind fun _ m _ hc => (hb m).bind fun _ _ _ hthen =>
      .after (take _) fun _ m _ => .ite (.peek fun _ _ => .ite ?_ ?_) ?_
    · have hinner : Gives m (fun s _ => s.Readable) (spanned (ifFrom e b fuel)) :=
        .spanned ((ih m).mono fun _ _ _ hs s _ => (hs s).1)
      refine hinner.map fun s _ _ hs span => no_subject ⟨hc.2, hthen, ⟨hs, trivial⟩, ?_⟩ rfl
      cases h : s.subjectSpan? <;> simp [h]
    · exact (hb m).map fun _ _ _ hother _ => no_subject ⟨hc.2, hthen, hother⟩ rfl
    · exact .pure fun _ => no_subject ⟨hc.2, hthen⟩ rfl

private theorem caseClause_gives (hb : GivesBlock b) :
    Gives n (fun build _ => ∀ s, (build s).Readable) (caseClause b) := by
  refine .after (take _) fun _ _ _ => .ite ?_ (.after (take _) fun _ m _ => .ite ?_ (.unexpected _))
  · refine comparator_gives.bind fun c m _ hc => (hb m).map fun _ _ _ hbody _ => ⟨?_, hbody⟩
    rintro c' ⟨⟩
    exact hc
  · exact (hb m).map fun _ _ _ hbody _ => ⟨(fun _ h => nomatch h), hbody⟩

private theorem casesFrom_gives (hb : GivesBlock b) (fuel : Nat) :
    Gives n (fun cs _ => CasesReadable cs) (casesFrom b fuel) := by
  induction fuel generalizing n with
  | zero => exact .exhausted
  | succ fuel ih =>
    refine .after (take _) fun _ m _ => .ite (.pure trivial) ?_
    have hc : Gives m (fun c _ => c.Readable) (spanned (caseClause b)) :=
      .spanned ((caseClause_gives hb).mono fun _ _ _ hc s _ => hc s)
    exact hc.bind fun _ _ _ hc => ih.map fun _ _ _ hcs => ⟨hc, hcs⟩

private theorem switchStmt_gives (he : GivesExpr e) (hb : GivesBlock b) : GivesStmt (switchStmt e b) := by
  refine fun n => (Gives.keyword _).bind fun _ m _ hlt => (he m).bind fun subject _ hle hsubject =>
    .after (symbol _) fun _ _ hle' => .rounds fun k => (casesFrom_gives hb k).map fun cs _ hle'' hcs _ => ?_
  refine ⟨⟨hsubject.2, hcs⟩, ?_⟩
  rintro t ⟨⟩
  exact ⟨by omega, by omega⟩

private theorem stmt_gives (he : GivesExpr e) (hb : GivesBlock b) : GivesStmt (stmt e b) := by
  refine fun n => .peek fun k _ => ?_
  split
  · exact (letItem_gives he).map fun _ _ _ hi s => no_subject (hi s) rfl
  · exact (decl_gives he _).map fun _ _ _ hd s => no_subject hd rfl
  · exact printStmt_gives he n
  · exact returnStmt_gives he n
  · exact forStmt_gives he hb n
  · exact whileStmt_gives he hb n
  · exact .rounds fun k => ifFrom_gives he hb k n
  · exact switchStmt_gives he hb n
  · exact .peekSecond fun _ => .ite (assignStmt_gives he n) (callStmt_gives he n)
  · exact .unexpected _

/-- The subjects of the `switch` statements of a block come one after the other. -/
theorem stmtsFrom_gives {s : Descent Stmt}
    (hs : ∀ n, Gives n (fun s m => s.Readable ∧ ∀ t ∈ s.subjectSpan?, n < t.lo ∧ t.lo ≤ m) s) (fuel : Nat) :
    Gives n (fun ss _ => StmtsReadable ss ∧ (ss.filterMap Stmt.subjectSpan?).Nodup ∧
      ∀ t ∈ ss.filterMap Stmt.subjectSpan?, n < t.lo) (stmtsFrom s fuel) := by
  induction fuel generalizing n with
  | zero => exact .exhausted
  | succ fuel ih =>
    refine .peek fun k _ => .ite (.pure ⟨trivial, by simp, by simp⟩) ?_
    refine (hs n).bind fun s m hle hs => ih.map fun ss m' _ hss => ⟨⟨hs.1, hss.1⟩, ?_⟩
    have hafter : ∀ t ∈ ss.filterMap Stmt.subjectSpan?, n < t.lo := fun t ht => Nat.lt_of_le_of_lt hle (hss.2.2 t ht)
    cases hsubject : s.subjectSpan? with
    | none =>
      rw [List.filterMap_cons_none hsubject]
      exact ⟨hss.2.1, hafter⟩
    | some t =>
      rw [List.filterMap_cons_some hsubject]
      obtain ⟨hlt, hle⟩ := hs.2 t hsubject
      refine ⟨List.nodup_cons.2 ⟨fun ht => ?_, hss.2.1⟩, List.forall_mem_cons.2 ⟨hlt, hafter⟩⟩
      exact Nat.not_lt_of_le hle (hss.2.2 t ht)

private theorem block_gives (he : GivesExpr e) (depth : Nat) : GivesBlock (block e depth) := by
  induction depth with
  | zero => exact fun n => .exhausted
  | succ depth ih =>
    have hs (n : Nat) : Gives n (fun s m => s.Readable ∧ ∀ t ∈ s.subjectSpan?, n < t.lo ∧ t.lo ≤ m)
        (spanned (stmt e (block e depth))) := .spanned ((stmt_gives he ih n).mono fun _ _ _ hs s _ => hs s)
    exact fun n => .after (symbol _) fun _ _ _ => .rounds fun k => (stmtsFrom_gives hs k).bind fun ss _ _ hss =>
      .after (symbol _) fun _ _ _ => .pure ⟨hss.1, hss.2.1⟩

private theorem func_gives (hb : GivesBlock b) : Gives n (fun build _ => ∀ s, (build s).Readable) (func b) :=
  .after (keyword _) fun _ _ _ => .after ident fun _ _ _ => .after (list param) fun _ _ _ =>
    .after (typeAfter _) fun _ m _ => (hb m).map fun _ _ _ hb _ => hb

private theorem item_gives (he : GivesExpr e) (hb : GivesBlock b) :
    Gives n (fun build _ => ∀ s, (build s).Readable) (item e b) := by
  refine .peek fun k _ => ?_
  split
  · exact letItem_gives he
  · exact func_gives hb
  · exact .unexpected _

private theorem itemsToEnd_gives {i : Descent Item} (hi : ∀ n, Gives n (fun i _ => i.Readable) i) (fuel : Nat) :
    Gives n (fun is _ => ∀ i ∈ is, i.Readable) (itemsToEnd i fuel) := by
  induction fuel generalizing n with
  | zero => exact .exhausted
  | succ fuel ih =>
    refine .peek fun k _ => .ite (.pure (by simp)) ?_
    exact (hi n).bind fun _ _ _ hi => ih.map fun _ _ _ his => List.forall_mem_cons.2 ⟨hi, his⟩

end Statements

/-- All constants and names of a program that is read can be read back. -/
theorem program_gives (depth : Nat) : Gives n (fun p _ => p.Readable) (program depth) := by
  have hi (n : Nat) : Gives n (fun i _ => i.Readable) (spanned (item (expr depth) (block (expr depth) depth))) :=
    .spanned ((item_gives (expr_gives depth) (block_gives (expr_gives depth) depth)).mono fun _ _ _ hi s _ => hi s)
  exact .rounds fun k => (itemsToEnd_gives hi k).map fun _ _ _ his => his

end Descent

end Scriptlet
