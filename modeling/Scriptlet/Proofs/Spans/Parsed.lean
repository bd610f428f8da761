import Scriptlet.Proofs.Grammar.Productions
import Scriptlet.Proofs.Spans.Reader
import Scriptlet.Proofs.Speculation.Equivalence

/-!
# What is parsed stands over its tokens

`parseProgram_spans`: each part of a parsed program stands over the tokens that its production has consumed.  There is
one lemma for each reader; the spans are put together from the first token of a production and the last one
(`Yields.spanned`), or from those of two parts (`Span.Covers.through`).
-/

namespace Scriptlet

open Parse Spans Grammar

namespace Descent

open Scriptlet.Parser (Level)

variable {ts : List Token} {i : Nat}

/-! ### Expressions -/

/-- The reader makes expressions that stand over the tokens it consumes. -/
def YieldsExpr (ts : List Token) (r : Descent Expr) : Prop := ∀ i, Yields ts i (Expr.Spans ts · i ·) r

section Expressions

variable {inner operand : Descent Expr}

private theorem combine_spans (hts : Consecutive ts) (op : BinaryOp) {lhs rhs : Expr} {k j : Nat}
    (hlhs : lhs.Spans ts i k) (hop : IsAt ts k (.symbol op.symbol)) (hrhs : rhs.Spans ts (k + 1) j) :
    (Expr.combine op lhs rhs).Spans ts i j := by
  have hik : i < k := hlhs.covers.lt
  have hkj : k + 1 < j := hrhs.covers.lt
  have hs : (lhs.span.through rhs.span).Covers ts i j := hlhs.covers.through hrhs.covers hts (by omega)
  exact ⟨hs, i, j, k, .bare, hlhs, hop, hrhs⟩

private theorem leftAssocFrom_yields (hts : Consecutive ts) {ops : Level} {r : Rank} (hops : IsLevel ops r)
    (h : YieldsExpr ts operand) (fuel : Nat) {k : Nat} {lhs : Expr} (hlhs : lhs.Spans ts i k) :
    Yields ts k (Expr.Spans ts · i ·) (leftAssocFrom ops operand fuel lhs) := by
  induction fuel generalizing k lhs with
  | zero => exact .exhausted
  | succ fuel ih =>
    refine .peek fun t ht => ?_
    split
    · exact .pure hlhs
    · next op hop =>
      have hk : IsAt ts k (.symbol op.symbol) := ht.trans (hops.op?_eq_some.1 hop).1
      refine .advance hk ((h (k + 1)).bind fun rhs j _ hrhs => ?_)
      exact ih (combine_spans hts op hlhs hk hrhs)

private theorem leftAssoc_yields (hts : Consecutive ts) {ops : Level} {r : Rank} (hops : IsLevel ops r)
    (h : YieldsExpr ts operand) : YieldsExpr ts (leftAssoc ops operand) := fun i =>
  (h i).bind fun _ _ _ hlhs => .rounds fun n => leftAssocFrom_yields hts hops h n hlhs

private theorem powerFrom_yields (hts : Consecutive ts) (h : YieldsExpr ts operand) (fuel : Nat) :
    YieldsExpr ts (powerFrom operand fuel) := by
  induction fuel with
  | zero => exact fun _ => .exhausted
  | succ fuel ih =>
    refine fun i => (h i).bind fun lhs k _ hlhs => .take (fun hk => ?_) (.pure hlhs)
    exact (ih (k + 1)).map fun rhs j _ hrhs => combine_spans hts .pow hlhs hk hrhs

private theorem unaryFrom_yields (hts : Consecutive ts) (h : YieldsExpr ts operand) (fuel : Nat) :
    YieldsExpr ts (unaryFrom operand fuel) := by
  induction fuel with
  | zero => exact fun _ => .exhausted
  | succ fuel ih =>
    refine fun i => .peek fun t ht => ?_
    split
    · exact h i
    · next op hop =>
      have hk : IsAt ts i (.symbol op.symbol) := ht.trans (unaryOp?_eq_some.1 hop)
      refine .nextSpan fun start hstart => .advance hk ((ih (i + 1)).map fun e j hij he => ?_)
      have hs := (hstart (lt_length_of_isAt hk)).through he.covers hts hij
      exact ⟨hs, i, j, .bare, hk, he⟩

private theorem args_yield (h : YieldsExpr ts inner) :
    Yields ts i (fun args j => IsAt ts i (.symbol .lparen) ∧ Listed ts (Expr.Spans ts) args (i + 1) j) (list inner) :=
  .list h

private theorem callExpr_yields (hts : Consecutive ts) (h : YieldsExpr ts inner) : YieldsExpr ts (callExpr inner) := by
  refine fun i => Yields.ident.bind fun f _ _ ⟨hf, hi⟩ => ?_
  subst hi
  refine (args_yield h).bind fun args j hij ⟨hopen, hargs⟩ => ?_
  refine .lastSpan fun last hlast => .pure ?_
  have hs := hf.2.through (hlast (Nat.zero_lt_of_lt hij)) hts hij
  exact ⟨hs, i, j, .bare, ⟨.inl hf.1, hf.2⟩, hopen, Expr.listSpans_iff.2 hargs⟩

private theorem nameExpr_yields : YieldsExpr ts nameExpr := fun i =>
  Yields.ident.map fun _ _ _ ⟨hname, hi⟩ => hi ▸ ⟨hname.2, i, .bare, hname.1⟩

private theorem literal_yields {k : TokenKind} (hk : IsAt ts i k) (l : Literal) :
    Yields ts i (Expr.Spans ts · i ·) (literal l) :=
  .nextSpan fun _ hs => .advance hk (.pure ⟨hs (lt_length_of_isAt hk), i, .bare⟩)

private theorem inputCall_yields (hts : Consecutive ts) (h : YieldsExpr ts inner) (hk : IsAt ts i (.keyword .inputKw)) :
    Yields ts i (Expr.Spans ts · i ·) (inputCall inner) := by
  refine .nextSpan fun name hname => .advance hk ?_
  refine (args_yield h).bind fun args j hij ⟨hopen, hargs⟩ => ?_
  refine .lastSpan fun last hlast => .pure ?_
  have hname := hname (lt_length_of_isAt hk)
  have hs := hname.through (hlast (Nat.zero_lt_of_lt hij)) hts hij
  exact ⟨hs, i, j, .bare, ⟨.inr ⟨hk, rfl⟩, hname⟩, hopen, Expr.listSpans_iff.2 hargs⟩

private theorem parenthesized_yields (hts : Consecutive ts) (h : YieldsExpr ts inner)
    (hk : IsAt ts i (.symbol .lparen)) : Yields ts i (Expr.Spans ts · i ·) (parenthesized inner) := by
  refine .nextSpan fun opening hopening => .advance hk ?_
  refine (h (i + 1)).bind fun e j hij he => ?_
  refine .symbol fun closing hclose hclosing => .pure ?_
  exact he.withSpan hk hclose ((hopening (lt_length_of_isAt hk)).through hclosing hts (by omega))

/-- The value of a literal is read ahead. -/
private theorem intValue_yields (negative : Bool) (text : String) :
    Yields ts i (fun _ j => j = i) (intValue negative text) := by
  unfold intValue
  split
  · exact .pure rfl
  · exact .outOfRange text

private theorem doubleValue_yields (text : String) : Yields ts i (fun _ j => j = i) (doubleValue text) := by
  unfold doubleValue
  split
  · exact .pure rfl
  · exact .outOfRange text

private theorem primary_yields (hts : Consecutive ts) (h : YieldsExpr ts inner) : YieldsExpr ts (primary inner) := by
  refine fun i => .peek fun k hk => ?_
  split
  · refine (intValue_yields _ _).bind fun n j _ hj => ?_
    subst hj
    exact literal_yields hk _
  · refine (doubleValue_yields _).bind fun x j _ hj => ?_
    subst hj
    exact literal_yields hk _
  · exact literal_yields hk _
  · exact literal_yields hk _
  · exact literal_yields hk _
  · exact inputCall_yields hts h hk
  · exact parenthesized_yields hts h hk
  · exact .peekSecond fun _ => .ite (fun _ => callExpr_yields hts h i) fun _ => nameExpr_yields i
  · exact .unexpected _

private theorem logic_yields (hts : Consecutive ts) (h : YieldsExpr ts inner) : YieldsExpr ts (logic inner) :=
  have hunary : YieldsExpr ts (unary inner) := fun i =>
    .rounds fun n => unaryFrom_yields hts (primary_yields hts h) n i
  have hpower : YieldsExpr ts (power inner) := fun i => .rounds fun n => powerFrom_yields hts hunary n i
  leftAssoc_yields hts isLevel_logic (leftAssoc_yields hts isLevel_relation
    (leftAssoc_yields hts isLevel_sum (leftAssoc_yields hts isLevel_product hpower)))

end Expressions

private theorem expr_yields (hts : Consecutive ts) (depth : Nat) : YieldsExpr ts (expr depth) := by
  induction depth with
  | zero => exact fun _ => .exhausted
  | succ depth ih => exact logic_yields hts ih

/-! ### Parts of statements -/

private theorem typeName_yields : Yields ts i (fun t j => t.Spans ts i ∧ j = i + 1) typeName := by
  refine .peek fun k hk => ?_
  split
  · next ty hty =>
    have hty : IsAt ts i (.keyword ty.keyword) := hk.trans (typeOf?_eq_some.1 hty)
    exact .nextSpan fun s hs => .advance hty (.pure ⟨⟨hty, hs (lt_length_of_isAt hty)⟩, rfl⟩)
  · exact .unexpected _

private theorem typeAfter_yields (s : Symbol) : Yields ts i (TypeAfter ts s · i ·) (typeAfter s) :=
  .take (fun hk => typeName_yields.map fun _ _ _ ht => ⟨hk, ht⟩) (.pure rfl)

private theorem param_yields (i : Nat) : Yields ts i (Param.Spans ts · i ·) param := by
  refine Yields.ident.bind fun name _ _ ⟨hname, hi⟩ => ?_
  subst hi
  exact .symbol fun _ hcolon _ => typeName_yields.map fun _ _ _ ht => ⟨hname, hcolon, ht⟩

private theorem intConst_yields : Yields ts i (fun _ j => Signed ts i j) intConst := by
  have hfrom (negative : Bool) (k : Nat) : Yields ts k (fun _ j => j = k + 1) (intConstFrom negative) := by
    refine .peek fun t ht => ?_
    split
    · refine (intValue_yields _ _).bind fun n j _ hj => ?_
      subst hj
      exact .advance ht (.pure rfl)
    · exact .unexpected _
  rw [intConst_eq]
  exact .take (fun hk => (hfrom _ _).mono fun _ _ _ hj => .inr ⟨hk, hj⟩) ((hfrom _ _).mono fun _ _ _ hj => .inl hj)

/-- A constant is the next token. -/
private theorem constValue_yields (negative : Bool) :
    Yields ts i (fun _ j => j = i ∧ ∃ k, IsAt ts i k) (constValue negative) := by
  refine .peek fun k hk => ?_
  split
  · exact (intValue_yields _ _).map fun _ _ _ hj => ⟨hj, _, hk⟩
  · exact (doubleValue_yields _).map fun _ _ _ hj => ⟨hj, _, hk⟩
  · exact .pure ⟨rfl, _, hk⟩
  · exact .pure ⟨rfl, _, hk⟩
  · exact .pure ⟨rfl, _, hk⟩
  · exact .unexpected _

/-- The reader makes parts that stand over the tokens it consumes, for the span of these. -/
def Builds {α : Type} (ts : List Token) (P : α → Nat → Nat → Prop) (r : Descent (Span → α)) : Prop :=
  ∀ i, Yields ts i (fun build j => i < j ∧ ∀ s, s.Covers ts i j → P (build s) i j) r

private theorem Builds.spanned {α : Type} {P : α → Nat → Nat → Prop} {r : Descent (Span → α)} (hts : Consecutive ts)
    (h : Builds ts P r) (i : Nat) : Yields ts i (P · i ·) (Descent.spanned r) := .spanned hts (h i)

private theorem const_yields (hts : Consecutive ts) : Yields ts i (Const.Spans ts · i ·) const := by
  have hfrom (negative : Bool) (k : Nat) : Yields ts k (fun build j => j = k + 1 ∧ ∀ s, (build s).span = s)
      (constValue negative >>= fun value => advance >>= fun _ => pure (Const.mk value)) := by
    refine (constValue_yields negative).bind fun value j _ ⟨hj, t, ht⟩ => ?_
    subst hj
    exact .advance ht (.pure ⟨rfl, fun _ => rfl⟩)
  refine .spanned hts (.take (fun hk => ?_) ?_)
  · refine (hfrom _ _).mono fun build j _ ⟨hj, hspan⟩ => ⟨by omega, fun s hs => ⟨?_, .inr ⟨hk, hj⟩⟩⟩
    rwa [hspan]
  · refine (hfrom _ _).mono fun build j _ ⟨hj, hspan⟩ => ⟨by omega, fun s hs => ⟨?_, .inl hj⟩⟩
    rwa [hspan]

private theorem constsFrom_yields (hts : Consecutive ts) (fuel : Nat) :
    Yields ts i (Consts ts · i ·) (constsFrom fuel) := by
  induction fuel generalizing i with
  | zero => exact .exhausted
  | succ fuel ih =>
    refine .take (fun hk => ?_) (.pure rfl)
    exact (const_yields hts).bind fun c k _ hc => ih.map fun cs _ _ hcs => ⟨hk, k, hc, hcs⟩

private theorem caseRange_builds : Builds ts (Comparator.Spans ts) caseRange := by
  intro i
  refine .keyword fun _ hkw => .symbol fun _ hopen _ => ?_
  refine intConst_yields.bind fun lo k _ hlo => .symbol fun _ hcomma _ => ?_
  refine intConst_yields.bind fun hi l _ hhi => .symbol fun _ hclose _ => ?_
  exact .pure ⟨by omega, fun s hs => ⟨hs, hkw, hopen, k, l, hlo, hcomma, hhi, hclose, rfl⟩⟩

private theorem comparator_yields (hts : Consecutive ts) : Yields ts i (Comparator.Spans ts · i ·) comparator := by
  rw [comparator_eq]
  refine .peek fun _ _ => .ite (fun _ => caseRange_builds.spanned hts i) fun _ => ?_
  refine (const_yields hts).bind fun c k _ hc => .rounds fun n => (constsFrom_yields hts n).map fun cs _ _ hcs => ?_
  cases cs with
  | nil =>
    cases hcs
    exact hc
  | cons c' cs => exact ⟨k, hc, hcs⟩

private theorem forRange_builds : Builds ts (Iterable.Spans ts) forRange := by
  intro i
  refine .keyword fun _ hkw => .symbol fun _ hopen _ => ?_
  refine intConst_yields.bind fun first k _ hfirst => .symbol fun _ hcomma _ => ?_
  refine intConst_yields.bind fun last l _ hlast => .symbol fun _ hcomma' _ => ?_
  refine intConst_yields.bind fun step m _ hstep => .symbol fun _ hclose _ => ?_
  refine .pure ⟨by omega, fun s hs => ?_⟩
  exact ⟨hs, hkw, hopen, k, l, m, hfirst, hcomma, hlast, hcomma', hstep, hclose, rfl⟩

/-! ### Statements -/

/-- The reader makes blocks between braces that stand over the tokens it consumes. -/
def YieldsBlock (ts : List Token) (r : Descent Block) : Prop :=
  ∀ i, Yields ts i (fun b j => IsAt ts i (.symbol .lbrace) ∧ b.Spans ts i j) r

section Statements

variable {e : Descent Expr} {b : Descent Block}

private theorem iterable_yields (hts : Consecutive ts) (he : YieldsExpr ts e) :
    Yields ts i (Iterable.Spans ts · i ·) (iterable e) :=
  .peek fun _ _ => .ite (fun _ => forRange_builds.spanned hts i) fun _ => (he i).map fun _ _ _ he => he

private theorem decl_yields (he : YieldsExpr ts e) (k : Keyword) :
    Yields ts i (fun d j => i < j ∧ d.Spans ts k i j) (decl e k) := by
  refine .keyword fun _ hk => Yields.ident.bind fun name _ _ ⟨hname, hi⟩ => ?_
  subst hi
  refine (typeAfter_yields _).bind fun type l _ htype => .symbol fun _ hassign _ => ?_
  refine (he _).bind fun value m _ hvalue => .symbol fun _ hend _ => ?_
  exact .pure ⟨by omega, hk, hname, l, m, htype, hassign, hvalue, hend, rfl⟩

private theorem letItem_builds (he : YieldsExpr ts e) : Builds ts (Item.Spans ts) (letItem e) := fun _ =>
  (decl_yields he _).map fun _ _ _ hd => ⟨hd.1, fun _ hs => ⟨hs, hd.2⟩⟩

private theorem printStmt_builds (he : YieldsExpr ts e) : Builds ts (Stmt.Spans ts) (printStmt e) := by
  refine fun i => .keyword fun _ hk => ?_
  refine (args_yield he).bind fun args k _ ⟨hopen, hargs⟩ => .symbol fun _ hend _ => ?_
  exact .pure ⟨by omega, fun s hs => ⟨hs, hk, hopen, k, hargs, hend, rfl⟩⟩

private theorem returnStmt_builds (he : YieldsExpr ts e) : Builds ts (Stmt.Spans ts) (returnStmt e) := by
  refine fun i => .keyword fun _ hk => .take (fun hend => ?_) ?_
  · exact .pure ⟨by omega, fun s hs => ⟨hs, hk, hend, rfl⟩⟩
  · refine (he _).bind fun value k _ hvalue => .symbol fun _ hend _ => ?_
    exact .pure ⟨by omega, fun s hs => ⟨hs, hk, k, hvalue, hend, rfl⟩⟩

private theorem assignStmt_builds (he : YieldsExpr ts e) : Builds ts (Stmt.Spans ts) (assignStmt e) := by
  refine fun i => Yields.ident.bind fun target _ _ ⟨htarget, hi⟩ => ?_
  subst hi
  refine .symbol fun _ hassign _ => (he _).bind fun value k _ hvalue => .symbol fun _ hend _ => ?_
  exact .pure ⟨by omega, fun s hs => ⟨hs, htarget, hassign, k, hvalue, hend, rfl⟩⟩

private theorem callStmt_builds (he : YieldsExpr ts e) : Builds ts (Stmt.Spans ts) (callStmt e) := by
  refine fun i => Yields.ident.bind fun callee _ _ ⟨hcallee, hi⟩ => ?_
  subst hi
  refine (args_yield he).bind fun args k _ ⟨hopen, hargs⟩ => .symbol fun _ hend _ => ?_
  exact .pure ⟨by omega, fun s hs => ⟨hs, hcallee, hopen, k, hargs, hend, rfl⟩⟩

private theorem forStmt_builds (hts : Consecutive ts) (he : YieldsExpr ts e) (hb : YieldsBlock ts b) :
    Builds ts (Stmt.Spans ts) (forStmt e b) := by
  refine fun i => .keyword fun _ hk => Yields.ident.bind fun var _ _ ⟨hvar, hi⟩ => ?_
  subst hi
  refine .keyword fun _ hin => (iterable_yields hts he).bind fun iterable k _ hiterable => ?_
  refine (hb k).map fun body j _ ⟨hopen, hbody⟩ => ⟨by omega, fun s hs => ?_⟩
  exact ⟨hs, hk, hvar, hin, k, hiterable, hopen, hbody⟩

private theorem whileStmt_builds (he : YieldsExpr ts e) (hb : YieldsBlock ts b) :
    Builds ts (Stmt.Spans ts) (whileStmt e b) := by
  refine fun i => .keyword fun _ hk => (he _).bind fun cond k _ hcond => ?_
  refine (hb k).map fun body j _ ⟨hopen, hbody⟩ => ⟨by omega, fun s hs => ?_⟩
  exact ⟨hs, hk, k, hcond, hopen, hbody⟩

private theorem ifFrom_builds (hts : Consecutive ts) (he : YieldsExpr ts e) (hb : YieldsBlock ts b) (fuel : Nat) :
    Builds ts (Stmt.Spans ts) (ifFrom e b fuel) := by
  induction fuel with
  | zero => exact fun _ => .exhausted
  | succ fuel ih =>
    refine fun i => .keyword fun _ hk => (he _).bind fun cond k _ hcond =>
      (hb k).bind fun thenBlock l _ ⟨hopen, hthen⟩ =>
        .take (fun helse => .peek fun t ht => .ite (fun hif => ?_) fun _ => ?_) ?_
    · -- the block after `else` is that of the inner `if`
      have hif : IsAt ts (l + 1) (.keyword .ifKw) := ht.trans (eq_of_beq hif)
      refine (ih.spanned hts (l + 1)).map fun inner j _ hinner => ⟨by omega, fun s hs => ?_⟩
      exact ⟨hs, hk, k, l, hcond, hopen, hthen, helse, hinner.covers, l + 1, j, ⟨j, hinner, rfl⟩,
        .inr ⟨hif, rfl, rfl, rfl⟩⟩
    · refine (hb (l + 1)).map fun other j _ ⟨_, hother⟩ => ⟨by omega, fun s hs => ?_⟩
      exact ⟨hs, hk, k, l, hcond, hopen, hthen, helse, hother⟩
    · exact .pure ⟨by omega, fun s hs => ⟨hs, hk, k, hcond, hopen, hthen⟩⟩

private theorem caseClause_builds (hts : Consecutive ts) (hb : YieldsBlock ts b) :
    Builds ts (Case.Spans ts) (caseClause b) := by
  refine fun i => .take (fun hk => ?_) (.take (fun hk => ?_) (.unexpected _))
  · refine (comparator_yields hts).bind fun c k _ hc => ?_
    refine (hb k).map fun body j _ ⟨hopen, hbody⟩ => ⟨by omega, fun s hs => ?_⟩
    exact ⟨hs, hk, k, hc, hopen, hbody⟩
  · exact (hb _).map fun body j _ ⟨hopen, hbody⟩ => ⟨by omega, fun s hs => ⟨hs, hk, hopen, hbody⟩⟩

/-- The cases, and the brace that closes them. -/
private theorem casesFrom_yields (hts : Consecutive ts) (hb : YieldsBlock ts b) (fuel : Nat) :
    Yields ts i (fun cs j => ∃ k, Case.ListSpans ts cs i k ∧ IsAt ts k (.symbol .rbrace) ∧ j = k + 1)
      (casesFrom b fuel) := by
  induction fuel generalizing i with
  | zero => exact .exhausted
  | succ fuel ih =>
    refine .take (fun hk => .pure ⟨i, rfl, hk, rfl⟩) ?_
    refine ((caseClause_builds hts hb).spanned hts i).bind fun c k _ hc => ?_
    exact ih.map fun cs j _ ⟨l, hcs, hend⟩ => ⟨l, ⟨k, hc, hcs⟩, hend⟩

private theorem switchStmt_builds (hts : Consecutive ts) (he : YieldsExpr ts e) (hb : YieldsBlock ts b) :
    Builds ts (Stmt.Spans ts) (switchStmt e b) := by
  refine fun i => .keyword fun _ hk => (he _).bind fun subject k _ hsubject => .symbol fun _ hopen _ => ?_
  refine .rounds fun n => (casesFrom_yields hts hb n).map fun cases j _ ⟨l, hcases, hend⟩ => ?_
  exact ⟨by omega, fun s hs => ⟨hs, hk, k, l, hsubject, hopen, hcases, hend⟩⟩

private theorem stmt_builds (hts : Consecutive ts) (he : YieldsExpr ts e) (hb : YieldsBlock ts b) :
    Builds ts (Stmt.Spans ts) (stmt e b) := by
  refine fun i => .peek fun _ _ => ?_
  split
  · exact (letItem_builds he i).map fun _ _ _ hi => hi
  · exact (decl_yields he _).map fun _ _ _ hd => ⟨hd.1, fun _ hs => ⟨hs, hd.2⟩⟩
  · exact printStmt_builds he i
  · exact returnStmt_builds he i
  · exact forStmt_builds hts he hb i
  · exact whileStmt_builds he hb i
  · exact .rounds fun n => ifFrom_builds hts he hb n i
  · exact switchStmt_builds hts he hb i
  · exact .peekSecond fun _ => .ite (fun _ => assignStmt_builds he i) fun _ => callStmt_builds he i
  · exact .unexpected _

private theorem stmtsFrom_yields {s : Descent Stmt} (hs : ∀ i, Yields ts i (Stmt.Spans ts · i ·) s) (fuel : Nat) :
    Yields ts i (Stmt.ListSpans ts · i ·) (stmtsFrom s fuel) := by
  induction fuel generalizing i with
  | zero => exact .exhausted
  | succ fuel ih =>
    refine .peek fun _ _ => .ite (fun _ => .pure rfl) fun _ => ?_
    exact (hs i).bind fun _ k _ hs => ih.map fun _ _ _ hss => ⟨k, hs, hss⟩

private theorem block_yields (hts : Consecutive ts) (he : YieldsExpr ts e) (depth : Nat) :
    YieldsBlock ts (block e depth) := by
  induction depth with
  | zero => exact fun _ => .exhausted
  | succ depth ih =>
    have hs := (stmt_builds hts he ih).spanned hts
    refine fun i => .symbol fun opening hopen hopening => .rounds fun n => ?_
    refine (stmtsFrom_yields hs n).bind fun ss k _ hss => .symbol fun closing hclose hclosing => ?_
    have hspan : (opening.through closing).Covers ts i (k + 1) := hopening.through hclosing hts (by omega)
    exact .pure ⟨hopen, hspan, i + 1, k, hss, .inl ⟨hopen, rfl, hclose, rfl⟩⟩

/-! ### Programs -/

private theorem func_builds (hb : YieldsBlock ts b) : Builds ts (Item.Spans ts) (func b) := by
  refine fun i => .keyword fun _ hk => Yields.ident.bind fun name _ _ ⟨hname, hi⟩ => ?_
  subst hi
  refine (Yields.list param_yields).bind fun params k _ ⟨hopen, hparams⟩ => ?_
  refine (typeAfter_yields _).bind fun result l _ hresult => ?_
  refine (hb l).map fun body j _ ⟨hbrace, hbody⟩ => ⟨by omega, fun s hs => ?_⟩
  exact ⟨hs, hk, hname, hopen, k, l, hparams, hresult, hbrace, hbody⟩

private theorem item_builds (he : YieldsExpr ts e) (hb : YieldsBlock ts b) : Builds ts (Item.Spans ts) (item e b) := by
  refine fun i => .peek fun _ _ => ?_
  split
  · exact letItem_builds he i
  · exact func_builds hb i
  · exact .unexpected _

private theorem itemsToEnd_yields {r : Descent Item} (hr : ∀ i, Yields ts i (Item.Spans ts · i ·) r) (fuel : Nat) :
    Yields ts i (fun is j => Item.ListSpans ts is i j ∧ ts.length ≤ j) (itemsToEnd r fuel) := by
  induction fuel generalizing i with
  | zero => exact .exhausted
  | succ fuel ih =>
    refine .peek fun k hk => .ite (fun hnone => .pure ⟨rfl, ?_⟩) fun _ => ?_
    · rw [Option.isNone_iff_eq_none] at hnone
      exact List.getElem?_eq_none_iff.1 (Option.map_eq_none_iff.1 (hk.trans hnone))
    · exact (hr i).bind fun _ k _ hi => ih.map fun _ _ _ his => ⟨⟨k, hi, his.1⟩, his.2⟩

end Statements

private theorem program_yields (hts : Consecutive ts) (depth : Nat) :
    Yields ts 0 (fun p j => Item.ListSpans ts p.items 0 j ∧ ts.length ≤ j) (program depth) := by
  have he := expr_yields hts depth
  have hi := (item_builds he (block_yields hts he depth)).spanned hts
  exact .rounds fun n => (itemsToEnd_yields hi n).map fun _ _ _ his => his

end Descent

/-- A parsed program stands over its tokens. -/
theorem parseProgram_spans {ts : List Token} {p : Program} (hts : Consecutive ts) (h : parseProgram ts = .ok p) :
    p.Spans ts := by
  obtain ⟨q, hp⟩ := Parse.parseProgram_eq_ok.1 h
  obtain ⟨j, -, hj, -, his, hle⟩ := Descent.program_yields hts _ (Nat.zero_le _) _ q hp
  rwa [Nat.le_antisymm hj hle] at his

end Scriptlet
