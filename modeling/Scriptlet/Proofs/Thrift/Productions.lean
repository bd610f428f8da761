import Scriptlet.Proofs.Thrift.Saving

/-!
# No parse does work over again

`parse_thrifty`: whatever the tokens, a parse opens its checkpoints further and further on, each at a name, and
consumes names at most twice and all other tokens at most once.

Every production saves.  Expressions may be stuck, namely before an opening parenthesis, if the call of a name has
failed after it and the plain name was read instead.  Nothing that comes after an expression begins with a parenthesis,
so that from there on no token is used.
-/

namespace Scriptlet.Parse

open Spans
open Scriptlet.Parser (Level)

variable {ts : List Token} {R : Nat → Prop} {i : Nat}

/-! ### Expressions -/

/-- The parser of expressions saves, and may be stuck before an opening parenthesis. -/
def SavesExpr (ts : List Token) (x : Parser Expr) : Prop := ∀ i, Saves ts (BeforeParen ts) i x

section Expressions

variable {inner operand : Parser Expr} {ops : Level}

private theorem args_save (h : SavesExpr ts inner) (i : Nat) : Saves ts Nowhere i (Parser.list inner) :=
  .list h fun _ _ hparen => hparen.separator

private theorem leftAssocFrom_idles (hops : ops.op? (some (.symbol .lparen)) = none) (hparen : BeforeParen ts i)
    (fuel : Nat) (lhs : Expr) : Idles ts (BeforeParen ts) i (Parser.leftAssocFrom ops operand fuel lhs) := by
  cases fuel with
  | zero => exact .exhausted
  | succ fuel =>
    refine .peek fun k hk => ?_
    rw [← hk, show ts[i]?.map Token.kind = _ from hparen, hops]
    exact .pure hparen

private theorem leftAssocFrom_saves (hops : ops.op? (some (.symbol .lparen)) = none) (h : SavesExpr ts operand)
    (fuel : Nat) (lhs : Expr) : SavesExpr ts (Parser.leftAssocFrom ops operand fuel lhs) := by
  induction fuel generalizing lhs with
  | zero => exact fun _ => .exhausted
  | succ fuel ih =>
    refine fun i => .peek fun k _ => ?_
    split
    · exact .pure
    · refine .advance fun j => (h j).bind_idles (fun rhs => ih _) fun rhs j hparen => ?_
      exact leftAssocFrom_idles hops hparen fuel _

private theorem leftAssoc_saves (hops : ops.op? (some (.symbol .lparen)) = none) (h : SavesExpr ts operand) :
    SavesExpr ts (Parser.leftAssoc ops operand) := by
  refine fun i => (h i).bind_idles (fun lhs j => .rounds fun n => leftAssocFrom_saves hops h n lhs j) ?_
  exact fun lhs j hparen => .rounds fun n => leftAssocFrom_idles hops hparen n lhs

private theorem powerFrom_saves (h : SavesExpr ts operand) (fuel : Nat) :
    SavesExpr ts (Parser.powerFrom operand fuel) := by
  induction fuel with
  | zero => exact fun _ => .exhausted
  | succ fuel ih =>
    refine fun i => .enter _ ((h i).bind_idles (fun _ _ => .take fun _ j => .ite ?_ .pure) fun _ _ hparen => ?_)
    · exact (ih j).bind_idles (fun _ _ => .pure) fun _ _ hparen => .pure hparen
    · exact .take (hparen.ne (by decide)) (.pure hparen)

private theorem unaryFrom_saves (h : SavesExpr ts operand) (fuel : Nat) :
    SavesExpr ts (Parser.unaryFrom operand fuel) := by
  induction fuel with
  | zero => exact fun _ => .exhausted
  | succ fuel ih =>
    refine fun i => .peek fun k _ => ?_
    split
    · exact h i
    · refine .nextSpan fun _ => .advance fun j => ?_
      exact (ih j).bind_idles (fun _ _ => .pure) fun _ _ hparen => .pure hparen

/-- Where no parenthesis stands after a name, the call of it fails at once; where one does, the plain name ends. -/
private theorem callOrName_saves {name : String} (h : SavesExpr ts inner) (hname : IsAt ts i (.identifier name)) :
    Saves ts (BeforeParen ts) i (Parser.orElse (Parser.callExpr inner) Parser.nameExpr) := by
  refine .orElse hname (fun _ => (args_save h _).bind fun _ _ => .lastSpan fun _ => .pure) (fun _ => .pure) ?_
  by_cases hparen : BeforeParen ts (i + 1)
  · exact .inr fun _ => .pure hparen
  · exact .inl fun _ => .list hparen

/-- An expression and then a symbol. -/
private theorem SavesExpr.symbol {α : Type} {x : Parser Expr} {a : Symbol} {f : Expr → Span → Parser α}
    (h : SavesExpr ts x) (ha : a ≠ .lparen) (hf : ∀ e l j, Saves ts R j (f e l)) :
    Saves ts R i (x >>= fun e => Parser.symbol a >>= fun l => f e l) :=
  (h i).bind_idles (fun e _ => (Saves.symbol a).bind fun l => hf e l) fun _ _ hparen => .symbol (hparen.ne ha)

private theorem primary_saves (h : SavesExpr ts inner) : SavesExpr ts (Parser.primary inner) := by
  refine fun i => .enter _ (.nextSpan fun _ => .peek fun k hk => ?_)
  split
  · exact (Saves.intValue _ _).bind fun _ _ => .advance fun _ => .pure
  · exact (Saves.doubleValue _).bind fun _ _ => .advance fun _ => .pure
  · exact .advance fun _ => .pure
  · exact .advance fun _ => .pure
  · exact .advance fun _ => .pure
  · exact .advance fun j => (args_save h j).bind fun _ _ => .lastSpan fun _ => .pure
  · exact .advance fun j => h.symbol (by decide) fun _ _ _ => .pure
  · exact callOrName_saves h hk
  · exact .unexpected _

private theorem logic_saves (h : SavesExpr ts inner) : SavesExpr ts (Parser.logic inner) := by
  have hunary : SavesExpr ts (Parser.unary inner) := fun i => .rounds fun n => unaryFrom_saves (primary_saves h) n i
  have hpower : SavesExpr ts (Parser.power inner) := fun i => .rounds fun n => powerFrom_saves hunary n i
  exact leftAssoc_saves rfl (leftAssoc_saves rfl (leftAssoc_saves rfl (leftAssoc_saves rfl hpower)))

private theorem expr_saves (depth : Nat) : SavesExpr ts (Parser.expr depth) := by
  induction depth with
  | zero => exact fun _ => .exhausted
  | succ depth ih => exact fun i => .enter _ (logic_saves ih i)

end Expressions

/-! ### Parts of statements -/

private theorem typeName_saves : Saves ts R i Parser.typeName := by
  refine .peek fun k _ => ?_
  split
  · exact .nextSpan fun _ => .advance fun _ => .pure
  · exact .unexpected _

private theorem typeAfter_saves (a : Symbol) : Saves ts R i (Parser.typeAfter a) :=
  .take fun _ _ => .ite (typeName_saves.bind fun _ _ => .pure) .pure

private theorem param_saves (i : Nat) : Saves ts R i Parser.param :=
  Saves.ident.bind fun _ _ => (Saves.symbol _).bind fun _ _ => typeName_saves.bind fun _ _ => .pure

private theorem intConst_saves : Saves ts R i Parser.intConst := by
  refine .take fun _ _ => .peek fun k _ => ?_
  split
  · exact (Saves.intValue _ _).bind fun _ _ => .advance fun _ => .pure
  · exact .unexpected _

private theorem constValue_saves (negative : Bool) : Saves ts R i (Parser.constValue negative) := by
  refine .peek fun k _ => ?_
  split
  · exact (Saves.intValue _ _).bind fun _ _ => .pure
  · exact (Saves.doubleValue _).bind fun _ _ => .pure
  · exact .pure
  · exact .pure
  · exact .pure
  · exact .unexpected _

private theorem const_saves : Saves ts R i Parser.const :=
  .spanned (.take fun _ _ => (constValue_saves _).bind fun _ _ => .advance fun _ => .pure)

private theorem constsFrom_saves (fuel : Nat) : Saves ts R i (Parser.constsFrom fuel) := by
  induction fuel generalizing i R with
  | zero => exact .exhausted
  | succ fuel ih => exact .take fun _ _ => .ite (const_saves.bind fun _ _ => ih.bind fun _ _ => .pure) .pure

private theorem caseRange_saves : Saves ts R i Parser.caseRange :=
  (Saves.keyword _).bind fun _ _ => (Saves.symbol _).bind fun _ _ => intConst_saves.bind fun _ _ =>
    (Saves.symbol _).bind fun _ _ => intConst_saves.bind fun _ _ => (Saves.symbol _).bind fun _ _ => .pure

private theorem comparator_saves : Saves ts R i Parser.comparator := by
  refine .enter _ (.atKeyword fun _ => .ite (.spanned caseRange_saves) ?_)
  refine const_saves.bind fun _ _ => .rounds fun n => (constsFrom_saves n).bind fun others _ => ?_
  cases others with
  | nil => exact .pure
  | cons c cs => exact .pure

private theorem forRange_saves : Saves ts R i Parser.forRange :=
  (Saves.keyword _).bind fun _ _ => (Saves.symbol _).bind fun _ _ => intConst_saves.bind fun _ _ =>
    (Saves.symbol _).bind fun _ _ => intConst_saves.bind fun _ _ => (Saves.symbol _).bind fun _ _ =>
      intConst_saves.bind fun _ _ => (Saves.symbol _).bind fun _ _ => .pure

/-! ### Statements -/

/-- The parser of blocks saves, and uses no token before an opening parenthesis. -/
structure SavesBlock (ts : List Token) (b : Parser Block) : Prop where
  saves : ∀ i, Saves ts Nowhere i b
  idles : ∀ {α : Type} (f : Block → Parser α) i, BeforeParen ts i → Idles ts Nowhere i (b >>= f)

section Statements

variable {e : Parser Expr} {b : Parser Block}

/-- An expression and then a block. -/
private theorem SavesBlock.after {α β : Type} {x : Parser α} {f : α → Block → Parser β} (hb : SavesBlock ts b)
    (hx : Saves ts (BeforeParen ts) i x) (hf : ∀ a block j, Saves ts Nowhere j (f a block)) :
    Saves ts Nowhere i (x >>= fun a => b >>= fun block => f a block) :=
  hx.bind_idles (fun a j => (hb.saves j).bind fun block => hf a block) fun _ j hparen => hb.idles _ j hparen

private theorem iterable_saves (he : SavesExpr ts e) : Saves ts (BeforeParen ts) i (Parser.iterable e) := by
  refine .atKeyword fun _ => .ite (.spanned forRange_saves) ?_
  exact (he i).bind_idles (fun _ _ => .pure) fun _ _ hparen => .pure hparen

private theorem decl_saves (he : SavesExpr ts e) (k : Keyword) : Saves ts R i (Parser.decl e k) := by
  refine .enter _ ((Saves.keyword k).bind fun _ _ => Saves.ident.bind fun _ _ => (typeAfter_saves _).bind fun _ _ => ?_)
  exact (Saves.symbol _).bind fun _ _ => he.symbol (by decide) fun _ _ _ => .pure

private theorem printStmt_saves (he : SavesExpr ts e) : Saves ts R i (Parser.printStmt e) :=
  .enter _ ((Saves.keyword _).bind fun _ j => (args_save he j).bind fun _ _ => (Saves.symbol _).bind fun _ _ => .pure)

private theorem returnStmt_saves (he : SavesExpr ts e) : Saves ts R i (Parser.returnStmt e) :=
  .enter _ ((Saves.keyword _).bind fun _ _ => .take fun _ _ => .ite .pure (he.symbol (by decide) fun _ _ _ => .pure))

/-- After a name the token that an assignment goes on with is not the one that a call goes on with. -/
private theorem assignOrCall_saves {name : String} (he : SavesExpr ts e) (hname : IsAt ts i (.identifier name)) :
    Saves ts Nowhere i (Parser.orElse (Parser.assignStmt e) (Parser.callStmt e)) := by
  refine .orElse hname
    (fun _ => (Saves.symbol _).bind fun _ _ => he.symbol (by decide) fun _ _ _ => .pure)
    (fun _ => (args_save he _).bind fun _ _ => (Saves.symbol _).bind fun _ _ => .pure) ?_
  by_cases hassign : IsAt ts (i + 1) (.symbol .assign)
  · refine .inr fun _ => .list fun hparen => ?_
    exact BeforeParen.ne hparen (by decide) hassign
  · exact .inl fun _ => .symbol hassign

private theorem forStmt_saves (he : SavesExpr ts e) (hb : SavesBlock ts b) :
    Saves ts Nowhere i (Parser.forStmt e b) := by
  refine .enter _ ((Saves.keyword _).bind fun _ _ => Saves.ident.bind fun _ _ => (Saves.keyword _).bind fun _ _ => ?_)
  exact hb.after (iterable_saves he) fun _ _ _ => .pure

private theorem whileStmt_saves (he : SavesExpr ts e) (hb : SavesBlock ts b) :
    Saves ts Nowhere i (Parser.whileStmt e b) :=
  .enter _ ((Saves.keyword _).bind fun _ j => hb.after (he j) fun _ _ _ => .pure)

private theorem ifFrom_saves (he : SavesExpr ts e) (hb : SavesBlock ts b) (fuel : Nat) :
    Saves ts Nowhere i (Parser.ifFrom e b fuel) := by
  induction fuel generalizing i with
  | zero => exact .exhausted
  | succ fuel ih =>
    refine .enter _ ((Saves.keyword _).bind fun _ j => hb.after (he j) fun _ _ _ => ?_)
    refine .takeKeyword fun _ _ => .ite ?_ .pure
    refine .atKeyword fun _ => .ite ?_ ((hb.saves _).bind fun _ _ => .pure)
    exact (Saves.spanned ih).bind fun _ _ => .pure

private theorem caseClause_saves (hb : SavesBlock ts b) : Saves ts Nowhere i (Parser.caseClause b) := by
  refine .takeKeyword fun _ _ => .ite (comparator_saves.bind fun _ j => (hb.saves j).bind fun _ _ => .pure) ?_
  exact .takeKeyword fun _ j => .ite ((hb.saves j).bind fun _ _ => .pure) (.unexpected _)

private theorem casesFrom_saves (hb : SavesBlock ts b) (fuel : Nat) : Saves ts Nowhere i (Parser.casesFrom b fuel) := by
  induction fuel generalizing i with
  | zero => exact .exhausted
  | succ fuel ih =>
    refine .take fun _ _ => .ite .pure ?_
    exact (Saves.spanned (caseClause_saves hb)).bind fun _ _ => ih.bind fun _ _ => .pure

private theorem switchStmt_saves (he : SavesExpr ts e) (hb : SavesBlock ts b) :
    Saves ts Nowhere i (Parser.switchStmt e b) := by
  refine .enter _ ((Saves.keyword _).bind fun _ _ => he.symbol (by decide) fun _ _ _ => ?_)
  exact .rounds fun n => (casesFrom_saves hb n).bind fun _ _ => .pure

private theorem stmt_saves (he : SavesExpr ts e) (hb : SavesBlock ts b) (i : Nat) :
    Saves ts Nowhere i (Parser.stmt e b) := by
  refine .peek fun k hk => ?_
  split
  · exact Saves.bind ((decl_saves he _).bind fun _ _ => .pure) fun _ _ => .pure
  · exact (decl_saves he _).bind fun _ _ => .pure
  · exact printStmt_saves he
  · exact returnStmt_saves he
  · exact forStmt_saves he hb
  · exact whileStmt_saves he hb
  · exact .rounds fun n => ifFrom_saves he hb n
  · exact switchStmt_saves he hb
  · exact assignOrCall_saves he hk
  · exact .unexpected _

private theorem stmtsFrom_saves {s : Parser Stmt} (hs : ∀ i, Saves ts Nowhere i s) (fuel : Nat) :
    Saves ts Nowhere i (Parser.stmtsFrom s fuel) := by
  induction fuel generalizing i with
  | zero => exact .exhausted
  | succ fuel ih => exact .atSymbol fun _ => .ite .pure ((hs i).bind fun _ _ => ih.bind fun _ _ => .pure)

private theorem block_idles (depth : Nat) {α : Type} (f : Block → Parser α) (hparen : BeforeParen ts i) :
    Idles ts Nowhere i (Parser.block e depth >>= f) := by
  cases depth with
  | zero => exact (Idles.exhausted (R := Nowhere)).bind fun _ hR => hR.elim
  | succ depth =>
    unfold Parser.block
    rw [bind_assoc]
    refine .enter _ ?_
    rw [bind_assoc]
    exact .symbol (hparen.ne (by decide))

private theorem block_saves (he : SavesExpr ts e) (depth : Nat) : SavesBlock ts (Parser.block e depth) := by
  refine ⟨?_, fun f i hparen => block_idles depth f hparen⟩
  induction depth with
  | zero => exact fun _ => .exhausted
  | succ depth ih =>
    have hb : SavesBlock ts (Parser.block e depth) := ⟨ih, fun f i hparen => block_idles depth f hparen⟩
    refine fun i => .enter _ ((Saves.symbol _).bind fun _ _ => .rounds fun n => ?_)
    refine (stmtsFrom_saves (fun j => .spanned (stmt_saves he hb j)) n).bind fun _ _ => ?_
    exact (Saves.symbol _).bind fun _ _ => .pure

/-! ### Programs -/

private theorem func_saves (hb : SavesBlock ts b) : Saves ts Nowhere i (Parser.func b) := by
  have hparam (j : Nat) : Saves ts Nowhere j Parser.param := param_saves j
  have hparams (j : Nat) : Saves ts Nowhere j (Parser.list Parser.param) := .list hparam fun _ _ hR => hR.elim
  refine .enter _ ((Saves.keyword _).bind fun _ _ => Saves.ident.bind fun _ j => (hparams j).bind fun _ _ => ?_)
  exact (typeAfter_saves _).bind fun _ j => (hb.saves j).bind fun _ _ => .pure

private theorem item_saves (he : SavesExpr ts e) (hb : SavesBlock ts b) (i : Nat) :
    Saves ts Nowhere i (Parser.item e b) := by
  refine .enter _ (.atKeyword fun _ => .ite ((decl_saves he _).bind fun _ _ => .pure) ?_)
  exact .atKeyword fun _ => .ite (func_saves hb) (.unexpected _)

private theorem itemsToEnd_saves {x : Parser Item} (hx : ∀ i, Saves ts Nowhere i x) (fuel : Nat) :
    Saves ts Nowhere i (Parser.itemsToEnd x fuel) := by
  induction fuel generalizing i with
  | zero => exact .exhausted
  | succ fuel ih => exact .peek fun _ _ => .ite .pure ((hx i).bind fun _ _ => ih.bind fun _ _ => .pure)

end Statements

/-- The parser of programs uses tokens sparingly and is never stuck. -/
theorem program_saves (depth : Nat) : Saves ts Nowhere i (Parser.program depth) := by
  have he : SavesExpr ts (Parser.expr depth) := expr_saves depth
  refine .enter _ (.rounds fun n => ?_)
  exact (itemsToEnd_saves (fun j => .spanned (item_saves he (block_saves he depth) j)) n).bind fun _ _ => .pure

/-- The parser of whole expressions uses tokens sparingly and is never stuck. -/
theorem wholeExpr_saves (depth : Nat) : Saves ts Nowhere i (Parser.wholeExpr depth) := by
  refine (expr_saves depth i).bind_idles (fun _ _ => .peek fun _ _ => .ite .pure (.unexpected _)) fun _ j hparen => ?_
  refine .peek fun k hk => ?_
  rw [← hk, show ts[j]?.map Token.kind = _ from hparen]
  exact .unexpected _

/-! ### Whole parses -/

private theorem fresh_start (ts : List Token) : Fresh ts [] 0 (.start ts) :=
  ⟨rfl, Nat.zero_le _, rfl, .nil, fun _ h => absurd h List.not_mem_nil⟩

/-- A parser that saves has a thrifty history, whether it succeeds or fails. -/
theorem Saves.run {α : Type} {x : Parser α} (h : Saves ts R 0 x) : Thrifty ts (x.run ts).history := by
  have hx := h [] _ (fresh_start ts)
  unfold Parser.run
  generalize x (.start ts) = r at hx
  cases hx with
  | ok hl _ _ => exact hl.thrifty.of_used
  | stuck hl _ _ => exact hl.thrifty.of_used
  | error hl => exact hl.thrifty.of_used
  | exhausted hu => exact hu.of_used

/-- In every parse of a program or of an expression, names are consumed at most twice and other tokens at most once, and
the checkpoints are opened at names, each further on than the one before. -/
theorem parse_thrifty (ts : List Token) :
    Thrifty ts (programOutcome ts).history ∧ Thrifty ts (exprOutcome ts).history :=
  ⟨(program_saves _).run, (wholeExpr_saves _).run⟩

/-- In `f ( g (` both calls fail, and both names are read again. -/
example : [0, 1, 2, 3].map (fun i => (exprOutcome [⟨.identifier "f", ⟨0, 1⟩⟩, ⟨.symbol .lparen, ⟨2, 1⟩⟩,
    ⟨.identifier "g", ⟨4, 1⟩⟩, ⟨.symbol .lparen, ⟨6, 1⟩⟩]).history.count (.consume i)) = [2, 1, 2, 1] := by
  decide

end Scriptlet.Parse
