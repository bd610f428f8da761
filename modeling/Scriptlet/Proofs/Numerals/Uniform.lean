import Scriptlet.Proofs.Numerals.Gap

/-!
# Every production sees only the value of a literal

An instance of `Uniform` for each reader of the grammar.  The digits of a literal ahead are looked at in three places: a
primary expression, an integer constant and a constant of a case.  There the literal is taken with its sign
(`Meets.intValue`, `Uniform.signed`), and the minus that makes it negative is the token before it.
-/

namespace Scriptlet.Descent

open Parse
open Scriptlet.Parser (Level)

variable {α : Type}

/-! ### Where the literal is taken -/

/-- The literal is read as its value, if what is done with it ends in the same way for all digits. -/
theorem Meets.intValue {g : Gap} {negative : Bool} (hsign : negative = true → g.Signed) {f : Int → Descent α}
    (hf : ∀ v d, f v (g.place g.before.length d) = f v (g.place g.before.length "")) :
    Meets g fun d => (intValue negative d >>= f) (g.place g.before.length d) := by
  have hvalue := Meets.value hsign (fun v => f v (g.place g.before.length "")) g.before.length
  have hread (d : String) : (Descent.intValue negative d >>= f) (g.place g.before.length d) =
      g.taken g.before.length negative (fun v => f v (g.place g.before.length "")) d := by
    unfold Descent.intValue Gap.taken
    cases Parser.intValue? negative d with
    | some v => exact hf v d
    | none =>
      rw [← g.nextSpan_at d]
      rfl
  simp only [hread]
  exact hvalue

/-- The literal is consumed. -/
private theorem advance_at (g : Gap) (d : String) :
    advance (g.place g.before.length d) = advance (g.place g.before.length "") := by
  have hnext (d : String) : advance (g.place g.before.length d) = .ok () (g.place g.before.length d).next := rfl
  rw [hnext, hnext, Gap.next_place, Gap.next_place, g.place_after]

private theorem advance_bind_at (g : Gap) (f : Unit → Descent α) (d : String) :
    (advance >>= f) (g.place g.before.length d) = (advance >>= f) (g.place g.before.length "") := by
  rw [bind_eq_goOn, advance_at, bind_eq_goOn]

/-- Nothing comes after a token that is not expected. -/
private theorem unexpected_bind {β : Type} (x : Expected) (f : α → Descent β) : (unexpected x >>= f) = unexpected x :=
  rfl

namespace Uniform

/-- A choice by the token after a minus, if there is one. -/
theorem signed {f : Bool → Option TokenKind → Descent α}
    (hliteral : ∀ g negative, (negative = true → Gap.Signed g) →
      Meets g fun d => f negative (some (.intLiteral d)) (g.place g.before.length d))
    (hf : ∀ negative k, UniformBefore (f negative k)) :
    Uniform (take (.symbol .minus) >>= fun negative => peekKind >>= f negative) := by
  have hchoice (g : Gap) (negative : Bool) (n : Nat) (hn : n ≤ g.before.length)
      (hsign : n = g.before.length → negative = true → g.Signed) :
      Meets g fun d => (peekKind >>= f negative) (g.place n d) := by
    simp only [peekKind_bind]
    rcases Nat.lt_or_eq_of_le hn with hlt | rfl
    · simp only [Gap.kind?_of_lt _ hlt]
      exact (hf _ _).meets g n hlt
    · simp only [g.kind?_at]
      exact hliteral g negative (hsign rfl)
  refine ⟨fun g n hn => ?_⟩
  have hplain (hkind : ∀ d, (g.place n d).kind? ≠ some (.symbol .minus)) :
      Meets g fun d => (take (.symbol .minus) >>= fun negative => peekKind >>= f negative) (g.place n d) := by
    have hread (d : String) : (take (.symbol .minus) >>= fun negative => peekKind >>= f negative) (g.place n d) =
        (peekKind >>= f false) (g.place n d) := bind_of_ok (take_of_ne (hkind d))
    simp only [hread]
    exact hchoice g false n hn fun _ h => by cases h
  rcases Nat.lt_or_eq_of_le hn with hlt | rfl
  · by_cases hminus : g.before[n].kind = .symbol .minus
    · have hread (d : String) : (take (.symbol .minus) >>= fun negative => peekKind >>= f negative) (g.place n d) =
          (peekKind >>= f true) (g.place (n + 1) d) := by
        rw [← Gap.next_place]
        exact bind_of_ok (take_of_kind (by rw [Gap.kind?_of_lt d hlt, hminus]))
      simp only [hread]
      refine hchoice g true (n + 1) hlt fun hlast _ => ⟨g.before[n], ?_, hminus⟩
      rw [List.getLast?_eq_getElem?, ← hlast, Nat.add_sub_cancel]
      exact List.getElem?_eq_getElem hlt
    · refine hplain fun d => ?_
      rw [Gap.kind?_of_lt d hlt]
      simpa using hminus
  · refine hplain fun d => ?_
    rw [g.kind?_at]
    simp

/-! ### Combinations -/

instance spanned (r : Descent (Span → α)) [Uniform r] : Uniform (spanned r) := by
  unfold Descent.spanned; infer_instance

/-- A choice by whether the next token is this symbol, which is not consumed. -/
private theorem atSymbol (s : Symbol) (r r' : Descent α) [Uniform r] [Uniform r'] :
    Uniform (peekKind >>= fun k => if k == some (.symbol s) then r else r') :=
  peek (r := r') (fun _ => rfl) fun _ => inferInstance

/-- A choice by whether the next token is this keyword, which is not consumed. -/
private theorem atKeyword (w : Keyword) (r r' : Descent α) [Uniform r] [Uniform r'] :
    Uniform (peekKind >>= fun k => if k == some (.keyword w) then r else r') :=
  peek (r := r') (fun _ => rfl) fun _ => inferInstance

instance separator : Uniform separator := by
  have hclose : Uniform (peekKind >>= fun k => if k == some (.symbol .rparen) then Pure.pure () else
      Descent.unexpected .separator) := atSymbol _ _ _
  unfold Descent.separator
  infer_instance

instance items (item : Descent α) [Uniform item] (fuel : Nat) : Uniform (items item fuel) := by
  induction fuel with
  | zero => exact exhausted
  | succ fuel ih =>
    have hitem : Uniform (peekKind >>= fun k => if k == some (.symbol .comma) then Descent.unexpected .listItem else do
        let x ← item
        Descent.separator
        return x :: (← Descent.items item fuel)) := atSymbol _ _ _
    unfold Descent.items
    infer_instance

instance list (item : Descent α) [Uniform item] : Uniform (list item) := by unfold Descent.list; infer_instance

/-! ### Expressions -/

instance leftAssocFrom (ops : Level) (operand : Descent Expr) [Uniform operand] (fuel : Nat) (lhs : Expr) :
    Uniform (leftAssocFrom ops operand fuel lhs) := by
  induction fuel generalizing lhs with
  | zero => exact exhausted
  | succ fuel ih =>
    refine peek (r := Pure.pure lhs) (fun _ => rfl) fun k => ?_
    split <;> infer_instance

instance leftAssoc (ops : Level) (operand : Descent Expr) [Uniform operand] : Uniform (leftAssoc ops operand) := by
  unfold Descent.leftAssoc; infer_instance

instance powerFrom (operand : Descent Expr) [Uniform operand] (fuel : Nat) : Uniform (powerFrom operand fuel) := by
  induction fuel <;> unfold Descent.powerFrom <;> infer_instance

instance unaryFrom (operand : Descent Expr) [Uniform operand] (fuel : Nat) : Uniform (unaryFrom operand fuel) := by
  induction fuel with
  | zero => exact exhausted
  | succ fuel ih =>
    refine peek (r := operand) (fun _ => rfl) fun k => ?_
    split <;> infer_instance

section Expressions

variable (inner : Descent Expr) [Uniform inner]

instance callExpr : Uniform (callExpr inner) := by unfold Descent.callExpr; infer_instance

instance nameExpr : Uniform nameExpr := by unfold Descent.nameExpr; infer_instance

instance literal (v : Literal) : UniformBefore (literal v) := by unfold Descent.literal; infer_instance

instance inputCall : UniformBefore (inputCall inner) := by unfold Descent.inputCall; infer_instance

instance parenthesized : UniformBefore (parenthesized inner) := by unfold Descent.parenthesized; infer_instance

/-- A literal that is an expression is read without a sign. -/
instance primary : Uniform (primary inner) := by
  refine peekLiteral (fun g => Meets.intValue (fun h => by cases h) fun v d => ?_) fun k => ?_
  · have hread (d : String) : Descent.literal (.int v) (g.place g.before.length d) =
        (Descent.advance >>= fun _ => Pure.pure (Expr.literal (.int v) g.span)) (g.place g.before.length d) := by
      rw [← g.nextSpan_at d]
      rfl
    rw [hread, advance_bind_at, ← hread]
  · split
    case h_8 =>
      refine UniformBefore.peekSecond (r := Descent.nameExpr) (fun _ => rfl) fun k => ?_
      infer_instance
    all_goals infer_instance

instance unary : Uniform (unary inner) := by unfold Descent.unary; infer_instance

instance power : Uniform (power inner) := by unfold Descent.power; infer_instance

instance product : Uniform (product inner) := by unfold Descent.product; infer_instance

instance sum : Uniform (sum inner) := by unfold Descent.sum; infer_instance

instance relation : Uniform (relation inner) := by unfold Descent.relation; infer_instance

instance logic : Uniform (logic inner) := by unfold Descent.logic; infer_instance

end Expressions

instance expr (depth : Nat) : Uniform (expr depth) := by
  induction depth with
  | zero => exact exhausted
  | succ depth ih => exact logic _

/-! ### Parts of statements -/

instance typeName : Uniform typeName := by
  refine peek (r := Descent.unexpected .type) (fun _ => rfl) fun k => ?_
  split <;> infer_instance

instance typeAfter (s : Symbol) : Uniform (typeAfter s) := by unfold Descent.typeAfter; infer_instance

instance param : Uniform param := by unfold Descent.param; infer_instance

instance intConst : Uniform intConst := by
  refine signed (fun g negative hsign => Meets.intValue hsign fun v d => advance_bind_at g _ d) fun negative k => ?_
  split <;> infer_instance

instance const : Uniform const := by
  have hvalue : Uniform (take (.symbol .minus) >>= fun negative => constValue negative >>= fun value =>
      advance >>= fun _ => Pure.pure fun span : Span => (⟨value, span⟩ : Const)) := by
    unfold constValue
    simp only [bind_assoc]
    refine signed (fun g negative hsign => ?_) fun negative k => ?_
    · simp only [bind_assoc, pure_bind]
      exact Meets.intValue hsign fun v d => advance_bind_at g _ d
    · split <;> simp only [bind_assoc, pure_bind, unexpected_bind] <;> infer_instance
  unfold Descent.const
  infer_instance

instance constsFrom (fuel : Nat) : Uniform (constsFrom fuel) := by
  induction fuel <;> unfold Descent.constsFrom <;> infer_instance

instance caseRange : Uniform caseRange := by unfold Descent.caseRange; infer_instance

instance comparator : Uniform comparator := by
  rw [comparator_eq]
  exact atKeyword _ _ _

set_option synthInstance.maxSize 256 in
instance forRange : Uniform forRange := by unfold Descent.forRange; infer_instance

/-! ### Statements -/

section Statements

variable (e : Descent Expr) (b : Descent Block) [Uniform e] [Uniform b]

instance iterable : Uniform (iterable e) := atKeyword _ _ _

instance decl (k : Keyword) : Uniform (decl e k) := by unfold Descent.decl; infer_instance

instance printStmt : Uniform (printStmt e) := by unfold Descent.printStmt; infer_instance

instance returnStmt : Uniform (returnStmt e) := by unfold Descent.returnStmt; infer_instance

instance assignStmt : Uniform (assignStmt e) := by unfold Descent.assignStmt; infer_instance

instance callStmt : Uniform (callStmt e) := by unfold Descent.callStmt; infer_instance

instance forStmt : Uniform (forStmt e b) := by unfold Descent.forStmt; infer_instance

instance whileStmt : Uniform (whileStmt e b) := by unfold Descent.whileStmt; infer_instance

instance ifFrom (fuel : Nat) : Uniform (ifFrom e b fuel) := by
  induction fuel with
  | zero => exact exhausted
  | succ fuel ih =>
    have helse (cond : Expr) (thenBlock : Block) : Uniform (peekKind >>= fun k =>
        if k == some (.keyword .ifKw) then do
          let inner ← Descent.spanned (Descent.ifFrom e b fuel)
          return Stmt.ifElse cond thenBlock (.mk [inner] inner.span)
        else do return Stmt.ifElse cond thenBlock (← b)) := atKeyword _ _ _
    unfold Descent.ifFrom
    infer_instance

instance ifStmt : Uniform (ifStmt e b) := by unfold Descent.ifStmt; infer_instance

instance caseClause : Uniform (caseClause b) := by unfold Descent.caseClause; infer_instance

instance casesFrom (fuel : Nat) : Uniform (casesFrom b fuel) := by
  induction fuel <;> unfold Descent.casesFrom <;> infer_instance

instance switchStmt : Uniform (switchStmt e b) := by unfold Descent.switchStmt; infer_instance

instance letItem : Uniform (letItem e) := by unfold Descent.letItem; infer_instance

instance stmt : Uniform (stmt e b) := by
  refine peek (r := Descent.unexpected .stmt) (fun _ => rfl) fun k => ?_
  split
  case h_9 =>
    refine UniformBefore.peekSecond (r := Descent.callStmt e) (fun _ => rfl) fun k => ?_
    infer_instance
  all_goals infer_instance

instance stmtsFrom (s : Descent Stmt) [Uniform s] (fuel : Nat) : Uniform (stmtsFrom s fuel) := by
  induction fuel with
  | zero => exact exhausted
  | succ fuel ih => exact atSymbol _ _ _

instance block (depth : Nat) : Uniform (block e depth) := by
  induction depth <;> unfold Descent.block <;> infer_instance

instance func : Uniform (func b) := by unfold Descent.func; infer_instance

instance item : Uniform (item e b) := by
  refine peek (r := Descent.unexpected .item) (fun _ => rfl) fun k => ?_
  split <;> infer_instance

instance itemsToEnd (i : Descent Item) [Uniform i] (fuel : Nat) : Uniform (itemsToEnd i fuel) := by
  induction fuel with
  | zero => exact exhausted
  | succ fuel ih =>
    refine peek (r := do
      let x ← i
      return x :: (← Descent.itemsToEnd i fuel)) (fun _ => rfl) fun k => ?_
    infer_instance

end Statements

instance program (depth : Nat) : Uniform (program depth) := by unfold Descent.program; infer_instance

instance wholeExpr (depth : Nat) : Uniform (wholeExpr depth) := by
  have hend (e : Expr) : Uniform (peekKind >>= fun k =>
      if k.isNone then Pure.pure e else Descent.unexpected .eof) :=
    peek (r := Descent.unexpected .eof) (fun _ => rfl) fun _ => inferInstance
  unfold Descent.wholeExpr
  infer_instance

end Uniform

end Scriptlet.Descent
