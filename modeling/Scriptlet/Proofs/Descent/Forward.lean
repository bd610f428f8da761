import Scriptlet.Proofs.Descent.Progress

/-!
# No reader moves back

`Forward r` says that the reader `r` stops at or after the place where it began, whatever it finds there and whether it
succeeds, fails or runs out of rounds.  It is a class, so that it is found for each reader from the readers that it
is put together from; only loops and nesting need an induction.
-/

namespace Scriptlet.Descent

open Parse
open Scriptlet.Parser (Level)

variable {α β : Type}

/-- The place where the reader stops. -/
def stop (r : Descent α) (p : Position) : Position :=
  match r p with
  | .ok _ q => q
  | .error _ q => q

/-- The reader does not move back, nor past the end of the tokens. -/
class Forward (r : Descent α) : Prop where
  reaches : ∀ p : Position, p.Reaches 0 (stop r p)

theorem Forward.index_le_stop {r : Descent α} [hr : Forward r] (p : Position) : p.index ≤ (stop r p).index :=
  (hr.reaches p).index

/-! ### Choices by what was read before -/

/-- An integer literal after its sign. -/
def intConstFrom (negative : Bool) : Descent Int := do
  match ← peekKind with
  | some (.intLiteral text) =>
    let n ← intValue negative text
    advance
    return n
  | _ => unexpected .intLiteral

theorem intConst_eq : intConst = take (.symbol .minus) >>= intConstFrom := rfl

/-- The comparator of one constant and perhaps others. -/
def comparatorOf (first : Const) : List Const → Comparator
  | [] => .const first
  | others => .oneOf (first :: others)

theorem comparator_eq : comparator = do
    if (← peekKind) == some (.keyword .rangeKw) then spanned caseRange
    else
      let first ← const
      let others ← constsFrom (← rounds)
      return comparatorOf first others := by
  unfold comparator
  congr 1
  funext k
  split
  · rfl
  · refine congrArg (const >>= ·) (funext fun first => congrArg (rounds >>= ·) (funext fun n => ?_))
    refine congrArg (constsFrom n >>= ·) (funext fun others => ?_)
    cases others <;> rfl

namespace Forward

/-! ### Sequences and single tokens -/

instance pure (a : α) : Forward (Pure.pure a : Descent α) := ⟨Position.Reaches.refl⟩

instance bind (r : Descent α) (f : α → Descent β) [hr : Forward r] [hf : ∀ a, Forward (f a)] : Forward (r >>= f) := by
  refine ⟨fun p => ?_⟩
  have h := hr.reaches p
  unfold stop at h ⊢
  cases hrp : r p with
  | ok a q =>
    rw [bind_of_ok hrp]
    rw [hrp] at h
    exact h.trans ((hf a).reaches q)
  | error e q =>
    rw [bind_of_error hrp]
    rwa [hrp] at h

instance ite (c : Prop) [Decidable c] (r r' : Descent α) [Forward r] [Forward r'] : Forward (if c then r else r') := by
  split <;> infer_instance

instance : Forward peekKind := ⟨Position.Reaches.refl⟩

instance : Forward peekSecond := ⟨Position.Reaches.refl⟩

instance : Forward nextSpan := ⟨Position.Reaches.refl⟩

instance : Forward lastSpan := ⟨Position.Reaches.refl⟩

instance : Forward rounds := ⟨Position.Reaches.refl⟩

instance : Forward advance := ⟨Position.Reaches.to_next⟩

instance (x : Expected) : Forward (unexpected x : Descent α) := ⟨Position.Reaches.refl⟩

instance (text : String) : Forward (outOfRange text : Descent α) := ⟨Position.Reaches.refl⟩

instance : Forward (exhausted : Descent α) := ⟨Position.Reaches.refl⟩

instance (k : TokenKind) : Forward (take k) := by unfold take; infer_instance

instance (s : Symbol) : Forward (symbol s) := by unfold symbol; infer_instance

instance (k : Keyword) : Forward (keyword k) := by unfold keyword; infer_instance

instance : Forward separator := by unfold separator; infer_instance

instance (negative : Bool) (text : String) : Forward (intValue negative text) := by
  unfold intValue; split <;> infer_instance

instance (text : String) : Forward (doubleValue text) := by unfold doubleValue; split <;> infer_instance

/-- A choice by the next token. -/
private theorem peek {f : Option TokenKind → Descent α} (h : ∀ k, Forward (f k)) : Forward (peekKind >>= f) :=
  inferInstance

instance : Forward ident := by
  refine peek fun k => ?_
  split <;> infer_instance

/-! ### Combinations -/

instance (r : Descent (Span → α)) [Forward r] : Forward (spanned r) := by unfold spanned; infer_instance

instance items (item : Descent α) [Forward item] (fuel : Nat) : Forward (items item fuel) := by
  induction fuel <;> unfold Descent.items <;> infer_instance

instance (item : Descent α) [Forward item] : Forward (list item) := by unfold list; infer_instance

/-! ### Expressions -/

instance leftAssocFrom (ops : Level) (operand : Descent Expr) [Forward operand] (fuel : Nat) (lhs : Expr) :
    Forward (leftAssocFrom ops operand fuel lhs) := by
  induction fuel generalizing lhs with
  | zero => exact inferInstanceAs (Forward exhausted)
  | succ fuel ih =>
    refine peek fun k => ?_
    split <;> infer_instance

instance (ops : Level) (operand : Descent Expr) [Forward operand] : Forward (leftAssoc ops operand) := by
  unfold leftAssoc; infer_instance

instance powerFrom (operand : Descent Expr) [Forward operand] (fuel : Nat) : Forward (powerFrom operand fuel) := by
  induction fuel <;> unfold Descent.powerFrom <;> infer_instance

instance unaryFrom (operand : Descent Expr) [Forward operand] (fuel : Nat) : Forward (unaryFrom operand fuel) := by
  induction fuel with
  | zero => exact inferInstanceAs (Forward exhausted)
  | succ fuel ih =>
    refine peek fun k => ?_
    split <;> infer_instance

section Expressions

variable (inner : Descent Expr) [Forward inner]

instance callExpr : Forward (callExpr inner) := by unfold Descent.callExpr; infer_instance

instance nameExpr : Forward nameExpr := by unfold Descent.nameExpr; infer_instance

instance literal (v : Literal) : Forward (literal v) := by unfold Descent.literal; infer_instance

instance inputCall : Forward (inputCall inner) := by unfold Descent.inputCall; infer_instance

instance parenthesized : Forward (parenthesized inner) := by unfold Descent.parenthesized; infer_instance

instance primary : Forward (primary inner) := by
  refine peek fun k => ?_
  split <;> infer_instance

instance : Forward (unary inner) := by unfold unary; infer_instance

instance : Forward (power inner) := by unfold power; infer_instance

instance : Forward (product inner) := by unfold product; infer_instance

instance : Forward (sum inner) := by unfold sum; infer_instance

instance : Forward (relation inner) := by unfold relation; infer_instance

instance logic : Forward (logic inner) := by unfold Descent.logic; infer_instance

end Expressions

instance expr (depth : Nat) : Forward (expr depth) := by
  induction depth with
  | zero => exact inferInstanceAs (Forward exhausted)
  | succ depth ih => exact inferInstanceAs (Forward (Descent.logic _))

/-! ### Parts of statements -/

instance : Forward typeName := by
  refine peek fun k => ?_
  split <;> infer_instance

instance (s : Symbol) : Forward (typeAfter s) := by unfold typeAfter; infer_instance

instance : Forward param := by unfold param; infer_instance

instance (negative : Bool) : Forward (intConstFrom negative) := by
  refine peek fun k => ?_
  split <;> infer_instance

instance : Forward intConst := by rw [intConst_eq]; infer_instance

instance constValue (negative : Bool) : Forward (constValue negative) := by
  refine peek fun k => ?_
  split <;> infer_instance

instance : Forward const := by unfold const; infer_instance

instance constsFrom (fuel : Nat) : Forward (constsFrom fuel) := by
  induction fuel <;> unfold Descent.constsFrom <;> infer_instance

instance : Forward caseRange := by unfold caseRange; infer_instance

instance : Forward comparator := by rw [comparator_eq]; infer_instance

set_option synthInstance.maxSize 256 in
instance : Forward forRange := by unfold forRange; infer_instance

/-! ### Statements -/

section Statements

variable (e : Descent Expr) (b : Descent Block) [Forward e] [Forward b]

instance : Forward (iterable e) := by unfold iterable; infer_instance

instance (k : Keyword) : Forward (decl e k) := by unfold decl; infer_instance

instance : Forward (printStmt e) := by unfold printStmt; infer_instance

instance : Forward (returnStmt e) := by unfold returnStmt; infer_instance

instance : Forward (assignStmt e) := by unfold assignStmt; infer_instance

instance : Forward (callStmt e) := by unfold callStmt; infer_instance

instance : Forward (forStmt e b) := by unfold forStmt; infer_instance

instance : Forward (whileStmt e b) := by unfold whileStmt; infer_instance

instance ifFrom (fuel : Nat) : Forward (ifFrom e b fuel) := by
  induction fuel <;> unfold Descent.ifFrom <;> infer_instance

instance : Forward (ifStmt e b) := by unfold ifStmt; infer_instance

instance : Forward (caseClause b) := by unfold caseClause; infer_instance

instance casesFrom (fuel : Nat) : Forward (casesFrom b fuel) := by
  induction fuel <;> unfold Descent.casesFrom <;> infer_instance

instance : Forward (switchStmt e b) := by unfold switchStmt; infer_instance

instance : Forward (letItem e) := by unfold letItem; infer_instance

instance : Forward (stmt e b) := by
  refine peek fun k => ?_
  split <;> infer_instance

instance stmtsFrom (s : Descent Stmt) [Forward s] (fuel : Nat) : Forward (stmtsFrom s fuel) := by
  induction fuel <;> unfold Descent.stmtsFrom <;> infer_instance

instance block (depth : Nat) : Forward (block e depth) := by
  induction depth <;> unfold Descent.block <;> infer_instance

instance : Forward (func b) := by unfold func; infer_instance

instance : Forward (item e b) := by
  refine peek fun k => ?_
  split <;> infer_instance

instance itemsToEnd (i : Descent Item) [Forward i] (fuel : Nat) : Forward (itemsToEnd i fuel) := by
  induction fuel <;> unfold Descent.itemsToEnd <;> infer_instance

end Statements

instance (depth : Nat) : Forward (program depth) := by unfold program; infer_instance

end Forward

end Scriptlet.Descent
