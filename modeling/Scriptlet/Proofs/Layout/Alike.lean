import Scriptlet.Proofs.Descent.Forward
import Scriptlet.Proofs.Grammar.Equivalence

/-!
# Readers do not see places

`Alike r r'` says that two readers, at places with the same kinds of tokens ahead, end alike: both succeed and have the
same kinds ahead of them, or both fail and say the same.  What they read may differ, as it holds the places of tokens,
but no choice depends on it.  So the same kinds of tokens are parsed as programs that differ in their spans alone, or
cannot be parsed for the same reason (`parseProgram_kinds`).

Like `Forward` this is a class, so that it is found for a reader from its parts.  Choices are made by what is the same
for the same kinds of tokens (`Certain`).
-/

namespace Scriptlet

namespace Parse

/-- What is wrong, without the place; nothing if the depth or the number of rounds ran out. -/
def Stop.complaint? : Stop → Option ParseError
  | error e => some e.value
  | exhausted => none

end Parse

namespace Descent

open Parse
open Scriptlet.Parser (Level)

variable {α β : Type}

/-- Two readers end alike. -/
def SameEnd (V : α → α → Prop) : EStateM.Result Stop Position α → EStateM.Result Stop Position α → Prop
  | .ok a q, .ok a' q' => V a a' ∧ q.kinds = q'.kinds
  | .error e _, .error e' _ => e.complaint? = e'.complaint?
  | _, _ => False

/-- The readers end alike where the tokens ahead are of the same kinds. -/
class Alike (r r' : Descent α) : Prop where
  ends : ∀ p p' : Position, p.kinds = p'.kinds → SameEnd (fun _ _ => True) (r p) (r' p')

/-- The reader reads the same where the tokens ahead are of the same kinds. -/
class Certain (r : Descent α) : Prop where
  ends : ∀ p p' : Position, p.kinds = p'.kinds → SameEnd Eq (r p) (r p')

namespace Alike

variable {p p' : Position}

/-! ### Sequences and single tokens -/

private theorem kind?_eq_of_kinds (h : p.kinds = p'.kinds) : p.kind? = p'.kind? := by
  rw [p.kind?_eq, p'.kind?_eq, h]

private theorem kinds_next_eq (h : p.kinds = p'.kinds) : p.next.kinds = p'.next.kinds := by
  rw [p.kinds_next, p'.kinds_next, h]

private theorem length_eq_of_kinds (h : p.kinds = p'.kinds) : p.rest.length = p'.rest.length := by
  have hl := congrArg List.length h
  simpa [Position.kinds] using hl

instance pure (a a' : α) : Alike (Pure.pure a : Descent α) (Pure.pure a') := ⟨fun _ _ h => ⟨trivial, h⟩⟩

/-- What is read by the first parts goes to readers that are alike for it. -/
private theorem sameEnd_bind {V : α → α → Prop} {r r' : Descent α} {f f' : α → Descent β}
    (h : SameEnd V (r p) (r' p')) (hf : ∀ a a', V a a' → Alike (f a) (f' a')) :
    SameEnd (fun _ _ => True) ((r >>= f) p) ((r' >>= f') p') := by
  cases hr : r p with
  | ok a q =>
    cases hr' : r' p' with
    | ok a' q' =>
      rw [hr, hr'] at h
      rw [bind_of_ok hr, bind_of_ok hr']
      exact (hf a a' h.1).ends q q' h.2
    | error e' q' =>
      rw [hr, hr'] at h
      exact h.elim
  | error e q =>
    cases hr' : r' p' with
    | ok a' q' =>
      rw [hr, hr'] at h
      exact h.elim
    | error e' q' =>
      rw [hr, hr'] at h
      rw [bind_of_error hr, bind_of_error hr']
      exact h

instance bind (r r' : Descent α) (f f' : α → Descent β) [hr : Alike r r'] [hf : ∀ a a', Alike (f a) (f' a')] :
    Alike (r >>= f) (r' >>= f') := ⟨fun p p' h => sameEnd_bind (hr.ends p p' h) fun a a' _ => hf a a'⟩

/-- Of a value that is the same for both it is enough that the readers are alike for that value. -/
instance bind_certain (r : Descent α) (f f' : α → Descent β) [hr : Certain r] [hf : ∀ a, Alike (f a) (f' a)] :
    Alike (r >>= f) (r >>= f') := ⟨fun p p' h => sameEnd_bind (hr.ends p p' h) fun a _ ha => ha ▸ hf a⟩

instance ite (c : Prop) [Decidable c] (r r' s s' : Descent α) [Alike r r'] [Alike s s'] :
    Alike (if c then r else s) (if c then r' else s') := by
  split <;> infer_instance

instance : Certain peekKind := ⟨fun _ _ h => ⟨kind?_eq_of_kinds h, h⟩⟩

instance : Certain peekSecond := ⟨fun _ _ h => ⟨kind?_eq_of_kinds (kinds_next_eq h), h⟩⟩

instance : Certain rounds := ⟨fun _ _ h => ⟨congrArg (· + 1) (length_eq_of_kinds h), h⟩⟩

instance (k : TokenKind) : Certain (take k) := by
  refine ⟨fun p p' h => ?_⟩
  by_cases hk : p.kind? = some k
  · rw [take_of_kind hk, take_of_kind (kind?_eq_of_kinds h ▸ hk)]
    exact ⟨rfl, kinds_next_eq h⟩
  · rw [take_of_ne hk, take_of_ne (kind?_eq_of_kinds h ▸ hk)]
    exact ⟨rfl, h⟩

instance : Alike nextSpan nextSpan := ⟨fun _ _ h => ⟨trivial, h⟩⟩

instance : Alike lastSpan lastSpan := ⟨fun _ _ h => ⟨trivial, h⟩⟩

instance : Alike advance advance := ⟨fun _ _ h => ⟨trivial, kinds_next_eq h⟩⟩

instance (x : Expected) : Alike (unexpected x : Descent α) (unexpected x) := by
  refine ⟨fun p p' h => ?_⟩
  have hvalue : (p.unexpected x).value = (p'.unexpected x).value := by
    obtain ⟨rest, i, last⟩ := p
    obtain ⟨rest', i', last'⟩ := p'
    cases rest with
    | nil =>
      obtain rfl : rest' = [] := List.map_eq_nil_iff.1 h.symm
      rfl
    | cons t rest =>
      cases rest' with
      | nil => cases h
      | cons t' rest' =>
        have hkind : t.kind = t'.kind := (List.cons.inj h).1
        exact congrArg (ParseError.unexpected · x) hkind
  exact congrArg some hvalue

instance (text : String) : Alike (outOfRange text : Descent α) (outOfRange text) := ⟨fun _ _ _ => rfl⟩

instance : Alike (exhausted : Descent α) exhausted := ⟨fun _ _ _ => rfl⟩

instance (s : Symbol) : Alike (symbol s) (symbol s) := by unfold symbol; infer_instance

instance (k : Keyword) : Alike (keyword k) (keyword k) := by unfold keyword; infer_instance

instance : Alike separator separator := by unfold separator; infer_instance

instance (negative : Bool) (text : String) : Alike (intValue negative text) (intValue negative text) := by
  unfold intValue; split <;> infer_instance

instance (text : String) : Alike (doubleValue text) (doubleValue text) := by
  unfold doubleValue; split <;> infer_instance

/-- A choice by the next token. -/
private theorem peek {f f' : Option TokenKind → Descent α} (h : ∀ k, Alike (f k) (f' k)) :
    Alike (peekKind >>= f) (peekKind >>= f') := inferInstance

instance : Alike ident ident := by
  refine peek fun k => ?_
  split <;> infer_instance

/-! ### Combinations -/

instance (r : Descent (Span → α)) [Alike r r] : Alike (spanned r) (spanned r) := by unfold spanned; infer_instance

instance items (item : Descent α) [Alike item item] (fuel : Nat) : Alike (items item fuel) (items item fuel) := by
  induction fuel <;> unfold Descent.items <;> infer_instance

instance (item : Descent α) [Alike item item] : Alike (list item) (list item) := by unfold list; infer_instance

/-! ### Expressions -/

instance leftAssocFrom (ops : Level) (operand : Descent Expr) [Alike operand operand] (fuel : Nat) (lhs lhs' : Expr) :
    Alike (leftAssocFrom ops operand fuel lhs) (leftAssocFrom ops operand fuel lhs') := by
  induction fuel generalizing lhs lhs' with
  | zero => exact inferInstanceAs (Alike exhausted exhausted)
  | succ fuel ih =>
    refine peek fun k => ?_
    split <;> infer_instance

instance (ops : Level) (operand : Descent Expr) [Alike operand operand] :
    Alike (leftAssoc ops operand) (leftAssoc ops operand) := by
  unfold leftAssoc; infer_instance

instance powerFrom (operand : Descent Expr) [Alike operand operand] (fuel : Nat) :
    Alike (powerFrom operand fuel) (powerFrom operand fuel) := by
  induction fuel <;> unfold Descent.powerFrom <;> infer_instance

instance unaryFrom (operand : Descent Expr) [Alike operand operand] (fuel : Nat) :
    Alike (unaryFrom operand fuel) (unaryFrom operand fuel) := by
  induction fuel with
  | zero => exact inferInstanceAs (Alike exhausted exhausted)
  | succ fuel ih =>
    refine peek fun k => ?_
    split <;> infer_instance

section Expressions

variable (inner : Descent Expr) [Alike inner inner]

instance callExpr : Alike (callExpr inner) (callExpr inner) := by unfold Descent.callExpr; infer_instance

instance nameExpr : Alike nameExpr nameExpr := by unfold Descent.nameExpr; infer_instance

instance literal (v v' : Literal) : Alike (literal v) (literal v') := by unfold Descent.literal; infer_instance

instance inputCall : Alike (inputCall inner) (inputCall inner) := by unfold Descent.inputCall; infer_instance

instance parenthesized : Alike (parenthesized inner) (parenthesized inner) := by
  unfold Descent.parenthesized; infer_instance

instance primary : Alike (primary inner) (primary inner) := by
  refine peek fun k => ?_
  split <;> infer_instance

instance : Alike (unary inner) (unary inner) := by unfold unary; infer_instance

instance : Alike (power inner) (power inner) := by unfold power; infer_instance

instance : Alike (product inner) (product inner) := by unfold product; infer_instance

instance : Alike (sum inner) (sum inner) := by unfold sum; infer_instance

instance : Alike (relation inner) (relation inner) := by unfold relation; infer_instance

instance logic : Alike (logic inner) (logic inner) := by unfold Descent.logic; infer_instance

end Expressions

instance expr (depth : Nat) : Alike (expr depth) (expr depth) := by
  induction depth with
  | zero => exact inferInstanceAs (Alike exhausted exhausted)
  | succ depth ih => exact inferInstanceAs (Alike (Descent.logic _) (Descent.logic _))

/-! ### Parts of statements -/

instance : Alike typeName typeName := by
  refine peek fun k => ?_
  split <;> infer_instance

instance (s : Symbol) : Alike (typeAfter s) (typeAfter s) := by unfold typeAfter; infer_instance

instance : Alike param param := by unfold param; infer_instance

instance (negative : Bool) : Alike (intConstFrom negative) (intConstFrom negative) := by
  refine peek fun k => ?_
  split <;> infer_instance

instance : Alike intConst intConst := by rw [intConst_eq]; infer_instance

instance constValue (negative : Bool) : Alike (constValue negative) (constValue negative) := by
  refine peek fun k => ?_
  split <;> infer_instance

instance : Alike const const := by unfold const; infer_instance

instance constsFrom (fuel : Nat) : Alike (constsFrom fuel) (constsFrom fuel) := by
  induction fuel <;> unfold Descent.constsFrom <;> infer_instance

instance : Alike caseRange caseRange := by unfold caseRange; infer_instance

instance : Alike comparator comparator := by rw [comparator_eq]; infer_instance

set_option synthInstance.maxSize 256 in
instance : Alike forRange forRange := by unfold forRange; infer_instance

/-! ### Statements -/

section Statements

variable (e : Descent Expr) (b : Descent Block) [Alike e e] [Alike b b]

instance : Alike (iterable e) (iterable e) := by unfold iterable; infer_instance

instance (k : Keyword) : Alike (decl e k) (decl e k) := by unfold decl; infer_instance

instance : Alike (printStmt e) (printStmt e) := by unfold printStmt; infer_instance

instance : Alike (returnStmt e) (returnStmt e) := by unfold returnStmt; infer_instance

instance : Alike (assignStmt e) (assignStmt e) := by unfold assignStmt; infer_instance

instance : Alike (callStmt e) (callStmt e) := by unfold callStmt; infer_instance

instance : Alike (forStmt e b) (forStmt e b) := by unfold forStmt; infer_instance

instance : Alike (whileStmt e b) (whileStmt e b) := by unfold whileStmt; infer_instance

instance ifFrom (fuel : Nat) : Alike (ifFrom e b fuel) (ifFrom e b fuel) := by
  induction fuel <;> unfold Descent.ifFrom <;> infer_instance

instance : Alike (ifStmt e b) (ifStmt e b) := by unfold ifStmt; infer_instance

instance : Alike (caseClause b) (caseClause b) := by unfold caseClause; infer_instance

instance casesFrom (fuel : Nat) : Alike (casesFrom b fuel) (casesFrom b fuel) := by
  induction fuel <;> unfold Descent.casesFrom <;> infer_instance

instance : Alike (switchStmt e b) (switchStmt e b) := by unfold switchStmt; infer_instance

instance : Alike (letItem e) (letItem e) := by unfold letItem; infer_instance

instance : Alike (stmt e b) (stmt e b) := by
  refine peek fun k => ?_
  split <;> infer_instance

instance stmtsFrom (s : Descent Stmt) [Alike s s] (fuel : Nat) : Alike (stmtsFrom s fuel) (stmtsFrom s fuel) := by
  induction fuel <;> unfold Descent.stmtsFrom <;> infer_instance

instance block (depth : Nat) : Alike (block e depth) (block e depth) := by
  induction depth <;> unfold Descent.block <;> infer_instance

instance : Alike (func b) (func b) := by unfold func; infer_instance

instance : Alike (item e b) (item e b) := by
  refine peek fun k => ?_
  split <;> infer_instance

instance itemsToEnd (i : Descent Item) [Alike i i] (fuel : Nat) : Alike (itemsToEnd i fuel) (itemsToEnd i fuel) := by
  induction fuel <;> unfold Descent.itemsToEnd <;> infer_instance

end Statements

instance program (depth : Nat) : Alike (program depth) (program depth) := by unfold Descent.program; infer_instance

end Alike

end Descent

/-! ### Programs -/

namespace Parse

variable {tokens tokens' : List Token}

/-- Two parses come to programs that differ in spans alone, or to errors that say the same. -/
def SameParse : Except (Located ParseError) Program → Except (Located ParseError) Program → Prop
  | .ok p, .ok p' => p.bare = p'.bare
  | .error e, .error e' => e.value = e'.value
  | _, _ => False

/-- The same kinds of tokens are parsed alike. -/
theorem parseProgram_kinds (h : tokens.map Token.kind = tokens'.map Token.kind) :
    SameParse (parseProgram tokens) (parseProgram tokens') := by
  cases hp : parseProgram tokens with
  | ok p =>
    obtain ⟨q, hq, hbare⟩ := ok_of_isProgram (h ▸ isProgram_of_ok hp)
    rw [hq]
    exact hbare.symm
  | error e =>
    cases hp' : parseProgram tokens' with
    | ok p' =>
      obtain ⟨q, hq, -⟩ := ok_of_isProgram (h.symm ▸ isProgram_of_ok hp')
      rw [hp] at hq
      cases hq
    | error e' =>
      obtain ⟨q, he⟩ := parseProgram_eq_error.1 hp
      obtain ⟨q', he'⟩ := parseProgram_eq_error.1 hp'
      have hdepth : depthFor tokens = depthFor tokens' := by
        have hl := congrArg List.length h
        rw [List.length_map, List.length_map] at hl
        exact congrArg (· + 1) hl
      have hends := (Descent.Alike.program (depthFor tokens)).ends (.start tokens) (.start tokens') h
      rw [he, hdepth, he'] at hends
      exact Option.some.inj hends

end Parse

end Scriptlet
