import Scriptlet.Proofs.Ending.Consuming

/-!
# Enough depth and enough rounds

`EndsAlike ahead below x y` says that `x` ends in every state with `ahead` tokens or more and fewer than `below`, that
is to say it does not run out of depth or rounds, and that `y` does the same there.  Where `x` and `y` are one parser
with two depths, or one loop with two numbers of rounds, this is to say that neither number makes a difference.

A number greater than that of the tokens ahead is enough.  Before a loop begins another round a token is consumed, and
before the parse goes a level deeper too, so that a smaller bound is left for what comes then (`EndsAlike.next`).  The
bound on the tokens and the numbers fall together (`EndsAlike.rounds_induction`).
-/

namespace Scriptlet.Parse

open Scriptlet.Parser

variable {α β : Type}

/-- With `ahead` tokens or more ahead, and fewer than `below`, the first parser ends and the second does the same. -/
class EndsAlike (ahead below : Nat) (x y : Parser α) : Prop where
  ends : ∀ {s t : State}, ahead ≤ s.position.rest.length → s.position.rest.length < below → x s ≠ .error .exhausted t
  eq : ∀ {s : State}, ahead ≤ s.position.rest.length → s.position.rest.length < below → y s = x s

namespace EndsAlike

variable {ahead n m k k' : Nat}

/-- What ends alike with many tokens ahead does so with fewer. -/
theorem mono {x y : Parser α} (h : EndsAlike ahead n x y) (hm : m ≤ n) : EndsAlike ahead m x y :=
  ⟨fun hs hlt => h.ends hs (by omega), fun hs hlt => h.eq hs (by omega)⟩

private theorem zero {x y : Parser α} : EndsAlike ahead 0 x y :=
  ⟨fun _ hlt => absurd hlt (Nat.not_lt_zero _), fun _ hlt => absurd hlt (Nat.not_lt_zero _)⟩

instance (priority := low) of_zero (x y : Parser α) [h : EndsAlike 0 n x y] : EndsAlike (ahead + 1) n x y :=
  ⟨fun _ hlt => h.ends (Nat.zero_le _) hlt, fun _ hlt => h.eq (Nat.zero_le _) hlt⟩

/-! ### Sequences -/

private theorem bind_of {l l' : Nat} {x y : Parser α} {f g : α → Parser β} (hx : EndsAlike ahead n x y)
    (hf : ∀ a, EndsAlike l l' (f a) (g a))
    (hok : ∀ {s t : State} {a : α}, ahead ≤ s.position.rest.length → s.position.rest.length < n → x s = .ok a t →
      l ≤ t.position.rest.length ∧ t.position.rest.length < l') : EndsAlike ahead n (x >>= f) (y >>= g) where
  ends {s u} hs hlt := by
    cases hxs : x s with
    | ok a t =>
      obtain ⟨ht, hlt'⟩ := hok hs hlt hxs
      rw [bind_of_ok hxs]
      exact (hf a).ends ht hlt'
    | error e t =>
      rw [bind_of_error hxs]
      rintro ⟨⟩
      exact hx.ends hs hlt hxs
  eq {s} hs hlt := by
    have hy := hx.eq hs hlt
    cases hxs : x s with
    | ok a t =>
      obtain ⟨ht, hlt'⟩ := hok hs hlt hxs
      rw [bind_of_ok hxs, bind_of_ok (hy.trans hxs)]
      exact (hf a).eq ht hlt'
    | error e t => rw [bind_of_error hxs, bind_of_error (hy.trans hxs)]

instance bind (x y : Parser α) (f g : α → Parser β) [Runs x] [hx : EndsAlike ahead n x y]
    [hf : ∀ a, EndsAlike 0 n (f a) (g a)] : EndsAlike ahead n (x >>= f) (y >>= g) :=
  bind_of hx hf fun _ hlt h => by
    have hle := (Runs.reaches_of_ok h).length
    omega

private theorem after {x y : Parser α} {f g : α → Parser β} [hstays : Stays x] [hx : EndsAlike ahead n x y]
    (hf : ∀ a, EndsAlike ahead n (f a) (g a)) : EndsAlike ahead n (x >>= f) (y >>= g) :=
  bind_of hx hf fun hs hlt h => by
    rw [hstays.position_eq h]
    exact ⟨hs, hlt⟩

instance stays (x y : Parser α) (f g : α → Parser β) [Stays x] [EndsAlike ahead n x y]
    [hf : ∀ a, EndsAlike ahead n (f a) (g a)] : EndsAlike ahead n (x >>= f) (y >>= g) := after hf

/-- After a token has been consumed, a smaller number is enough. -/
instance next (x y : Parser α) (f g : α → Parser β) [hc : Consumes ahead x] [hx : EndsAlike ahead (n + 1) x y]
    [hf : ∀ a, EndsAlike 0 n (f a) (g a)] : EndsAlike ahead (n + 1) (x >>= f) (y >>= g) :=
  bind_of hx hf fun hs hlt h => by
    have hless := hc.length_lt hs h
    omega

/-- There are as many rounds as there are tokens ahead, and one more. -/
instance bind_rounds (f g : Nat → Parser α) [hf : ∀ k, EndsAlike 0 (min n k) (f k) (g k)] :
    EndsAlike ahead n (rounds >>= f) (rounds >>= g) where
  ends {s _} _ hlt := (hf (s.position.rest.length + 1)).ends (Nat.zero_le _) (by omega)
  eq {s} _ hlt := (hf (s.position.rest.length + 1)).eq (Nat.zero_le _) (by omega)

instance ite (c : Prop) [Decidable c] (x x' y y' : Parser α) [EndsAlike ahead n x x'] [EndsAlike ahead n y y'] :
    EndsAlike ahead n (if c then x else y) (if c then x' else y') := by
  split <;> infer_instance

/-- A choice by the next token.  If it was found there is one. -/
private theorem peek {f g : Option TokenKind → Parser α} (hnone : EndsAlike 0 n (f none) (g none))
    (hsome : ∀ k, EndsAlike 1 n (f (some k)) (g (some k))) : EndsAlike 0 n (peekKind >>= f) (peekKind >>= g) := by
  constructor
  · intro s t _ hlt
    rw [peekKind_bind]
    cases hk : s.position.kind? with
    | none => exact hnone.ends (Nat.zero_le _) hlt
    | some k => exact (hsome k).ends (Position.length_pos_of_kind hk) hlt
  · intro s _ hlt
    rw [peekKind_bind, peekKind_bind]
    cases hk : s.position.kind? with
    | none => exact hnone.eq (Nat.zero_le _) hlt
    | some k => exact (hsome k).eq (Position.length_pos_of_kind hk) hlt

/-! ### Single tokens -/

private theorem refl {x : Parser α} (h : ∀ s t, x s ≠ .error .exhausted t) : EndsAlike ahead n x x :=
  ⟨fun _ _ => h _ _, fun _ _ => rfl⟩

instance : EndsAlike ahead n peekKind peekKind := refl fun _ _ => nofun

instance : EndsAlike ahead n nextSpan nextSpan := refl fun _ _ => nofun

instance : EndsAlike ahead n lastSpan lastSpan := refl fun _ _ => nofun

instance : EndsAlike ahead n advance advance := refl fun _ _ => nofun

instance (p : Production) : EndsAlike ahead n (enter p) (enter p) := refl fun _ _ => nofun

instance pure (a : α) : EndsAlike ahead n (Pure.pure a : Parser α) (Pure.pure a) := refl fun _ _ => nofun

instance (e : Expected) : EndsAlike ahead n (unexpected e : Parser α) (unexpected e) := refl fun _ _ => nofun

instance (text : String) : EndsAlike ahead n (outOfRange text : Parser α) (outOfRange text) := refl fun _ _ => nofun

instance (s : Symbol) : EndsAlike ahead n (atSymbol s) (atSymbol s) := by unfold atSymbol; infer_instance

instance (k : Keyword) : EndsAlike ahead n (atKeyword k) (atKeyword k) := by unfold atKeyword; infer_instance

instance (s : Symbol) : EndsAlike ahead n (take s) (take s) := by unfold take; infer_instance

instance (k : Keyword) : EndsAlike ahead n (takeKeyword k) (takeKeyword k) := by unfold takeKeyword; infer_instance

instance (s : Symbol) : EndsAlike ahead n (symbol s) (symbol s) := by unfold symbol; infer_instance

instance (k : Keyword) : EndsAlike ahead n (keyword k) (keyword k) := by unfold keyword; infer_instance

instance : EndsAlike ahead n separator separator := by unfold separator; infer_instance

instance (negative : Bool) (text : String) : EndsAlike ahead n (intValue negative text) (intValue negative text) := by
  unfold intValue; split <;> infer_instance

instance (text : String) : EndsAlike ahead n (doubleValue text) (doubleValue text) := by
  unfold doubleValue; split <;> infer_instance

instance : EndsAlike ahead n ident ident := by
  unfold ident
  refine after fun k => ?_
  split <;> infer_instance

/-! ### Combinations -/

/-- Induction on a bound together with two numbers that are not less.  Where the bound is not zero, neither are they. -/
theorem rounds_induction {motive : (n k k' : Nat) → n ≤ k → n ≤ k' → Prop}
    (zero : ∀ k k', motive 0 k k' k.zero_le k'.zero_le)
    (succ : ∀ n k k' hk hk', motive n k k' hk hk' →
      motive (n + 1) (k + 1) (k' + 1) (Nat.succ_le_succ hk) (Nat.succ_le_succ hk'))
    (n k k' : Nat) (hk : n ≤ k) (hk' : n ≤ k') : motive n k k' hk hk' := by
  induction n generalizing k k' with
  | zero => exact zero k k'
  | succ n ih =>
    cases k with
    | zero => exact absurd hk n.not_succ_le_zero
    | succ k =>
      cases k' with
      | zero => exact absurd hk' n.not_succ_le_zero
      | succ k' =>
        exact succ n k k' (Nat.le_of_succ_le_succ hk) (Nat.le_of_succ_le_succ hk') (ih _ _ _ _)

instance orElse (first second first' second' : Parser α) [Runs first] [hx : EndsAlike 0 n first first']
    [hy : EndsAlike 0 n second second'] : EndsAlike 0 n (orElse first second) (orElse first' second') := by
  -- the second alternative begins with as many tokens ahead as the first
  have hback {s t : State} {e : Located ParseError} (h : first s.checkpoint = .error (.error e) t) :
      (t.rollback e).position.rest.length = s.position.rest.length := by
    rw [Runs.position_rollback h]
  constructor
  · intro s u _ hlt h
    unfold Parser.orElse at h
    split at h
    · cases h
    · next t hfirst => exact hx.ends (s := s.checkpoint) (Nat.zero_le _) hlt hfirst
    · next e t hfirst =>
      split at h
      · cases h
      · next v hsecond => exact hy.ends (Nat.zero_le _) (by rwa [hback hfirst]) hsecond
      · cases h
  · intro s _ hlt
    unfold Parser.orElse
    rw [hx.eq (s := s.checkpoint) (Nat.zero_le _) hlt]
    cases hfirst : first s.checkpoint with
    | ok a t => rfl
    | error stop t =>
      cases stop with
      | exhausted => rfl
      | error e =>
        simp only
        rw [hy.eq (Nat.zero_le _) (by rwa [hback hfirst])]

instance (x x' : Parser (Span → α)) [Runs x] [EndsAlike ahead n x x'] :
    EndsAlike ahead n (spanned x) (spanned x') := by
  unfold spanned; infer_instance

/-- Each item of a list consumes a token, so that fuel greater than the number of tokens ahead is enough. -/
theorem items {item item' : Parser α} [Runs item] [Consumes 0 item] (h : EndsAlike 0 n item item') (hk : n ≤ k)
    (hk' : n ≤ k') : EndsAlike 0 n (items item k) (items item' k') := by
  induction n, k, k', hk, hk' using rounds_induction with
  | zero => exact zero
  | succ n k k' _ _ ih =>
    have := ih (h.mono n.le_succ)
    unfold Parser.items
    infer_instance

instance (item item' : Parser α) [Runs item] [Consumes 0 item] [h : EndsAlike 0 n item item'] :
    EndsAlike 0 (min n k) (Parser.items item k) (Parser.items item' k) :=
  items (h.mono (Nat.min_le_left n k)) (Nat.min_le_right n k) (Nat.min_le_right n k)

instance (item item' : Parser α) [Runs item] [Consumes 0 item] [EndsAlike 0 n item item'] :
    EndsAlike 0 n (list item) (list item') := by
  unfold list; infer_instance

/-! ### Expressions -/

/-- Each operator is a token, so that fuel greater than the number of tokens ahead is enough. -/
theorem leftAssocFrom {operand operand' : Parser Expr} [Runs operand] [Consumes 0 operand] (ops : Level) (lhs : Expr)
    (h : EndsAlike 0 n operand operand') (hk : n ≤ k) (hk' : n ≤ k') :
    EndsAlike 0 n (leftAssocFrom ops operand k lhs) (leftAssocFrom ops operand' k' lhs) := by
  induction n, k, k', hk, hk' using rounds_induction generalizing lhs with
  | zero => exact zero
  | succ n k k' _ _ ih =>
    have hless := h.mono n.le_succ
    have := fun lhs => ih lhs hless
    refine peek (inferInstanceAs (EndsAlike 0 (n + 1) (Pure.pure lhs) (Pure.pure lhs))) fun k => ?_
    split <;> infer_instance

instance (ops : Level) (operand operand' : Parser Expr) (lhs : Expr) [Runs operand] [Consumes 0 operand]
    [h : EndsAlike 0 n operand operand'] :
    EndsAlike 0 (min n k) (Parser.leftAssocFrom ops operand k lhs) (Parser.leftAssocFrom ops operand' k lhs) :=
  leftAssocFrom ops lhs (h.mono (Nat.min_le_left n k)) (Nat.min_le_right n k) (Nat.min_le_right n k)

instance (ops : Level) (operand operand' : Parser Expr) [Runs operand] [Consumes 0 operand]
    [EndsAlike 0 n operand operand'] : EndsAlike 0 n (leftAssoc ops operand) (leftAssoc ops operand') := by
  unfold leftAssoc; infer_instance

theorem powerFrom {operand operand' : Parser Expr} [Runs operand] [Consumes 0 operand]
    (h : EndsAlike 0 n operand operand') (hk : n ≤ k) (hk' : n ≤ k') :
    EndsAlike 0 n (powerFrom operand k) (powerFrom operand' k') := by
  induction n, k, k', hk, hk' using rounds_induction with
  | zero => exact zero
  | succ n k k' _ _ ih =>
    have := ih (h.mono n.le_succ)
    unfold Parser.powerFrom
    infer_instance

instance (operand operand' : Parser Expr) [Runs operand] [Consumes 0 operand] [h : EndsAlike 0 n operand operand'] :
    EndsAlike 0 (min n k) (Parser.powerFrom operand k) (Parser.powerFrom operand' k) :=
  powerFrom (h.mono (Nat.min_le_left n k)) (Nat.min_le_right n k) (Nat.min_le_right n k)

/-- Each sign is a token, so that fuel greater than the number of tokens ahead is enough. -/
theorem unaryFrom {operand operand' : Parser Expr} [Runs operand] (h : EndsAlike 0 n operand operand') (hk : n ≤ k)
    (hk' : n ≤ k') : EndsAlike 0 n (unaryFrom operand k) (unaryFrom operand' k') := by
  induction n, k, k', hk, hk' using rounds_induction with
  | zero => exact zero
  | succ n k k' _ _ ih =>
    have := ih (h.mono n.le_succ)
    refine peek h fun k => ?_
    split <;> infer_instance

instance (operand operand' : Parser Expr) [Runs operand] [h : EndsAlike 0 n operand operand'] :
    EndsAlike 0 (min n k) (Parser.unaryFrom operand k) (Parser.unaryFrom operand' k) :=
  unaryFrom (h.mono (Nat.min_le_left n k)) (Nat.min_le_right n k) (Nat.min_le_right n k)

section Expressions

variable (inner inner' : Parser Expr) [Runs inner] [Consumes 0 inner] [EndsAlike 0 n inner inner']

instance : EndsAlike 0 (n + 1) (callExpr inner) (callExpr inner') := by unfold callExpr; infer_instance

instance : EndsAlike ahead n nameExpr nameExpr := by unfold nameExpr; infer_instance

instance : EndsAlike 0 (n + 1) (primary inner) (primary inner') := by
  unfold primary
  refine after fun _ => after fun span => peek ?_ fun k => ?_
  · exact inferInstanceAs (EndsAlike 0 (n + 1) (unexpected _) (unexpected _))
  · split <;> infer_instance

instance : EndsAlike 0 (n + 1) (unary inner) (unary inner') := by unfold unary; infer_instance

instance : EndsAlike 0 (n + 1) (power inner) (power inner') := by unfold power; infer_instance

instance : EndsAlike 0 (n + 1) (product inner) (product inner') := by unfold product; infer_instance

instance : EndsAlike 0 (n + 1) (sum inner) (sum inner') := by unfold sum; infer_instance

instance : EndsAlike 0 (n + 1) (relation inner) (relation inner') := by unfold relation; infer_instance

instance : EndsAlike 0 (n + 1) (logic inner) (logic inner') := by unfold logic; infer_instance

end Expressions

/-- Expressions end alike with any two depths greater than the number of tokens ahead. -/
theorem expr (hk : n ≤ k) (hk' : n ≤ k') : EndsAlike 0 n (expr k) (expr k') := by
  induction n, k, k', hk, hk' using rounds_induction with
  | zero => exact zero
  | succ n k k' _ _ ih =>
    unfold Parser.expr
    infer_instance

/-! ### Parts of statements -/

instance : EndsAlike ahead n typeName typeName := by
  unfold typeName
  refine after fun k => ?_
  split <;> infer_instance

instance (s : Symbol) : EndsAlike ahead n (typeAfter s) (typeAfter s) := by unfold typeAfter; infer_instance

instance : EndsAlike ahead n param param := by unfold param; infer_instance

instance : EndsAlike ahead n intConst intConst := by
  unfold intConst
  refine @bind _ _ _ _ _ _ _ _ _ _ fun negative => after fun k => ?_
  split <;> infer_instance

instance (negative : Bool) : EndsAlike ahead n (constValue negative) (constValue negative) := by
  unfold constValue
  refine after fun k => ?_
  split <;> infer_instance

instance : EndsAlike ahead n const const := by unfold const; infer_instance

theorem constsFrom (hk : n ≤ k) (hk' : n ≤ k') : EndsAlike 0 n (constsFrom k) (constsFrom k') := by
  induction n, k, k', hk, hk' using rounds_induction with
  | zero => exact zero
  | succ n k k' _ _ ih =>
    unfold Parser.constsFrom
    infer_instance

instance : EndsAlike 0 (min n k) (Parser.constsFrom k) (Parser.constsFrom k) :=
  constsFrom (Nat.min_le_right n k) (Nat.min_le_right n k)

instance : EndsAlike ahead n caseRange caseRange := by unfold caseRange; infer_instance

instance : EndsAlike 0 n comparator comparator := by
  have hconsts (m : Nat) (first : Const) (others : List Const) : EndsAlike 0 m (match others with
      | [] => (Pure.pure (.const first) : Parser Comparator)
      | others => Pure.pure (.oneOf (first :: others))) (match others with
      | [] => (Pure.pure (.const first) : Parser Comparator)
      | others => Pure.pure (.oneOf (first :: others))) := by
    split <;> infer_instance
  have := Runs.comparatorOf
  unfold comparator
  infer_instance

set_option synthInstance.maxSize 256 in
instance : EndsAlike ahead n forRange forRange := by unfold forRange; infer_instance

/-! ### Statements -/

section Statements

variable {e e' : Parser Expr} {b b' : Parser Block} [Runs e] [Runs b]

section Expressions

variable [EndsAlike 0 n e e']

instance : EndsAlike 0 n (iterable e) (iterable e') := by unfold iterable; infer_instance

instance (k : Keyword) : EndsAlike 0 n (decl e k) (decl e' k) := by unfold decl; infer_instance

instance [Consumes 0 e] : EndsAlike 0 n (printStmt e) (printStmt e') := by unfold printStmt; infer_instance

instance : EndsAlike 0 n (returnStmt e) (returnStmt e') := by unfold returnStmt; infer_instance

instance : EndsAlike 0 n (assignStmt e) (assignStmt e') := by unfold assignStmt; infer_instance

instance [Consumes 0 e] : EndsAlike 0 n (callStmt e) (callStmt e') := by unfold callStmt; infer_instance

instance : EndsAlike 0 n (letItem e) (letItem e') := by unfold letItem; infer_instance

end Expressions

section Blocks

variable [EndsAlike 0 n b b']

instance : EndsAlike 0 n (caseClause b) (caseClause b') := by unfold caseClause; infer_instance

instance : EndsAlike 0 n (func b) (func b') := by unfold func; infer_instance

end Blocks

theorem casesFrom (h : EndsAlike 0 n b b') (hk : n ≤ k) (hk' : n ≤ k') :
    EndsAlike 0 n (casesFrom b k) (casesFrom b' k') := by
  induction n, k, k', hk, hk' using rounds_induction with
  | zero => exact zero
  | succ n k k' _ _ ih =>
    have := ih (h.mono n.le_succ)
    unfold Parser.casesFrom
    infer_instance

instance [h : EndsAlike 0 n b b'] : EndsAlike 0 (min n k) (Parser.casesFrom b k) (Parser.casesFrom b' k) :=
  casesFrom (h.mono (Nat.min_le_left n k)) (Nat.min_le_right n k) (Nat.min_le_right n k)

set_option synthInstance.maxSize 256 in
theorem ifFrom (he : EndsAlike 0 n e e') (hb : EndsAlike 0 n b b') (hk : n ≤ k) (hk' : n ≤ k') :
    EndsAlike 0 n (ifFrom e b k) (ifFrom e' b' k') := by
  induction n, k, k', hk, hk' using rounds_induction with
  | zero => exact zero
  | succ n k k' _ _ ih =>
    have he' := he.mono n.le_succ
    have hb' := hb.mono n.le_succ
    have := ih he' hb'
    unfold Parser.ifFrom
    infer_instance

instance [he : EndsAlike 0 n e e'] [hb : EndsAlike 0 n b b'] :
    EndsAlike 0 (min n k) (Parser.ifFrom e b k) (Parser.ifFrom e' b' k) :=
  ifFrom (he.mono (Nat.min_le_left n k)) (hb.mono (Nat.min_le_left n k)) (Nat.min_le_right n k) (Nat.min_le_right n k)

section

variable [EndsAlike 0 n e e'] [EndsAlike 0 n b b']

instance : EndsAlike 0 n (forStmt e b) (forStmt e' b') := by unfold forStmt; infer_instance

instance : EndsAlike 0 n (whileStmt e b) (whileStmt e' b') := by unfold whileStmt; infer_instance

instance : EndsAlike 0 n (ifStmt e b) (ifStmt e' b') := by unfold ifStmt; infer_instance

instance : EndsAlike 0 n (switchStmt e b) (switchStmt e' b') := by unfold switchStmt; infer_instance

instance : EndsAlike 0 n (item e b) (item e' b') := by unfold item; infer_instance

instance [Consumes 0 e] : EndsAlike 0 n (stmt e b) (stmt e' b') := by
  unfold stmt
  refine after fun k => ?_
  split <;> infer_instance

end

theorem stmtsFrom {s s' : Parser Stmt} [Runs s] [Consumes 0 s] (h : EndsAlike 0 n s s') (hk : n ≤ k) (hk' : n ≤ k') :
    EndsAlike 0 n (stmtsFrom s k) (stmtsFrom s' k') := by
  induction n, k, k', hk, hk' using rounds_induction with
  | zero => exact zero
  | succ n k k' _ _ ih =>
    have := ih (h.mono n.le_succ)
    unfold Parser.stmtsFrom
    infer_instance

instance (s s' : Parser Stmt) [Runs s] [Consumes 0 s] [h : EndsAlike 0 n s s'] :
    EndsAlike 0 (min n k) (Parser.stmtsFrom s k) (Parser.stmtsFrom s' k) :=
  stmtsFrom (h.mono (Nat.min_le_left n k)) (Nat.min_le_right n k) (Nat.min_le_right n k)

/-- Blocks end alike with any two depths greater than the number of tokens ahead. -/
theorem block [Consumes 0 e] (he : EndsAlike 0 n e e') (hk : n ≤ k) (hk' : n ≤ k') :
    EndsAlike 0 n (block e k) (block e' k') := by
  induction n, k, k', hk, hk' using rounds_induction with
  | zero => exact zero
  | succ n k k' _ _ ih =>
    have he' := he.mono n.le_succ
    have := ih he'
    unfold Parser.block
    infer_instance

theorem itemsToEnd {i i' : Parser Item} [Runs i] [Consumes 0 i] (h : EndsAlike 0 n i i') (hk : n ≤ k) (hk' : n ≤ k') :
    EndsAlike 0 n (itemsToEnd i k) (itemsToEnd i' k') := by
  induction n, k, k', hk, hk' using rounds_induction with
  | zero => exact zero
  | succ n k k' _ _ ih =>
    have := ih (h.mono n.le_succ)
    unfold Parser.itemsToEnd
    infer_instance

instance (i i' : Parser Item) [Runs i] [Consumes 0 i] [h : EndsAlike 0 n i i'] :
    EndsAlike 0 (min n k) (Parser.itemsToEnd i k) (Parser.itemsToEnd i' k) :=
  itemsToEnd (h.mono (Nat.min_le_left n k)) (Nat.min_le_right n k) (Nat.min_le_right n k)

end Statements

/-- Programs end alike with any two depths greater than the number of tokens ahead. -/
theorem program (hk : n ≤ k) (hk' : n ≤ k') : EndsAlike 0 n (program k) (program k') := by
  have he := expr hk hk'
  have hb := block he hk hk'
  unfold Parser.program
  infer_instance

/-- Whole expressions end alike with any two depths greater than the number of tokens ahead. -/
theorem wholeExpr (hk : n ≤ k) (hk' : n ≤ k') : EndsAlike 0 n (wholeExpr k) (wholeExpr k') := by
  have := expr hk hk'
  unfold Parser.wholeExpr
  infer_instance

end EndsAlike

end Scriptlet.Parse
