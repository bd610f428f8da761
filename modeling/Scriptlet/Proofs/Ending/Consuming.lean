import Scriptlet.Proofs.Checkpoints.Productions

/-!
# Parsers that consume a token

A parse moves back only to the place where a choice began.  So a run as a whole never ends before the place where it
began, nor after the end of the tokens (`Run.reaches`).

`Consumes ahead x` says that `x` consumes a token whenever it succeeds, in every state with `ahead` tokens or more.
For productions `ahead` is zero; it is one for what follows a look at the next token, as `advance` at the end of the
tokens stays where it is.  Like `Runs` this is a class, so that it is found for each parser from its parts.
-/

namespace Scriptlet.Parse

open Parse.State
open Scriptlet.Parser

variable {α β : Type}

/-! ### Runs do not move back -/

@[simp] theorem State.position_abandon (s : State) (e : Located ParseError) :
    (s.abandon e).2.position = s.position := by
  have hrecord := position_record (s.log (.abandon s.position.index e)) e
  unfold abandon
  simp only
  split
  · exact hrecord
  · exact hrecord

/-- A run does not go back, as every return is one to a checkpoint of its own. -/
theorem Run.reaches {s t : State} {events : List Event} (h : Run s events t) :
    s.position.Reaches 0 t.position := by
  induction h with
  | nil s => exact .refl s.position
  | enter _ _ ih => exact ih
  | @consume s _ _ _ _ ih =>
    rw [position_advance] at ih
    exact (Position.Reaches.to_next s.position).trans ih
  | first _ _ ih ih' =>
    rw [position_commit] at ih'
    exact ih.trans ih'
  | second e h _ _ _ ih ih' =>
    rw [h.position_rollback e] at ih
    rw [position_commit] at ih'
    exact ih.trans ih'
  | neither e e' h _ _ _ ih ih' =>
    rw [h.position_rollback e] at ih
    rw [position_abandon] at ih'
    exact ih.trans ih'

namespace Runs

variable {x : Parser α} {s t : State} {e : Located ParseError}

private theorem run_of_ok [hx : Runs x] {a : α} (h : x s = .ok a t) : ∃ events, Run s events t := by
  have hends := hx.endsRun s
  rwa [h] at hends

private theorem run_of_error [hx : Runs x] (h : x s = .error (.error e) t) : ∃ events, Run s events t := by
  have hends := hx.endsRun s
  rwa [h] at hends

theorem reaches_of_ok [Runs x] {a : α} (h : x s = .ok a t) : s.position.Reaches 0 t.position := by
  obtain ⟨_, hrun⟩ := run_of_ok h
  exact hrun.reaches

theorem reaches_of_error [Runs x] (h : x s = .error (.error e) t) : s.position.Reaches 0 t.position := by
  obtain ⟨_, hrun⟩ := run_of_error h
  exact hrun.reaches

/-- The second alternative of a choice begins where the first one did. -/
theorem position_rollback [Runs x] (h : x s.checkpoint = .error (.error e) t) :
    (t.rollback e).position = s.position := by
  obtain ⟨_, hrun⟩ := run_of_error h
  exact hrun.position_rollback e

end Runs

/-! ### Success with a token less -/

/-- With `ahead` tokens or more ahead, the parser consumes a token if it succeeds. -/
class Consumes (ahead : Nat) (x : Parser α) : Prop where
  length_lt : ∀ {s t : State} {a : α}, ahead ≤ s.position.rest.length → x s = .ok a t →
    t.position.rest.length < s.position.rest.length

/-- The parser looks at tokens at most. -/
class Stays (x : Parser α) : Prop where
  position_eq : ∀ {s t : State} {a : α}, x s = .ok a t → t.position = s.position

namespace Stays

private theorem of_ok {x : Parser α} (h : ∀ s, ∃ a t, x s = .ok a t ∧ t.position = s.position) : Stays x where
  position_eq {s t a} hs := by
    obtain ⟨b, u, hx, hu⟩ := h s
    rw [hx] at hs
    cases hs
    exact hu

instance : Stays peekKind := of_ok fun _ => ⟨_, _, rfl, rfl⟩

instance : Stays nextSpan := of_ok fun _ => ⟨_, _, rfl, rfl⟩

instance : Stays lastSpan := of_ok fun _ => ⟨_, _, rfl, rfl⟩

instance : Stays rounds := of_ok fun _ => ⟨_, _, rfl, rfl⟩

instance (p : Production) : Stays (enter p) := of_ok fun _ => ⟨_, _, rfl, rfl⟩

instance (s : Symbol) : Stays (atSymbol s) := of_ok fun _ => ⟨_, _, rfl, rfl⟩

instance (k : Keyword) : Stays (atKeyword k) := of_ok fun _ => ⟨_, _, rfl, rfl⟩

instance (e : Expected) : Stays (unexpected e : Parser α) := ⟨nofun⟩

instance (text : String) : Stays (outOfRange text : Parser α) := ⟨nofun⟩

instance pure (a : α) : Stays (Pure.pure a : Parser α) := of_ok fun _ => ⟨_, _, rfl, rfl⟩

instance bind (x : Parser α) (f : α → Parser β) [hx : Stays x] [hf : ∀ a, Stays (f a)] : Stays (x >>= f) where
  position_eq h := by
    obtain ⟨a, t, hxs, hft⟩ := exists_of_bind_ok h
    exact ((hf a).position_eq hft).trans (hx.position_eq hxs)

instance (negative : Bool) (text : String) : Stays (intValue negative text) := by
  unfold intValue; split <;> infer_instance

instance (text : String) : Stays (doubleValue text) := by unfold doubleValue; split <;> infer_instance

end Stays

namespace Consumes

variable {n : Nat}

instance (priority := low) mono (x : Parser α) [hx : Consumes 0 x] : Consumes (n + 1) x :=
  ⟨fun _ h => hx.length_lt (Nat.zero_le _) h⟩

/-! ### Sequences and single tokens -/

private theorem after {x : Parser α} {f : α → Parser β} [hx : Stays x] (hf : ∀ a, Consumes n (f a)) :
    Consumes n (x >>= f) where
  length_lt hs h := by
    obtain ⟨a, t, hxs, hft⟩ := exists_of_bind_ok h
    have ht := hx.position_eq hxs
    rw [← ht] at hs ⊢
    exact (hf a).length_lt hs hft

instance stays (x : Parser α) (f : α → Parser β) [Stays x] [hf : ∀ a, Consumes n (f a)] : Consumes n (x >>= f) :=
  after hf

instance first (x : Parser α) (f : α → Parser β) [hx : Consumes n x] [∀ a, Runs (f a)] : Consumes n (x >>= f) where
  length_lt hs h := by
    obtain ⟨a, t, hxs, hf⟩ := exists_of_bind_ok h
    have hlt := hx.length_lt hs hxs
    have hle := (Runs.reaches_of_ok hf).length
    omega

instance second (x : Parser α) (f : α → Parser β) [Runs x] [hf : ∀ a, Consumes 0 (f a)] : Consumes n (x >>= f) where
  length_lt _ h := by
    obtain ⟨a, t, hxs, hft⟩ := exists_of_bind_ok h
    have hle := (Runs.reaches_of_ok hxs).length
    have hlt := (hf a).length_lt (Nat.zero_le _) hft
    omega

instance ite (c : Prop) [Decidable c] (x y : Parser α) [Consumes n x] [Consumes n y] :
    Consumes n (if c then x else y) := by
  split <;> infer_instance

private theorem of_error {x : Parser α} (h : ∀ s, ∃ e t, x s = .error e t) : Consumes n x where
  length_lt {s t a} _ hs := by
    obtain ⟨e, u, hx⟩ := h s
    rw [hx] at hs
    cases hs

instance (e : Expected) : Consumes n (unexpected e : Parser α) := of_error fun _ => ⟨_, _, rfl⟩

instance : Consumes n (exhausted : Parser α) := of_error fun _ => ⟨_, _, rfl⟩

instance : Consumes 1 advance where
  length_lt {s t a} hs h := by
    have ht : s.advance = t := by injection h
    have hlength := s.position.length_next
    rw [← ht, position_advance]
    omega

/-- A choice by the next token.  If there is one, it may be consumed. -/
private theorem peek {f : Option TokenKind → Parser α} (hnone : Consumes 0 (f none))
    (hsome : ∀ k, Consumes 1 (f (some k))) : Consumes 0 (peekKind >>= f) where
  length_lt {s t a} _ h := by
    rw [peekKind_bind] at h
    cases hk : s.position.kind? with
    | none =>
      rw [hk] at h
      exact hnone.length_lt (Nat.zero_le _) h
    | some k =>
      rw [hk] at h
      exact (hsome k).length_lt (Position.length_pos_of_kind hk) h

/-- If the token is there it is consumed; if not, the rest has to consume one. -/
private theorem of_taken {k : TokenKind} {f : Bool → Parser α} (htrue : Runs (f true)) (hfalse : Consumes n (f false)) :
    Consumes n (peekKind >>= fun k' => if k' == some k then advance >>= fun _ => f true else f false) where
  length_lt {s t a} hs h := by
    rw [peekKind_bind] at h
    split at h
    · next hk =>
      have hadvance : Consumes 1 (advance >>= fun _ => f true) := inferInstance
      exact hadvance.length_lt (Position.length_pos_of_kind (eq_of_beq hk)) h
    · exact hfalse.length_lt hs h

instance (s : Symbol) (x y : Parser α) [hx : Runs x] [hy : Consumes n y] :
    Consumes n (take s >>= fun b => if b = true then x else y) := by
  rw [take_bind]
  exact of_taken (f := fun b => if b = true then x else y) hx hy

instance (k : Keyword) (x y : Parser α) [hx : Runs x] [hy : Consumes n y] :
    Consumes n (takeKeyword k >>= fun b => if b = true then x else y) := by
  rw [takeKeyword_bind]
  exact of_taken (f := fun b => if b = true then x else y) hx hy

instance (s : Symbol) : Consumes 0 (symbol s) := by unfold symbol; infer_instance

instance (k : Keyword) : Consumes 0 (keyword k) := by unfold keyword; infer_instance

instance : Consumes 0 ident := by
  refine peek (inferInstanceAs (Consumes 0 (unexpected _))) fun k => ?_
  split <;> infer_instance

/-! ### Combinations -/

instance orElse (first second : Parser α) [Runs first] [hx : Consumes 0 first] [hy : Consumes 0 second] :
    Consumes 0 (orElse first second) where
  length_lt {s u a} _ h := by
    unfold Parser.orElse at h
    split at h
    · next b t hfirst =>
      cases h
      rw [position_commit]
      exact hx.length_lt (s := s.checkpoint) (Nat.zero_le _) hfirst
    · cases h
    · next e t hfirst =>
      have hback := Runs.position_rollback hfirst
      split at h
      · next b v hsecond =>
        cases h
        have hlt := hy.length_lt (Nat.zero_le _) hsecond
        rw [hback] at hlt
        rwa [position_commit]
      · cases h
      · cases h

instance (x : Parser (Span → α)) [Consumes n x] : Consumes n (spanned x) := by unfold spanned; infer_instance

/-- The closing parenthesis is consumed in any case. -/
instance items (item : Parser α) [Runs item] (fuel : Nat) : Consumes 0 (items item fuel) := by
  induction fuel <;> unfold Parser.items <;> infer_instance

instance (item : Parser α) [Runs item] : Consumes 0 (list item) := by unfold list; infer_instance

/-! ### Expressions -/

instance (ops : Level) (operand : Parser Expr) [Runs operand] [Consumes 0 operand] :
    Consumes 0 (leftAssoc ops operand) := by
  unfold leftAssoc; infer_instance

instance powerFrom (operand : Parser Expr) [Runs operand] [Consumes 0 operand] (fuel : Nat) :
    Consumes 0 (powerFrom operand fuel) := by
  cases fuel <;> unfold Parser.powerFrom <;> infer_instance

instance unaryFrom (operand : Parser Expr) [Runs operand] [Consumes 0 operand] (fuel : Nat) :
    Consumes 0 (unaryFrom operand fuel) := by
  cases fuel with
  | zero => exact inferInstanceAs (Consumes 0 exhausted)
  | succ fuel =>
    refine peek (inferInstanceAs (Consumes 0 operand)) fun k => ?_
    split <;> infer_instance

section Expressions

variable (inner : Parser Expr) [Runs inner]

instance : Consumes 0 (callExpr inner) := by unfold callExpr; infer_instance

instance : Consumes 0 nameExpr := by unfold nameExpr; infer_instance

instance : Consumes 0 (primary inner) := by
  unfold primary
  refine after fun _ => after fun span => peek ?_ fun k => ?_
  · exact inferInstanceAs (Consumes 0 (unexpected _))
  · split <;> infer_instance

instance : Consumes 0 (unary inner) := by unfold unary; infer_instance

instance : Consumes 0 (power inner) := by unfold power; infer_instance

instance : Consumes 0 (product inner) := by unfold product; infer_instance

instance : Consumes 0 (sum inner) := by unfold sum; infer_instance

instance : Consumes 0 (relation inner) := by unfold relation; infer_instance

instance : Consumes 0 (logic inner) := by unfold logic; infer_instance

end Expressions

instance expr (depth : Nat) : Consumes 0 (expr depth) := by
  cases depth <;> unfold Parser.expr <;> infer_instance

/-! ### Parts of statements -/

instance : Consumes 0 typeName := by
  refine peek (inferInstanceAs (Consumes 0 (unexpected _))) fun k => ?_
  split <;> infer_instance

instance : Consumes 0 param := by unfold param; infer_instance

instance : Consumes 0 intConst := by
  refine @second _ _ _ _ _ _ fun negative => peek (inferInstanceAs (Consumes 0 (unexpected _))) fun k => ?_
  split <;> infer_instance

/-- A constant has been seen when its value is known, and may be consumed. -/
instance constValue (negative : Bool) (f : Literal → Parser α) [∀ v, Runs (f v)] [∀ v, Consumes 1 (f v)] :
    Consumes 0 (constValue negative >>= f) := by
  unfold Parser.constValue
  rw [bind_assoc]
  refine peek (inferInstanceAs (Consumes 0 (unexpected _ >>= f))) fun k => ?_
  split <;> infer_instance

instance : Consumes 0 const := by unfold const; infer_instance

instance : Consumes 0 caseRange := by unfold caseRange; infer_instance

instance : Consumes 0 comparator := by
  have := Runs.comparatorOf
  unfold comparator
  infer_instance

set_option synthInstance.maxSize 256 in
instance : Consumes 0 forRange := by unfold forRange; infer_instance

/-! ### Statements -/

section Statements

variable (e : Parser Expr) (b : Parser Block) [Runs e] [Runs b]

instance [Consumes 0 e] : Consumes 0 (iterable e) := by unfold iterable; infer_instance

instance (k : Keyword) : Consumes 0 (decl e k) := by unfold decl; infer_instance

instance : Consumes 0 (printStmt e) := by unfold printStmt; infer_instance

instance : Consumes 0 (returnStmt e) := by unfold returnStmt; infer_instance

instance : Consumes 0 (assignStmt e) := by unfold assignStmt; infer_instance

instance : Consumes 0 (callStmt e) := by unfold callStmt; infer_instance

instance : Consumes 0 (forStmt e b) := by unfold forStmt; infer_instance

instance : Consumes 0 (whileStmt e b) := by unfold whileStmt; infer_instance

set_option synthInstance.maxSize 256 in
instance ifFrom (fuel : Nat) : Consumes 0 (ifFrom e b fuel) := by
  cases fuel <;> unfold Parser.ifFrom <;> infer_instance

instance : Consumes 0 (ifStmt e b) := by unfold ifStmt; infer_instance

instance : Consumes 0 (caseClause b) := by unfold caseClause; infer_instance

/-- The closing brace is consumed in any case. -/
instance casesFrom (fuel : Nat) : Consumes 0 (casesFrom b fuel) := by
  induction fuel <;> unfold Parser.casesFrom <;> infer_instance

instance : Consumes 0 (switchStmt e b) := by unfold switchStmt; infer_instance

instance : Consumes 0 (letItem e) := by unfold letItem; infer_instance

instance : Consumes 0 (stmt e b) := by
  refine peek (inferInstanceAs (Consumes 0 (unexpected _))) fun k => ?_
  split <;> infer_instance

instance block (depth : Nat) : Consumes 0 (block e depth) := by
  cases depth <;> unfold Parser.block <;> infer_instance

instance : Consumes 0 (func b) := by unfold func; infer_instance

instance : Consumes 0 (item e b) := by unfold item; infer_instance

end Statements

instance wholeExpr (depth : Nat) : Consumes 0 (wholeExpr depth) := by unfold Parser.wholeExpr; infer_instance

end Consumes

end Scriptlet.Parse
