import Scriptlet.Proofs.Speculation.Follows

/-!
# Expressions: the parser follows the descent

The one choice in an expression is between a call and a plain name.  Where the call is what the token after the name
asks for and fails, the parser goes on with the plain name and stands before the opening parenthesis, which nothing
after an expression accepts.  So the failure is never undone: it stays the error that got furthest
(`callOrName_follows`), and every level of precedence hands the parse on as it is (`expr_follows`).
-/

namespace Scriptlet.Parse

open Parse.State Descent
open Scriptlet.Parser (Level)

variable {α : Type} {marks : List Position} {R : State → Prop} {n : Nat}

/-- The parser follows the descent from every place with fewer than `n` tokens ahead, and may go on in a lost state
before an opening parenthesis. -/
def FollowsBelow (n : Nat) (x : Parser α) (y : Descent α) : Prop :=
  ∀ marks s, s.position.rest.length < n → Follows marks AtParen s x y

theorem FollowsBelow.mono {x : Parser α} {y : Descent α} {m : Nat} (h : FollowsBelow n x y) (hm : m ≤ n) :
    FollowsBelow m x y :=
  fun marks s hs => h marks s (by omega)

/-! ### Lists -/

private theorem items_follows {x : Parser α} {y : Descent α}
    (h : ∀ s : State, s.position.rest.length < n → Follows marks R s x y) (hy : ReadsBelow n y)
    (hsep : ∀ f : Unit → Parser (List α), Stalls marks R Never (Parser.separator >>= f)) :
    ∀ fuel (s : State), s.position.rest.length < fuel → s.position.rest.length < n →
      Follows marks Never s (Parser.items x fuel) (Descent.items y fuel) := by
  intro fuel
  induction fuel with
  | zero => intro s hs; omega
  | succ fuel ih =>
    intro s hf hn
    refine Follows.take (fun _ _ _ => Follows.pure _) fun _ => ?_
    apply Follows.atSymbol
    split
    · exact Follows.unexpected _
    · refine Follows.bind_stalls (h s hn) (fun a t ht => ?_) fun a => hsep _
      have hl := ((hy _ hn).reaches ht).length
      refine Follows.bind Follows.separator fun _ u hu => ?_
      have hl' := ((separator_reads _).reaches hu).length
      exact Follows.bind (ih u (by omega) (by omega)) fun _ _ _ => Follows.pure _

/-- The lists follow each other if their items do, and items that are lost give up before the next one. -/
theorem list_follows {x : Parser α} {y : Descent α} {s : State}
    (h : ∀ s : State, s.position.rest.length < n → Follows marks R s x y) (hy : ReadsBelow n y)
    (hsep : ∀ f : Unit → Parser (List α), Stalls marks R Never (Parser.separator >>= f))
    (hs : s.position.rest.length < n + 1) : Follows marks Never s (Parser.list x) (Descent.list y) := by
  refine Follows.bind (Follows.symbol _) fun _ t ht => ?_
  have hl := ((symbol_reads _ _).reaches ht).length
  apply Follows.rounds
  exact items_follows h hy hsep _ t (by omega) (by omega)

theorem args_follow {x : Parser α} {y : Descent α} {s : State} (h : FollowsBelow n x y) (hy : ReadsBelow n y)
    (hs : s.position.rest.length < n + 1) : Follows marks Never s (Parser.list x) (Descent.list y) :=
  list_follows (fun t ht => h marks t ht) hy (fun _ => Stalls.separator) hs

/-! ### Operators -/

private theorem leftAssocFrom_stalls {ops : Level} {x : Parser Expr} (hops : ops.op? (some (.symbol .lparen)) = none)
    (fuel : Nat) (lhs : Expr) : Stalls marks AtParen AtParen (Parser.leftAssocFrom ops x (fuel + 1) lhs) := by
  apply Stalls.peek
  rw [hops]
  exact Stalls.pure _

private theorem leftAssocFrom_follows {ops : Level} {x : Parser Expr} {y : Descent Expr}
    (hops : ops.op? (some (.symbol .lparen)) = none) (h : FollowsBelow n x y) (hy : ReadsBelow n y) :
    ∀ fuel (s : State) lhs, s.position.rest.length < fuel → s.position.rest.length < n →
      Follows marks AtParen s (Parser.leftAssocFrom ops x fuel lhs) (Descent.leftAssocFrom ops y fuel lhs) := by
  intro fuel
  induction fuel with
  | zero => intro s lhs hs; omega
  | succ fuel ih =>
    intro s lhs hf hn
    refine Follows.peek fun k hk => ?_
    cases hop : ops.op? k with
    | none => exact Follows.pure _
    | some op =>
      have hpos : 0 < s.position.rest.length := Position.length_pos_of_read (hk ▸ hop) rfl
      obtain ⟨fuel, rfl⟩ : ∃ m, fuel = m + 1 := ⟨fuel - 1, by omega⟩
      have hl := s.position.length_next
      refine Follows.advance fun t ht => ?_
      rw [← ht] at hl
      refine Follows.bind_stalls (h marks t (by omega)) (fun rhs u hu => ?_) fun rhs =>
        leftAssocFrom_stalls hops fuel _
      have hl' := ((hy _ (by omega)).reaches hu).length
      exact ih u _ (by omega) (by omega)

private theorem leftAssoc_follows (ops : Level) {x : Parser Expr} {y : Descent Expr}
    (hops : ops.op? (some (.symbol .lparen)) = none) (h : FollowsBelow n x y) (hy : ReadsBelow n y) :
    FollowsBelow n (Parser.leftAssoc ops x) (Descent.leftAssoc ops y) := by
  intro marks s hs
  refine Follows.bind_stalls (h marks s hs) (fun lhs t ht => ?_) fun lhs => ?_
  · have hl := ((hy _ hs).reaches ht).length
    apply Follows.rounds
    exact leftAssocFrom_follows hops h hy _ t lhs (by omega) (by omega)
  · exact Stalls.rounds fun m => leftAssocFrom_stalls hops m lhs

private theorem powerFrom_follows {x : Parser Expr} {y : Descent Expr} (h : FollowsBelow n x y) (hy : ReadsBelow n y) :
    ∀ fuel (s : State), s.position.rest.length < fuel → s.position.rest.length < n →
      Follows marks AtParen s (Parser.powerFrom x fuel) (Descent.powerFrom y fuel) := by
  intro fuel
  induction fuel with
  | zero => intro s hs; omega
  | succ fuel ih =>
    intro s hf hn
    refine Follows.enter fun s' hs' => ?_
    rw [← hs'] at hf hn
    refine Follows.bind_stalls (h marks s' hn) (fun lhs t ht => ?_) fun lhs => ?_
    · have hl := ((hy _ hn).reaches ht).length
      refine Follows.take (fun u _ hu => ?_) fun _ => Follows.pure _
      have hl' := t.position.length_next
      rw [← hu] at hl'
      exact Follows.bind_stalls (ih u (by omega) (by omega)) (fun _ _ _ => Follows.pure _) fun _ => Stalls.pure _
    · exact Stalls.take (by decide) (Stalls.pure _)

private theorem unaryFrom_follows {x : Parser Expr} {y : Descent Expr} (h : FollowsBelow n x y) :
    ∀ fuel (s : State), s.position.rest.length < fuel → s.position.rest.length < n →
      Follows marks AtParen s (Parser.unaryFrom x fuel) (Descent.unaryFrom y fuel) := by
  intro fuel
  induction fuel with
  | zero => intro s hs; omega
  | succ fuel ih =>
    intro s hf hn
    refine Follows.peek fun k hk => ?_
    cases hop : Parser.unaryOp? k with
    | none => exact h marks s hn
    | some op =>
      have hpos : 0 < s.position.rest.length := Position.length_pos_of_read (hk ▸ hop) rfl
      have hl := s.position.length_next
      apply Follows.nextSpan
      refine Follows.advance fun t ht => ?_
      rw [← ht] at hl
      exact Follows.bind_stalls (ih t (by omega) (by omega)) (fun _ _ _ => Follows.pure _) fun _ => Stalls.pure _

/-! ### Calls and names -/

private theorem callExpr_follows {x : Parser Expr} {y : Descent Expr} {s : State} (h : FollowsBelow n x y)
    (hy : ReadsBelow n y) (hs : s.position.rest.length < n + 1) :
    Follows marks Never s (Parser.callExpr x) (Descent.callExpr y) := by
  refine Follows.enter fun s' hs' => ?_
  rw [← hs'] at hs
  refine Follows.bind Follows.ident fun callee t ht => ?_
  have hl := ((ident_reads _).reaches ht).length
  refine Follows.bind (args_follow h hy (by omega)) fun args u _ => ?_
  exact Follows.lastSpan (Follows.pure _)

/-- A call that fails after its opening parenthesis fails beyond it. -/
private theorem index_of_callExpr_error {y : Descent Expr} {p q : Position} {name : String} {e : Located ParseError}
    (hy : ReadsBelow n y) (hn : p.rest.length < n + 1) (h : p.kind? = some (.identifier name))
    (hp : p.next.kind? = some (.symbol .lparen)) (he : Descent.callExpr y p = .error (.error e) q) :
    p.next.index < q.index := by
  have hl := p.length_next
  have hl' := p.next.length_next
  have hpos := Position.length_pos_of_kind h
  refine index_of_error (e := e) (f := fun i _ => Descent.rounds >>= fun r => Descent.items y r >>= fun args =>
    Descent.lastSpan >>= fun l => pure (Expr.call i args (i.span.through l))) h hp (fun i l => ?_) ?_
  · apply Reads.rounds
    refine Reads.after (items_reads hy _ _ (by omega) (by omega)) fun args r _ _ => ?_
    exact Reads.lastSpan (Reads.pure _)
  · rw [← he]
    unfold Descent.callExpr Descent.list
    simp only [bind_assoc]

private theorem callExpr_of_ne {y : Descent Expr} {p : Position} {name : String}
    (h : p.kind? = some (.identifier name)) (hp : p.next.kind? ≠ some (.symbol .lparen)) :
    Descent.callExpr y p = .error (.error (p.next.unexpected (.symbol .lparen))) p.next := by
  have hl : Descent.list y p.next = _ := Descent.bind_of_error (symbol_of_ne hp)
  unfold Descent.callExpr
  rw [Descent.bind_of_ok (ident_of_kind h), Descent.bind_of_error hl]

/-- At a name the parser tries the call and falls back to the plain name, and the descent looks one token ahead. -/
theorem callOrName_follows {x : Parser Expr} {y : Descent Expr} {s : State} {name : String} (h : FollowsBelow n x y)
    (hy : ReadsBelow n y) (hs : s.position.rest.length < n + 1) (hk : s.position.kind? = some (.identifier name)) :
    Follows marks AtParen s (Parser.orElse (Parser.callExpr x) Parser.nameExpr)
      (if s.position.next.kind? = some (.symbol .lparen) then Descent.callExpr y else Descent.nameExpr) := by
  have hidx := (Position.Reaches.next (Position.length_pos_of_kind hk)).index
  have hcall : Follows (s.position :: marks) Never s.checkpoint (Parser.callExpr x) (Descent.callExpr y) :=
    callExpr_follows h hy hs
  by_cases hp : s.position.next.kind? = some (.symbol .lparen)
  · rw [if_pos hp]
    have hq : ∀ e q, Descent.callExpr y s.position = .error (.error e) q → s.position.next.index < q.index :=
      fun e q he => index_of_callExpr_error hy hs hk hp he
    refine Follows.orElse_first hcall (fun e q he => by have := hq e q he; omega) fun e q t he ht hlost => ?_
    -- the name is read, and the parser stands at the parenthesis, short of the error of the call
    have hkt : t.position.kind? = some (.identifier name) := by rw [ht]; exact hk
    refine ⟨_, _, Parser.nameExpr_of_kind hkt, ?_, ?_⟩
    · apply (hlost.log (.enter .nameExpr)).move (checkpoints_advance _) (deepest_advance _)
      rw [position_advance, show (t.log _).position = s.position from ht]
      exact hq e q he
    · unfold AtParen
      rw [position_advance, show (t.log _).position = s.position from ht]
      exact hp
  · rw [if_neg hp]
    have hname : Descent.nameExpr s.position = .ok (.name name s.position.nextSpan) s.position.next :=
      (Descent.bind_of_ok (ident_of_kind hk)).trans rfl
    refine Follows.orElse_second hcall (callExpr_of_ne hk hp) (by omega) (fun t ht hlost => ?_)
      (Or.inr ⟨_, _, hname⟩)
    have hkt : t.position.kind? = some (.identifier name) := by rw [ht]; exact hk
    have hpos : (t.log (.enter .nameExpr)).advance.position = s.position.next := by
      rw [position_advance, show (t.log _).position = s.position from ht]
    rw [Parser.nameExpr_of_kind hkt, hname, ht, ← hpos]
    apply Matches.ok
    apply (hlost.log (.enter .nameExpr)).settled (checkpoints_advance _) (deepest_advance _)
    exact Nat.le_of_eq (congrArg Position.index hpos.symm)

/-! ### Primary expressions and levels of precedence -/

private theorem literal_follows {s : State} (value : Literal) :
    Follows marks R s (Parser.advance >>= fun _ => pure (.literal value s.position.nextSpan))
      (Descent.literal value) := by
  apply Follows.nextSpan_right
  exact Follows.advance fun _ _ => Follows.pure _

private theorem inputCall_follows {x : Parser Expr} {y : Descent Expr} {s : State} (h : FollowsBelow n x y)
    (hy : ReadsBelow n y) (hs : s.position.next.rest.length < n + 1) :
    Follows marks AtParen s (do
      Parser.advance
      let args ← Parser.list x
      return .call ⟨Keyword.inputKw.text, s.position.nextSpan⟩ args (s.position.nextSpan.through (← Parser.lastSpan)))
      (Descent.inputCall y) := by
  apply Follows.nextSpan_right
  refine Follows.advance fun t ht => ?_
  rw [← ht] at hs
  refine Follows.bind (args_follow h hy hs) fun args u _ => ?_
  exact Follows.lastSpan (Follows.pure _)

theorem expr_symbol_follows {x : Parser Expr} {y : Descent Expr} {s : State} {t : Symbol} {f : Expr → Span → α}
    (h : FollowsBelow n x y) (ht : t ≠ .lparen) (hs : s.position.rest.length < n) : Follows marks R s (do
      let e ← x
      let l ← Parser.symbol t
      return f e l) (do
      let e ← y
      let l ← Descent.symbol t
      return f e l) := by
  refine Follows.bind_stalls (h marks s hs) (fun e u hu => ?_) fun e => Stalls.symbol ht
  exact Follows.bind (Follows.symbol _) fun _ _ _ => Follows.pure _

private theorem parenthesized_follows {x : Parser Expr} {y : Descent Expr} {s : State} (h : FollowsBelow n x y)
    (hs : s.position.next.rest.length < n) : Follows marks AtParen s (do
      Parser.advance
      let e ← x
      let close ← Parser.symbol .rparen
      return e.withSpan (s.position.nextSpan.through close)) (Descent.parenthesized y) := by
  apply Follows.nextSpan_right
  refine Follows.advance fun t ht => ?_
  rw [← ht] at hs
  exact expr_symbol_follows h (by decide) hs

private theorem primary_follows {x : Parser Expr} {y : Descent Expr} (h : FollowsBelow n x y) (hy : ReadsBelow n y) :
    FollowsBelow (n + 1) (Parser.primary x) (Descent.primary y) := by
  intro marks s₀ hs
  refine Follows.enter fun s hs₀ => ?_
  rw [← hs₀] at hs
  have hl := s.position.length_next
  apply Follows.nextSpan_left
  refine Follows.peek fun k hk => ?_
  split
  · exact Follows.intValue fun v => literal_follows _
  · exact Follows.doubleValue fun v => literal_follows _
  · exact literal_follows _
  · exact literal_follows _
  · exact literal_follows _
  · exact inputCall_follows h hy (by omega)
  · have hpos := Position.length_pos_of_kind hk
    exact parenthesized_follows h (by omega)
  · apply Follows.peekSecond_right
    exact callOrName_follows h hy hs hk
  · simp_all [Follows.unexpected]

private theorem unary_follows {x : Parser Expr} {y : Descent Expr} (h : FollowsBelow n x y) (hy : ReadsBelow n y) :
    FollowsBelow (n + 1) (Parser.unary x) (Descent.unary y) := by
  intro marks s hs
  apply Follows.rounds
  exact unaryFrom_follows (primary_follows h hy) _ s (by omega) hs

private theorem power_follows {x : Parser Expr} {y : Descent Expr} (h : FollowsBelow n x y) (hy : ReadsBelow n y) :
    FollowsBelow (n + 1) (Parser.power x) (Descent.power y) := by
  intro marks s hs
  apply Follows.rounds
  exact powerFrom_follows (unary_follows h hy) (unary_reads hy) _ s (by omega) hs

private theorem logic_follows {x : Parser Expr} {y : Descent Expr} (h : FollowsBelow n x y) (hy : ReadsBelow n y) :
    FollowsBelow (n + 1) (Parser.logic x) (Descent.logic y) := by
  have hproduct := leftAssoc_follows Parser.productOps rfl (power_follows h hy) (power_reads hy)
  have hsum := leftAssoc_follows Parser.sumOps rfl hproduct (leftAssoc_reads _ (power_reads hy))
  have hrelation := leftAssoc_follows Parser.relationOps rfl hsum
    (leftAssoc_reads _ (leftAssoc_reads _ (power_reads hy)))
  exact leftAssoc_follows Parser.logicOps rfl hrelation
    (leftAssoc_reads _ (leftAssoc_reads _ (leftAssoc_reads _ (power_reads hy))))

/-- The parser of expressions follows the descent, with any depth greater than the number of tokens ahead. -/
theorem expr_follows (depth : Nat) : FollowsBelow depth (Parser.expr depth) (Descent.expr depth) := by
  induction depth with
  | zero => intro marks s hs; omega
  | succ depth ih =>
    intro marks s₀ hs
    refine Follows.enter fun s hs₀ => ?_
    rw [← hs₀] at hs
    exact logic_follows ih (expr_reads depth) marks s hs

end Scriptlet.Parse
