import Scriptlet.Parse.Program
import Scriptlet.Proofs.Speculation.Expressions

/-!
# Statements and programs: the parser follows the descent

The one choice among statements is between an assignment and a call.  No checkpoint is open where it is made, so that
the error reported when both fail is the one that got furthest (`assignOrCall_follows`).  All other productions choose
by the next token, as the descent does.

An expression may leave the parser lost before an opening parenthesis.  What comes after an expression is a symbol or
a block, and neither accepts that parenthesis, so that no statement goes on in a lost state.
-/

namespace Scriptlet.Parse

open Parse.State Descent

variable {α : Type} {marks : List Position} {R : State → Prop} {s : State} {n : Nat}

/-! ### Parts of statements -/

private theorem typeName_follows : Follows marks R s Parser.typeName Descent.typeName := by
  refine Follows.peek fun k hk => ?_
  cases Parser.typeOf? k with
  | none => exact Follows.unexpected _
  | some ty =>
    apply Follows.nextSpan
    exact Follows.advance fun _ _ => Follows.pure _

private theorem typeAfter_follows (t : Symbol) : Follows marks R s (Parser.typeAfter t) (Descent.typeAfter t) := by
  refine Follows.take (fun _ _ _ => ?_) fun _ => Follows.pure _
  exact Follows.bind typeName_follows fun _ _ _ => Follows.pure _

private theorem param_follows : Follows marks R s Parser.param Descent.param := by
  refine Follows.bind Follows.ident fun name t _ => ?_
  refine Follows.bind (Follows.symbol _) fun _ u _ => ?_
  exact Follows.bind typeName_follows fun _ _ _ => Follows.pure _

private theorem intConst_follows : Follows marks R s Parser.intConst Descent.intConst := by
  refine Follows.take (fun u _ _ => ?_) fun _ => ?_
  all_goals
    refine Follows.peek fun k hk => ?_
    split
    · exact Follows.intValue fun v => Follows.advance fun _ _ => Follows.pure _
    · simp_all [Follows.unexpected]

private theorem constValue_follows (negative : Bool) :
    Follows marks R s (Parser.constValue negative) (Descent.constValue negative) := by
  refine Follows.peek fun k hk => ?_
  split
  · exact Follows.intValue fun v => Follows.pure _
  · exact Follows.doubleValue fun v => Follows.pure _
  · exact Follows.pure _
  · exact Follows.pure _
  · exact Follows.pure _
  · simp_all [Follows.unexpected]

private theorem const_follows : Follows marks R s Parser.const Descent.const := by
  apply Follows.spanned
  refine Follows.take (fun u _ _ => ?_) fun _ => ?_
  all_goals
    refine Follows.bind (constValue_follows _) fun value t _ => ?_
    exact Follows.advance fun _ _ => Follows.pure _

private theorem constsFrom_follows : ∀ fuel (s : State), s.position.rest.length < fuel →
    Follows marks Never s (Parser.constsFrom fuel) (Descent.constsFrom fuel) := by
  intro fuel
  induction fuel with
  | zero => intro s hs; omega
  | succ fuel ih =>
    intro s hf
    refine Follows.take (fun t hk ht => ?_) fun _ => Follows.pure _
    have hpos := Position.length_pos_of_kind hk
    have hl := s.position.length_next
    rw [← ht] at hl
    refine Follows.bind const_follows fun c u hu => ?_
    have hl' := ((const_reads _).reaches hu).length
    exact Follows.bind (ih u (by omega)) fun _ _ _ => Follows.pure _

private theorem caseRange_follows : Follows marks R s Parser.caseRange Descent.caseRange := by
  refine Follows.bind (Follows.keyword _) fun _ _ _ => ?_
  refine Follows.bind (Follows.symbol _) fun _ _ _ => ?_
  refine Follows.bind intConst_follows fun lo _ _ => ?_
  refine Follows.bind (Follows.symbol _) fun _ _ _ => ?_
  refine Follows.bind intConst_follows fun hi _ _ => ?_
  exact Follows.bind (Follows.symbol _) fun _ _ _ => Follows.pure _

private theorem comparator_follows : Follows marks R s Parser.comparator Descent.comparator := by
  refine Follows.enter fun s' _ => ?_
  apply Follows.atKeyword
  split
  · exact Follows.spanned caseRange_follows
  · refine Follows.bind const_follows fun first t _ => ?_
    apply Follows.rounds
    refine Follows.bind (constsFrom_follows _ t (by omega)) fun others u _ => ?_
    cases others with
    | nil => exact Follows.pure _
    | cons c cs => exact Follows.pure _

private theorem forRange_follows : Follows marks R s Parser.forRange Descent.forRange := by
  refine Follows.bind (Follows.keyword _) fun _ _ _ => ?_
  refine Follows.bind (Follows.symbol _) fun _ _ _ => ?_
  refine Follows.bind intConst_follows fun first _ _ => ?_
  refine Follows.bind (Follows.symbol _) fun _ _ _ => ?_
  refine Follows.bind intConst_follows fun last _ _ => ?_
  refine Follows.bind (Follows.symbol _) fun _ _ _ => ?_
  refine Follows.bind intConst_follows fun step _ _ => ?_
  exact Follows.bind (Follows.symbol _) fun _ _ _ => Follows.pure _

/-! ### Simple statements -/

section Simple

variable {x : Parser Expr} {y : Descent Expr}

private theorem iterable_follows (h : FollowsBelow n x y) (hs : s.position.rest.length < n) :
    Follows marks AtParen s (Parser.iterable x) (Descent.iterable y) := by
  apply Follows.atKeyword
  split
  · exact Follows.spanned forRange_follows
  · exact Follows.bind_stalls (h marks s hs) (fun _ _ _ => Follows.pure _) fun _ => Stalls.pure _

private theorem decl_follows (h : FollowsBelow n x y) (w : Keyword) (hs : s.position.rest.length < n) :
    Follows marks Never s (Parser.decl x w) (Descent.decl y w) := by
  refine Follows.enter fun s' hs' => ?_
  rw [← hs'] at hs
  refine Follows.bind (Follows.keyword _) fun _ t ht => ?_
  have h₁ := ((keyword_reads _ _).reaches ht).length
  refine Follows.bind Follows.ident fun name u hu => ?_
  have h₂ := ((ident_reads _).reaches hu).length
  refine Follows.bind (typeAfter_follows _) fun type v hv => ?_
  have h₃ := ((typeAfter_reads _ _).reaches hv).length
  refine Follows.bind (Follows.symbol _) fun _ w hw => ?_
  have h₄ := ((symbol_reads _ _).reaches hw).length
  exact expr_symbol_follows h (by decide) (by omega)

private theorem printStmt_follows (h : FollowsBelow n x y) (hy : ReadsBelow n y) (hs : s.position.rest.length < n) :
    Follows marks Never s (Parser.printStmt x) (Descent.printStmt y) := by
  refine Follows.enter fun s' hs' => ?_
  rw [← hs'] at hs
  refine Follows.bind (Follows.keyword _) fun _ t ht => ?_
  have hl := ((keyword_reads _ _).reaches ht).length
  refine Follows.bind (args_follow h hy (by omega)) fun args u _ => ?_
  exact Follows.bind (Follows.symbol _) fun _ _ _ => Follows.pure _

private theorem returnStmt_follows (h : FollowsBelow n x y) (hs : s.position.rest.length < n) :
    Follows marks Never s (Parser.returnStmt x) (Descent.returnStmt y) := by
  refine Follows.enter fun s' hs' => ?_
  rw [← hs'] at hs
  refine Follows.bind (Follows.keyword _) fun _ t ht => ?_
  have hl := ((keyword_reads _ _).reaches ht).length
  refine Follows.take (fun _ _ _ => Follows.pure _) fun _ => ?_
  exact expr_symbol_follows h (by decide) (by omega)

private theorem assignStmt_follows (h : FollowsBelow n x y) (hs : s.position.rest.length < n) :
    Follows marks Never s (Parser.assignStmt x) (Descent.assignStmt y) := by
  refine Follows.enter fun s' hs' => ?_
  rw [← hs'] at hs
  refine Follows.bind Follows.ident fun target t ht => ?_
  have h₁ := ((ident_reads _).reaches ht).length
  refine Follows.bind (Follows.symbol _) fun _ u hu => ?_
  have h₂ := ((symbol_reads _ _).reaches hu).length
  exact expr_symbol_follows h (by decide) (by omega)

private theorem callee_follows (h : FollowsBelow n x y) (hy : ReadsBelow n y) (hs : s.position.rest.length < n)
    (callee : Ident) : Follows marks Never s (do
      let args ← Parser.list x
      let _ ← Parser.symbol .semicolon
      return Stmt.call callee args) (do
      let args ← Descent.list y
      let _ ← Descent.symbol .semicolon
      return Stmt.call callee args) := by
  refine Follows.bind (args_follow h hy (by omega)) fun args t _ => ?_
  exact Follows.bind (Follows.symbol _) fun _ _ _ => Follows.pure _

/-- An assignment that fails after its sign fails beyond it. -/
private theorem index_of_assignStmt_error {p q : Position} {name : String} {e : Located ParseError}
    (hy : ReadsBelow n y) (hn : p.rest.length < n) (h : p.kind? = some (.identifier name))
    (hp : p.next.kind? = some (.symbol .assign)) (he : Descent.assignStmt y p = .error (.error e) q) :
    p.next.index < q.index := by
  have hl := p.length_next
  have hl' := p.next.length_next
  refine index_of_error (e := e) h hp (fun i _ => ?_) he
  refine Reads.after (hy _ (by omega)) fun value r _ _ => ?_
  exact Reads.after (symbol_reads _ r) fun _ _ _ _ => Reads.pure _

private theorem assignStmt_of_ne {p : Position} {name : String} (h : p.kind? = some (.identifier name))
    (hp : p.next.kind? ≠ some (.symbol .assign)) :
    Descent.assignStmt y p = .error (.error (p.next.unexpected (.symbol .assign))) p.next := by
  unfold Descent.assignStmt
  rw [Descent.bind_of_ok (ident_of_kind h), Descent.bind_of_error (symbol_of_ne hp)]

/-- At a name the parser tries the assignment and then the call, and the descent looks one token ahead. -/
theorem assignOrCall_follows {name : String} (h : FollowsBelow n x y) (hy : ReadsBelow n y)
    (hs : s.position.rest.length < n) (hk : s.position.kind? = some (.identifier name)) :
    Follows [] Never s (Parser.orElse (Parser.assignStmt x) (Parser.callStmt x))
      (if s.position.next.kind? = some (.symbol .assign) then Descent.assignStmt y else Descent.callStmt y) := by
  have hidx := (Position.Reaches.next (Position.length_pos_of_kind hk)).index
  have hassign : Follows [s.position] Never s.checkpoint (Parser.assignStmt x) (Descent.assignStmt y) :=
    assignStmt_follows h hs
  by_cases hp : s.position.next.kind? = some (.symbol .assign)
  · rw [if_pos hp]
    have hq : ∀ e q, Descent.assignStmt y s.position = .error (.error e) q → s.position.next.index < q.index :=
      fun e q he => index_of_assignStmt_error hy hs hk hp he
    refine Follows.orElse_first_outermost hassign (fun e q he => ?_) fun e q t he ht hlost => ?_
    · have := hq e q he
      omega
    -- the call fails at the equals sign, before the error of the assignment
    have hkt : t.position.kind? = some (.identifier name) := by rw [ht]; exact hk
    have hnp : t.position.next.kind? ≠ some (.symbol .lparen) := by rw [ht, hp]; decide
    obtain ⟨stop, hstop⟩ := Parser.callStmt_of_ne (e := x) hkt hnp
    refine ⟨stop, _, hstop, ?_⟩
    apply (hlost.log (.enter .callStmt)).move (checkpoints_advance _) (deepest_advance _)
    rw [position_advance, show (t.log _).position = s.position from ht]
    exact hq e q he
  · rw [if_neg hp]
    refine Follows.orElse_second hassign (assignStmt_of_ne hk hp) (by omega) (fun t ht hlost => ?_) (Or.inl rfl)
    have hkt : t.position.kind? = some (.identifier name) := by rw [ht]; exact hk
    have hpos : (t.log (.enter .callStmt)).advance.position = s.position.next := by
      rw [position_advance, show (t.log _).position = s.position from ht]
    -- the assignment failed right after the name, and there the call is in a settled state again
    have hset : (t.log (.enter .callStmt)).advance.Settled [s.position] := by
      apply (hlost.log (.enter .callStmt)).settled (checkpoints_advance _) (deepest_advance _)
      exact Nat.le_of_eq (congrArg Position.index hpos.symm)
    have hl := s.position.length_next
    have hcall := callee_follows h hy (by rw [hpos]; omega) ⟨name, s.position.nextSpan⟩ hset
    rw [hpos] at hcall
    have hd : Descent.callStmt y s.position = _ := Descent.bind_of_ok (ident_of_kind hk)
    rw [Parser.callStmt_of_kind hkt, hd, ht]
    exact hcall

end Simple

/-! ### Statements with blocks -/

/-- The parsers of expressions and blocks follow the descents from every place with fewer than `n` tokens ahead, and
no block begins with a parenthesis. -/
structure PartsFollow (n : Nat) (x : Parser Expr) (y : Descent Expr) (c : Parser Block) (d : Descent Block) :
    Prop where
  expr : FollowsBelow n x y
  expr_reads : ReadsBelow n y
  block : ∀ s : State, s.position.rest.length < n → Follows [] Never s c d
  block_reads : ReadsBelow n d
  block_stalls : ∀ {α : Type} (f : Block → Parser α), Stalls [] AtParen Never (c >>= f)

section Blocks

variable {x : Parser Expr} {y : Descent Expr} {c : Parser Block} {d : Descent Block}

private theorem forStmt_follows (h : PartsFollow n x y c d) (hs : s.position.rest.length < n) :
    Follows [] Never s (Parser.forStmt x c) (Descent.forStmt y d) := by
  refine Follows.enter fun s' hs' => ?_
  rw [← hs'] at hs
  refine Follows.bind (Follows.keyword _) fun _ t ht => ?_
  have h₁ := ((keyword_reads _ _).reaches ht).length
  refine Follows.bind Follows.ident fun var u hu => ?_
  have h₂ := ((ident_reads _).reaches hu).length
  refine Follows.bind (Follows.keyword _) fun _ v hv => ?_
  have h₃ := ((keyword_reads _ _).reaches hv).length
  refine Follows.bind_stalls (iterable_follows h.expr (by omega)) (fun iterable w hw => ?_) fun _ => h.block_stalls _
  have h₄ := ((iterable_reads h.expr_reads _ (by omega)).reaches hw).length
  exact Follows.bind (h.block w (by omega)) fun _ _ _ => Follows.pure _

private theorem whileStmt_follows (h : PartsFollow n x y c d) (hs : s.position.rest.length < n) :
    Follows [] Never s (Parser.whileStmt x c) (Descent.whileStmt y d) := by
  refine Follows.enter fun s' hs' => ?_
  rw [← hs'] at hs
  refine Follows.bind (Follows.keyword _) fun _ t ht => ?_
  have h₁ := ((keyword_reads _ _).reaches ht).length
  refine Follows.bind_stalls (h.expr [] t (by omega)) (fun cond u hu => ?_) fun _ => h.block_stalls _
  have h₂ := ((h.expr_reads _ (by omega)).reaches hu).length
  exact Follows.bind (h.block u (by omega)) fun _ _ _ => Follows.pure _

private theorem ifFrom_follows (h : PartsFollow n x y c d) : ∀ fuel (s : State), s.position.rest.length < fuel →
    s.position.rest.length < n → Follows [] Never s (Parser.ifFrom x c fuel) (Descent.ifFrom y d fuel) := by
  intro fuel
  induction fuel with
  | zero => intro s hs; omega
  | succ fuel ih =>
    intro s hf hn
    refine Follows.enter fun s' hs' => ?_
    rw [← hs'] at hf hn
    refine Follows.bind (Follows.keyword _) fun _ t ht => ?_
    have h₁ := ((keyword_reads _ _).reaches ht).length
    refine Follows.bind_stalls (h.expr [] t (by omega)) (fun cond u hu => ?_) fun _ => h.block_stalls _
    have h₂ := ((h.expr_reads _ (by omega)).reaches hu).length
    refine Follows.bind (h.block u (by omega)) fun thenBlock v hv => ?_
    have h₃ := ((h.block_reads _ (by omega)).reaches hv).length
    refine Follows.takeKeyword (fun w hk hw => ?_) fun _ => Follows.pure _
    have h₄ := v.position.length_next
    rw [← hw] at h₄
    apply Follows.atKeyword
    split
    · exact Follows.bind (Follows.spanned (ih w (by omega) (by omega))) fun _ _ _ => Follows.pure _
    · exact Follows.bind (h.block w (by omega)) fun _ _ _ => Follows.pure _

private theorem caseClause_follows (h : PartsFollow n x y c d) (hs : s.position.rest.length < n) :
    Follows [] Never s (Parser.caseClause c) (Descent.caseClause d) := by
  have hl := s.position.length_next
  refine Follows.takeKeyword (fun t hk ht => ?_) fun _ => Follows.takeKeyword (fun t hk ht => ?_) fun _ => ?_
  · rw [← ht] at hl
    refine Follows.bind comparator_follows fun cmp u hu => ?_
    have hl' := ((comparator_reads _).reaches hu).length
    exact Follows.bind (h.block u (by omega)) fun _ _ _ => Follows.pure _
  · rw [← ht] at hl
    exact Follows.bind (h.block t (by omega)) fun _ _ _ => Follows.pure _
  · exact Follows.unexpected _

private theorem casesFrom_follows (h : PartsFollow n x y c d) : ∀ fuel (s : State), s.position.rest.length < fuel →
    s.position.rest.length < n → Follows [] Never s (Parser.casesFrom c fuel) (Descent.casesFrom d fuel) := by
  intro fuel
  induction fuel with
  | zero => intro s hs; omega
  | succ fuel ih =>
    intro s hf hn
    refine Follows.take (fun _ _ _ => Follows.pure _) fun _ => ?_
    refine Follows.bind (Follows.spanned (caseClause_follows h hn)) fun clause t ht => ?_
    have hl := ((spanned_reads (caseClause_reads h.block_reads _ hn)).reaches ht).length
    exact Follows.bind (ih t (by omega) (by omega)) fun _ _ _ => Follows.pure _

private theorem switchStmt_follows (h : PartsFollow n x y c d) (hs : s.position.rest.length < n) :
    Follows [] Never s (Parser.switchStmt x c) (Descent.switchStmt y d) := by
  refine Follows.enter fun s' hs' => ?_
  rw [← hs'] at hs
  refine Follows.bind (Follows.keyword _) fun _ t ht => ?_
  have h₁ := ((keyword_reads _ _).reaches ht).length
  refine Follows.bind_stalls (h.expr [] t (by omega)) (fun subject u hu => ?_) fun _ => Stalls.symbol (by decide)
  have h₂ := ((h.expr_reads _ (by omega)).reaches hu).length
  refine Follows.bind (Follows.symbol _) fun _ v hv => ?_
  have h₃ := ((symbol_reads _ _).reaches hv).length
  apply Follows.rounds
  exact Follows.bind (casesFrom_follows h _ v (by omega) (by omega)) fun _ _ _ => Follows.pure _

private theorem letItem_follows (h : FollowsBelow n x y) (hs : s.position.rest.length < n) :
    Follows marks Never s (Parser.letItem x) (Descent.letItem y) :=
  Follows.bind (decl_follows h _ hs) fun _ _ _ => Follows.pure _

private theorem stmt_follows (h : PartsFollow n x y c d) (hs : s.position.rest.length < n) :
    Follows [] Never s (Parser.stmt x c) (Descent.stmt y d) := by
  refine Follows.peek fun k hk => ?_
  split
  · exact Follows.bind (letItem_follows h.expr hs) fun _ _ _ => Follows.pure _
  · exact Follows.bind (decl_follows h.expr _ hs) fun _ _ _ => Follows.pure _
  · exact printStmt_follows h.expr h.expr_reads hs
  · exact returnStmt_follows h.expr hs
  · exact forStmt_follows h hs
  · exact whileStmt_follows h hs
  · exact Follows.rounds (ifFrom_follows h _ s (by omega) hs)
  · exact switchStmt_follows h hs
  · apply Follows.peekSecond_right
    exact assignOrCall_follows h.expr h.expr_reads hs hk
  · simp_all [Follows.unexpected]

private theorem stmtsFrom_follows {x : Parser Stmt} {y : Descent Stmt}
    (h : ∀ s : State, s.position.rest.length < n → Follows [] Never s x y) (hy : ReadsBelow n y) :
    ∀ fuel (s : State), s.position.rest.length < fuel → s.position.rest.length < n →
      Follows [] Never s (Parser.stmtsFrom x fuel) (Descent.stmtsFrom y fuel) := by
  intro fuel
  induction fuel with
  | zero => intro s hs; omega
  | succ fuel ih =>
    intro s hf hn
    apply Follows.atSymbol
    split
    · exact Follows.pure _
    · refine Follows.bind (h s hn) fun stmt t ht => ?_
      have hl := ((hy _ hn).reaches ht).length
      exact Follows.bind (ih t (by omega) (by omega)) fun _ _ _ => Follows.pure _

end Blocks

private theorem block_stalls (x : Parser Expr) (depth : Nat) {α : Type} (f : Block → Parser α) :
    Stalls [] AtParen Never (Parser.block x (depth + 1) >>= f) := by
  unfold Parser.block
  rw [bind_assoc]
  refine Stalls.enter _ ?_
  rw [bind_assoc]
  exact Stalls.symbol (by decide)

/-- The parser of blocks follows the descent where that of expressions does. -/
private theorem block_follows {x : Parser Expr} {y : Descent Expr} (h : FollowsBelow n x y) (hy : ReadsBelow n y) :
    ∀ depth, depth ≤ n → ∀ s : State, s.position.rest.length < depth →
      Follows [] Never s (Parser.block x depth) (Descent.block y depth) := by
  intro depth
  induction depth with
  | zero => intro _ s hs; omega
  | succ depth ih =>
    intro hd s₀ hs
    refine Follows.enter fun s hs₀ => ?_
    rw [← hs₀] at hs
    refine Follows.bind (Follows.symbol _) fun opening t ht => ?_
    have hl := ((symbol_reads _ _).reaches ht).length
    obtain ⟨m, rfl⟩ : ∃ m, depth = m + 1 := ⟨depth - 1, by omega⟩
    have hparts : PartsFollow (m + 1) x y (Parser.block x (m + 1)) (Descent.block y (m + 1)) :=
      ⟨h.mono (by omega), hy.mono (by omega), ih (by omega), block_reads hy _ (by omega), block_stalls x m⟩
    have hstmt : ReadsBelow (m + 1) (Descent.spanned (Descent.stmt y (Descent.block y (m + 1)))) :=
      fun p hp => spanned_reads (stmt_reads hparts.expr_reads hparts.block_reads p hp)
    apply Follows.rounds
    refine Follows.bind (stmtsFrom_follows (fun u hu => Follows.spanned (stmt_follows hparts hu)) hstmt _ t (by omega)
      (by omega)) fun stmts u _ => ?_
    exact Follows.bind (Follows.symbol _) fun _ _ _ => Follows.pure _

/-! ### Programs -/

section Programs

variable {x : Parser Expr} {y : Descent Expr} {c : Parser Block} {d : Descent Block}

private theorem func_follows (h : ∀ s : State, s.position.rest.length < n → Follows [] Never s c d)
    (hs : s.position.rest.length < n) : Follows [] Never s (Parser.func c) (Descent.func d) := by
  refine Follows.enter fun s' hs' => ?_
  rw [← hs'] at hs
  refine Follows.bind (Follows.keyword _) fun _ t ht => ?_
  have h₁ := ((keyword_reads _ _).reaches ht).length
  refine Follows.bind Follows.ident fun name u hu => ?_
  have h₂ := ((ident_reads _).reaches hu).length
  have hparam : ReadsBelow n Descent.param := fun p _ => param_reads p
  refine Follows.bind (list_follows (fun _ _ => param_follows) hparam (fun _ => Stalls.never _) (by omega))
    fun params v hv => ?_
  have h₃ := ((list_reads hparam _ (by omega)).reaches hv).length
  refine Follows.bind (typeAfter_follows _) fun result w hw => ?_
  have h₄ := ((typeAfter_reads _ _).reaches hw).length
  exact Follows.bind (h w (by omega)) fun _ _ _ => Follows.pure _

private theorem item_follows (h : FollowsBelow n x y)
    (hc : ∀ s : State, s.position.rest.length < n → Follows [] Never s c d)
    (hs : s.position.rest.length < n) : Follows [] Never s (Parser.item x c) (Descent.item y d) := by
  refine Follows.enter fun s' hs' => ?_
  rw [← hs'] at hs
  refine Follows.peek_right fun k hk => Follows.atKeyword_left ?_
  rw [hk]
  by_cases hlet : k = some (.keyword .letKw)
  · rw [if_pos (by simp [hlet]), hlet]
    exact letItem_follows h hs
  · rw [if_neg (by simpa using hlet)]
    apply Follows.atKeyword_left
    rw [hk]
    by_cases hfunc : k = some (.keyword .funcKw)
    · rw [if_pos (by simp [hfunc]), hfunc]
      exact func_follows hc hs
    · rw [if_neg (by simpa using hfunc)]
      simp_all [Follows.unexpected]

private theorem itemsToEnd_follows {x : Parser Item} {y : Descent Item}
    (h : ∀ s : State, s.position.rest.length < n → Follows [] Never s x y) (hy : ReadsBelow n y) :
    ∀ fuel (s : State), s.position.rest.length < fuel → s.position.rest.length < n →
      Follows [] Never s (Parser.itemsToEnd x fuel) (Descent.itemsToEnd y fuel) := by
  intro fuel
  induction fuel with
  | zero => intro s hs; omega
  | succ fuel ih =>
    intro s hf hn
    refine Follows.peek fun k _ => ?_
    split
    · exact Follows.pure _
    · refine Follows.bind (h s hn) fun item t ht => ?_
      have hl := ((hy _ hn).reaches ht).length
      exact Follows.bind (ih t (by omega) (by omega)) fun _ _ _ => Follows.pure _

end Programs

/-- The parser of programs follows the descent, and is never lost where it succeeds. -/
theorem program_follows {depth : Nat} (hs : s.position.rest.length < depth) :
    Follows [] Never s (Parser.program depth) (Descent.program depth) := by
  refine Follows.enter fun s' hs' => ?_
  rw [← hs'] at hs
  have hblock := block_follows (expr_follows depth) (expr_reads depth) depth (Nat.le_refl _)
  have hitem : ReadsBelow depth (Descent.spanned (Descent.item (Descent.expr depth)
      (Descent.block (Descent.expr depth) depth))) :=
    fun p hp => spanned_reads (item_reads (expr_reads depth) (block_reads (expr_reads depth) _ (Nat.le_refl _)) p hp)
  apply Follows.rounds
  refine Follows.bind (itemsToEnd_follows (fun t ht => Follows.spanned (item_follows (expr_follows depth) hblock ht))
    hitem _ s' (by omega) hs) fun items t _ => ?_
  exact Follows.pure _

/-- An opening parenthesis is not the end of an expression, so a parser that stalls there fails. -/
theorem wholeExpr_follows {depth : Nat} (hs : s.position.rest.length < depth) :
    Follows [] Never s (Parser.wholeExpr depth) (Descent.wholeExpr depth) := by
  refine Follows.bind_stalls (expr_follows depth [] s hs) (fun e t _ => ?_) fun e => ?_
  · refine Follows.peek fun k _ => ?_
    split
    · exact Follows.pure _
    · exact Follows.unexpected _
  · exact Stalls.peek (Stalls.unexpected _)

end Scriptlet.Parse
