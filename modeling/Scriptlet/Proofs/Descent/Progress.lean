import Scriptlet.Proofs.Descent.Grammar

/-!
# A descent moves forward and ends

From a place with fewer tokens ahead than its depth and its loops allow for, every reader ends: it consumes at least
one token or fails at a place that is not before where it began (`ReadsBelow`).  So a depth greater than the number
of tokens never runs out (`program_reads`, `wholeExpr_reads`).
-/

namespace Scriptlet

namespace Parse.Position

/-- The place `n` tokens further on. -/
def skip (p : Position) : Nat → Position
  | 0 => p
  | n + 1 => p.next.skip n

/-- `q` lies at least `k` tokens after `p`, and not after the end of the tokens. -/
def Reaches (k : Nat) (p q : Position) : Prop := ∃ n, k ≤ n ∧ n ≤ p.rest.length ∧ q = p.skip n

theorem rest_next (p : Position) : p.next.rest = p.rest.tail := by
  unfold next; split <;> simp_all

/-- The index counts the tokens that have been consumed. -/
theorem index_next {p : Position} (h : 0 < p.rest.length) : p.next.index = p.index + 1 := by
  unfold next; split <;> simp_all

theorem length_next (p : Position) : p.next.rest.length = p.rest.length - 1 := by
  rw [rest_next, List.length_tail]

/-- There is a token where one can be seen. -/
theorem length_pos_of_kind {p : Position} {k : TokenKind} (h : p.kind? = some k) : 0 < p.rest.length := by
  unfold kind? at h
  cases hr : p.rest with
  | nil => simp [hr] at h
  | cons t rest => simp

/-- There is a token where something is made of the next one. -/
theorem length_pos_of_read {α : Type} {f : Option TokenKind → Option α} {p : Position} {a : α} (h : f p.kind? = some a)
    (hnone : f none = none) : 0 < p.rest.length := by
  cases hk : p.kind? with
  | none =>
    rw [hk, hnone] at h
    cases h
  | some k => exact length_pos_of_kind hk

/-- Tokens may be skipped in two parts. -/
theorem skip_skip (p : Position) (m n : Nat) : (p.skip m).skip n = p.skip (m + n) := by
  induction m generalizing p with
  | zero => rw [Nat.zero_add]; rfl
  | succ m ih => rw [Nat.succ_add]; exact ih p.next

theorem rest_skip (p : Position) (n : Nat) : (p.skip n).rest = p.rest.drop n := by
  induction n generalizing p with
  | zero => rfl
  | succ n ih =>
    have h : (p.skip (n + 1)).rest = p.next.rest.drop n := ih p.next
    rw [h, rest_next, List.drop_tail]

/-- The last token before a place is the one before it in the list, if that place is not the first. -/
theorem last_skip {p : Position} {n : Nat} (h : n < p.rest.length) : (p.skip (n + 1)).last = p.rest[n].span := by
  induction n generalizing p with
  | zero =>
    obtain ⟨rest, i, last⟩ := p
    cases rest with
    | nil => simp at h
    | cons t rest => rfl
  | succ n ih =>
    have hn : n < p.next.rest.length := by rw [length_next]; omega
    have hl : (p.skip (n + 2)).last = p.next.rest[n].span := ih hn
    simp only [hl, rest_next, List.getElem_tail]

theorem length_skip (p : Position) (n : Nat) : (p.skip n).rest.length = p.rest.length - n := by
  rw [rest_skip, List.length_drop]

/-- As long as there are tokens ahead, each that is skipped counts. -/
theorem index_skip {p : Position} {n : Nat} (h : n ≤ p.rest.length) : (p.skip n).index = p.index + n := by
  induction n generalizing p with
  | zero => rfl
  | succ n ih =>
    have hn : n ≤ p.next.rest.length := by rw [length_next]; omega
    have h' : (p.skip (n + 1)).index = p.next.index + n := ih hn
    rw [h', index_next (by omega)]; omega

namespace Reaches

variable {p q r : Position} {j k : Nat}

theorem refl (p : Position) : p.Reaches 0 p := ⟨0, Nat.le_refl _, Nat.zero_le _, rfl⟩

/-- One token further on, if there is a token. -/
theorem next (h : 0 < p.rest.length) : p.Reaches 1 p.next := ⟨1, Nat.le_refl _, h, rfl⟩

private theorem mono (h : p.Reaches k q) (hj : j ≤ k) : p.Reaches j q := by
  obtain ⟨n, hn, hl, rfl⟩ := h
  exact ⟨n, by omega, hl, rfl⟩

/-- At the end of the tokens the next place is the same one. -/
theorem to_next (p : Position) : p.Reaches 0 p.next := by
  rcases Nat.eq_zero_or_pos p.rest.length with h | h
  · have hnext : p.next = p := by simp [Position.next, List.length_eq_zero_iff.1 h]
    rw [hnext]
    exact .refl p
  · exact (Position.Reaches.next h).mono (Nat.zero_le 1)

/-- The tokens between two places are no longer ahead. -/
theorem length (h : p.Reaches k q) : q.rest.length + k ≤ p.rest.length := by
  obtain ⟨n, hn, hl, rfl⟩ := h
  rw [length_skip]; omega

/-- The index of a place grows at least by the tokens before it. -/
theorem index (h : p.Reaches k q) : p.index + k ≤ q.index := by
  obtain ⟨n, hn, hl, rfl⟩ := h
  rw [index_skip hl]; omega

/-- Distances add up. -/
theorem trans (h : p.Reaches j q) (h' : q.Reaches k r) : p.Reaches (j + k) r := by
  obtain ⟨m, hm, hl, rfl⟩ := h
  obtain ⟨n, hn, hl', rfl⟩ := h'
  rw [length_skip] at hl'
  exact ⟨m + n, by omega, by omega, skip_skip p m n⟩

end Reaches

end Parse.Position

namespace Descent

open Parse
open Scriptlet.Parser (Level)

variable {α β : Type} {p : Position} {k n fuel : Nat}

/-- From `p` the reader ends.  If it succeeds it has consumed `k` tokens or more. -/
def Reads (k : Nat) (p : Position) (r : Descent α) : Prop :=
  match r p with
  | .ok _ q => p.Reaches k q
  | .error (.error _) q => p.Reaches 0 q
  | .error .exhausted _ => False

/-- From every place with fewer than `n` tokens ahead the reader ends, and consumes a token if it succeeds. -/
def ReadsBelow (n : Nat) (r : Descent α) : Prop := ∀ p : Position, p.rest.length < n → Reads 1 p r

theorem ReadsBelow.mono {r : Descent α} {m : Nat} (h : ReadsBelow n r) (hm : m ≤ n) : ReadsBelow m r :=
  fun p hp => h p (by omega)

/-! ### Sequences and choices -/

/-- An optional token is seen before it is consumed. -/
theorem take_bind (t : TokenKind) (f : Bool → Descent α) :
    (take t >>= f) = peekKind >>= fun x => if x == some t then advance >>= fun _ => f true else f false := by
  unfold take
  rw [bind_assoc]
  congr 1
  funext x
  cases x == some t <;> simp

namespace Reads

private theorem mono {r : Descent α} {j : Nat} (h : Reads k p r) (hj : j ≤ k) : Reads j p r := by
  unfold Reads at h ⊢
  split at h
  · exact h.mono hj
  · exact h
  · exact h

/-- A reader that succeeds is as far on as it reads. -/
theorem reaches {r : Descent α} {a : α} {q : Position} (h : Reads k p r) (hr : r p = .ok a q) : p.Reaches k q := by
  unfold Reads at h
  rw [hr] at h
  exact h

theorem pure (a : α) : Reads 0 p (Pure.pure a : Descent α) := Position.Reaches.refl p

private theorem bind_of_le {r : Descent α} {f : α → Descent β} {j m : Nat} (hr : Reads j p r)
    (hf : ∀ a q, r p = .ok a q → p.Reaches j q → Reads k q (f a)) (hm : m ≤ j + k) : Reads m p (r >>= f) := by
  unfold Reads at hr ⊢
  rw [show (r >>= f) p = _ from EStateM.run_bind r f]
  simp only [EStateM.run]
  cases hrp : r p with
  | ok a q =>
    rw [hrp] at hr
    have hfa := hf a q hrp hr
    unfold Reads at hfa
    simp only
    split at hfa
    · exact (hr.trans hfa).mono hm
    · exact (hr.trans hfa).mono (Nat.zero_le _)
    · exact hfa
  | error e q =>
    rw [hrp] at hr
    cases e with
    | error e => exact hr
    | exhausted => exact hr

/-- What comes first consumes the tokens. -/
private theorem bind {r : Descent α} {f : α → Descent β} (hr : Reads k p r)
    (hf : ∀ a q, r p = .ok a q → p.Reaches k q → Reads 0 q (f a)) : Reads k p (r >>= f) :=
  bind_of_le hr hf (Nat.le_refl _)

/-- A part after others may or may not consume tokens. -/
theorem after {r : Descent α} {f : α → Descent β} (hr : Reads k p r)
    (hf : ∀ a q, r p = .ok a q → p.Reaches k q → Reads 0 q (f a)) : Reads 0 p (r >>= f) :=
  bind_of_le hr hf (Nat.zero_le _)

private theorem unexpected (e : Expected) : Reads k p (Descent.unexpected e : Descent α) := Position.Reaches.refl p

private theorem outOfRange {f : α → Descent β} (text : String) : Reads k p (Descent.outOfRange text >>= f) :=
  Position.Reaches.refl p

private theorem unexpected_bind {f : α → Descent β} (e : Expected) : Reads k p (Descent.unexpected e >>= f) :=
  Position.Reaches.refl p

private theorem peek {f : Option TokenKind → Descent α} (h : Reads k p (f p.kind?)) : Reads k p (peekKind >>= f) := h

private theorem peekSecond {f : Option TokenKind → Descent α} (h : Reads k p (f p.next.kind?)) :
    Reads k p (Descent.peekSecond >>= f) := h

private theorem nextSpan {f : Span → Descent α} (h : Reads k p (f p.nextSpan)) : Reads k p (Descent.nextSpan >>= f) := h

theorem lastSpan {f : Span → Descent α} (h : Reads k p (f p.last)) : Reads k p (Descent.lastSpan >>= f) := h

theorem rounds {f : Nat → Descent α} (h : Reads k p (f (p.rest.length + 1))) : Reads k p (Descent.rounds >>= f) := h

/-- The next token is consumed, and may be all that is. -/
private theorem advance {f : Unit → Descent α} (hp : 0 < p.rest.length) (h : Reads 0 p.next (f ())) (hk : k ≤ 1) :
    Reads k p (Descent.advance >>= f) := by
  have ha : Reads 1 p Descent.advance := Position.Reaches.next hp
  refine (bind ha fun _ q hq _ => ?_).mono hk
  have hq' : p.next = q := by injection hq
  exact hq' ▸ h

private theorem take {t : TokenKind} {f : Bool → Descent α} (hk : k ≤ 1)
    (htrue : p.kind? = some t → Reads 0 p.next (f true)) (hfalse : Reads k p (f false)) :
    Reads k p (Descent.take t >>= f) := by
  rw [take_bind]
  apply peek
  by_cases h : p.kind? = some t
  · rw [if_pos (by simp [h])]
    exact advance (Position.length_pos_of_kind h) (htrue h) hk
  · rw [if_neg (by simpa using h)]
    exact hfalse

private theorem intValue {negative : Bool} {text : String} {f : Int → Descent α} (h : ∀ v, Reads k p (f v)) :
    Reads k p (Descent.intValue negative text >>= f) := by
  unfold Descent.intValue
  split
  · exact h _
  · exact outOfRange text

private theorem doubleValue {text : String} {f : Double → Descent α} (h : ∀ v, Reads k p (f v)) :
    Reads k p (Descent.doubleValue text >>= f) := by
  unfold Descent.doubleValue
  split
  · exact h _
  · exact outOfRange text

end Reads

/-! ### Tokens and leaves -/

theorem symbol_reads (s : Symbol) (p : Position) : Reads 1 p (symbol s) := by
  refine Reads.take (Nat.le_refl _) (fun _ => ?_) ?_
  · exact Position.Reaches.refl _
  · exact Reads.unexpected _

theorem keyword_reads (w : Keyword) (p : Position) : Reads 1 p (keyword w) := by
  refine Reads.take (Nat.le_refl _) (fun _ => ?_) ?_
  · exact Position.Reaches.refl _
  · exact Reads.unexpected _

theorem ident_reads (p : Position) : Reads 1 p ident := by
  apply Reads.peek
  split
  · next name h =>
    apply Reads.nextSpan
    exact Reads.advance (Position.length_pos_of_kind h) (Reads.pure _) (Nat.le_refl _)
  · exact Reads.unexpected _

/-! ### Looking ahead -/

/-- After a part that succeeds the rest goes on where the part ended. -/
theorem bind_of_ok {r : Descent α} {f : α → Descent β} {a : α} {q : Position} (h : r p = .ok a q) :
    (r >>= f) p = f a q := by
  rw [show (r >>= f) p = _ from EStateM.run_bind r f]
  simp only [EStateM.run, h]

/-- A sequence fails with its first part, and stays where that part failed. -/
theorem bind_of_error {r : Descent α} {f : α → Descent β} {e : Stop} {q : Position} (h : r p = .error e q) :
    (r >>= f) p = .error e q := by
  rw [show (r >>= f) p = _ from EStateM.run_bind r f]
  simp only [EStateM.run, h]

/-- A sequence succeeds if both parts do. -/
theorem exists_of_bind_ok {r : Descent α} {f : α → Descent β} {q : Position} {b : β}
    (h : (r >>= f) p = .ok b q) : ∃ a q', r p = .ok a q' ∧ f a q' = .ok b q := by
  cases hr : r p with
  | ok a q' =>
    rw [bind_of_ok hr] at h
    exact ⟨a, q', rfl, h⟩
  | error e q' =>
    rw [bind_of_error hr] at h
    cases h

theorem peekKind_bind (f : Option TokenKind → Descent α) (p : Position) : (peekKind >>= f) p = f p.kind? p := rfl

theorem ident_of_kind {name : String} (h : p.kind? = some (.identifier name)) :
    ident p = .ok ⟨name, p.nextSpan⟩ p.next := by
  unfold ident
  rw [peekKind_bind, h]
  rfl

theorem take_of_kind {t : TokenKind} (h : p.kind? = some t) : take t p = .ok true p.next := by
  unfold take
  rw [peekKind_bind, if_pos (by simp [h])]
  rfl

theorem take_of_ne {t : TokenKind} (h : p.kind? ≠ some t) : take t p = .ok false p := by
  unfold take
  rw [peekKind_bind, if_neg (by simpa using h)]
  rfl

private theorem symbol_of_kind {t : Symbol} (h : p.kind? = some (.symbol t)) : symbol t p = .ok p.next.last p.next := by
  unfold symbol
  rw [bind_of_ok (take_of_kind h)]
  rfl

/-- A symbol that does not come next is missing where the reader stands. -/
theorem symbol_of_ne {t : Symbol} (h : p.kind? ≠ some (.symbol t)) :
    symbol t p = .error (.error (p.unexpected (.symbol t))) p := by
  unfold symbol
  rw [bind_of_ok (take_of_ne h)]
  rfl

/-- What fails after a name and a symbol that stand here fails after them. -/
theorem index_of_error {name : String} {t : Symbol} {f : Ident → Span → Descent α} {e : Located ParseError}
    {q : Position} (h : p.kind? = some (.identifier name)) (ht : p.next.kind? = some (.symbol t))
    (hf : ∀ i l, Reads 0 p.next.next (f i l))
    (he : (ident >>= fun i => symbol t >>= fun l => f i l) p = .error (.error e) q) : p.next.index < q.index := by
  rw [bind_of_ok (ident_of_kind h), bind_of_ok (symbol_of_kind ht)] at he
  have hr := hf ⟨name, p.nextSpan⟩ p.next.next.last
  unfold Reads at hr
  rw [he] at hr
  have hn := (Position.Reaches.next (Position.length_pos_of_kind ht)).index
  have hi := hr.index
  omega

/-! ### Combinations -/

theorem spanned_reads {r : Descent (Span → α)} (h : Reads k p r) : Reads k p (spanned r) := by
  apply Reads.nextSpan
  refine Reads.bind h fun build q _ _ => ?_
  exact Reads.lastSpan (Reads.pure _)

theorem separator_reads (p : Position) : Reads 0 p separator := by
  refine Reads.take (by omega) (fun _ => Reads.pure _) ?_
  apply Reads.peek
  split
  · exact Reads.pure _
  · exact Reads.unexpected _

/-- A list ends, since each of its items consumes a token and there is fuel for all of them. -/
theorem items_reads {item : Descent α} (h : ReadsBelow n item) :
    ∀ fuel (p : Position), p.rest.length < fuel → p.rest.length < n → Reads 0 p (items item fuel) := by
  intro fuel
  induction fuel with
  | zero => intro p hp; omega
  | succ fuel ih =>
    intro p hf hn
    refine Reads.take (by omega) (fun _ => Reads.pure _) ?_
    apply Reads.peek
    split
    · exact Reads.unexpected _
    · refine Reads.after (h p hn) fun x q _ hq => ?_
      have hl := hq.length
      refine Reads.after (separator_reads q) fun _ r _ hr => ?_
      have hl' := hr.length
      exact Reads.after (ih r (by omega) (by omega)) fun xs s _ _ => Reads.pure _

/-- A list ends with one token more ahead than its items allow for, since these come after the parenthesis. -/
theorem list_reads {item : Descent α} (h : ReadsBelow n item) : ReadsBelow (n + 1) (list item) := by
  intro p hp
  refine Reads.bind (symbol_reads _ p) fun _ q _ hq => ?_
  have hl := hq.length
  exact Reads.rounds (items_reads h _ q (by omega) (by omega))

/-! ### Expressions -/

private theorem leftAssocFrom_reads (ops : Level) {operand : Descent Expr} (h : ReadsBelow n operand) :
    ∀ fuel (p : Position) lhs, p.rest.length < fuel → p.rest.length < n →
      Reads 0 p (leftAssocFrom ops operand fuel lhs) := by
  intro fuel
  induction fuel with
  | zero => intro p lhs hp; omega
  | succ fuel ih =>
    intro p lhs hf hn
    apply Reads.peek
    split
    · exact Reads.pure _
    · next op hop =>
      have hp : 0 < p.rest.length := Position.length_pos_of_read hop rfl
      refine Reads.advance hp ?_ (by omega)
      have hl := p.length_next
      refine Reads.after (h _ (by omega)) fun rhs q _ hq => ?_
      have hl' := hq.length
      exact ih q _ (by omega) (by omega)

/-- A level of precedence ends where its operands do, as each operator is a token. -/
theorem leftAssoc_reads (ops : Level) {operand : Descent Expr} (h : ReadsBelow n operand) :
    ReadsBelow n (leftAssoc ops operand) := by
  intro p hp
  refine Reads.bind (h p hp) fun lhs q _ hq => ?_
  have hl := hq.length
  exact Reads.rounds (leftAssocFrom_reads ops h _ q lhs (by omega) (by omega))

private theorem powerFrom_reads {operand : Descent Expr} (h : ReadsBelow n operand) :
    ∀ fuel (p : Position), p.rest.length < fuel → p.rest.length < n → Reads 1 p (powerFrom operand fuel) := by
  intro fuel
  induction fuel with
  | zero => intro p hp; omega
  | succ fuel ih =>
    intro p hf hn
    refine Reads.bind (h p hn) fun lhs q _ hq => ?_
    have hl := hq.length
    refine Reads.take (by omega) (fun _ => ?_) (Reads.pure _)
    have hl' := q.length_next
    exact Reads.after (ih q.next (by omega) (by omega)) fun rhs r _ _ => Reads.pure _

private theorem unaryFrom_reads {operand : Descent Expr} (h : ReadsBelow n operand) :
    ∀ fuel (p : Position), p.rest.length < fuel → p.rest.length < n → Reads 1 p (unaryFrom operand fuel) := by
  intro fuel
  induction fuel with
  | zero => intro p hp; omega
  | succ fuel ih =>
    intro p hf hn
    apply Reads.peek
    split
    · exact h p hn
    · next op hop =>
      have hp : 0 < p.rest.length := Position.length_pos_of_read hop rfl
      have hl := p.length_next
      apply Reads.nextSpan
      refine Reads.advance hp ?_ (Nat.le_refl _)
      exact Reads.after (ih p.next (by omega) (by omega)) fun e q _ _ => Reads.pure _

private theorem callExpr_reads {inner : Descent Expr} (h : ReadsBelow n inner) :
    ReadsBelow (n + 1) (callExpr inner) := by
  intro p hp
  refine Reads.bind (ident_reads p) fun callee q _ hq => ?_
  have hl := hq.length
  refine Reads.after (list_reads h q (by omega)) fun args r _ _ => ?_
  exact Reads.lastSpan (Reads.pure _)

private theorem nameExpr_reads (p : Position) : Reads 1 p nameExpr :=
  Reads.bind (ident_reads p) fun _ _ _ _ => Reads.pure _

private theorem literal_reads (value : Literal) (hp : 0 < p.rest.length) : Reads 1 p (literal value) := by
  apply Reads.nextSpan
  exact Reads.advance hp (Reads.pure _) (Nat.le_refl _)

private theorem inputCall_reads {inner : Descent Expr} (h : ReadsBelow n inner) (hp : 0 < p.rest.length)
    (hn : p.rest.length < n + 1) : Reads 1 p (inputCall inner) := by
  have hl := p.length_next
  apply Reads.nextSpan
  refine Reads.advance hp ?_ (Nat.le_refl _)
  refine Reads.after (list_reads h p.next (by omega)) fun args q _ _ => ?_
  exact Reads.lastSpan (Reads.pure _)

private theorem parenthesized_reads {inner : Descent Expr} (h : ReadsBelow n inner) (hp : 0 < p.rest.length)
    (hn : p.rest.length < n + 1) : Reads 1 p (parenthesized inner) := by
  have hl := p.length_next
  apply Reads.nextSpan
  refine Reads.advance hp ?_ (Nat.le_refl _)
  refine Reads.after (h p.next (by omega)) fun e q _ _ => ?_
  exact Reads.after (symbol_reads _ q) fun _ _ _ _ => Reads.pure _

private theorem primary_reads {inner : Descent Expr} (h : ReadsBelow n inner) : ReadsBelow (n + 1) (primary inner) := by
  intro p hp
  apply Reads.peek
  split
  · next hk => exact Reads.intValue fun v => literal_reads _ (Position.length_pos_of_kind hk)
  · next hk => exact Reads.doubleValue fun v => literal_reads _ (Position.length_pos_of_kind hk)
  · next hk => exact literal_reads _ (Position.length_pos_of_kind hk)
  · next hk => exact literal_reads _ (Position.length_pos_of_kind hk)
  · next hk => exact literal_reads _ (Position.length_pos_of_kind hk)
  · next hk => exact inputCall_reads h (Position.length_pos_of_kind hk) hp
  · next hk => exact parenthesized_reads h (Position.length_pos_of_kind hk) hp
  · apply Reads.peekSecond
    split
    · exact callExpr_reads h p hp
    · exact nameExpr_reads p
  · exact Reads.unexpected _

theorem unary_reads {inner : Descent Expr} (h : ReadsBelow n inner) : ReadsBelow (n + 1) (unary inner) :=
  fun p hp => Reads.rounds (unaryFrom_reads (primary_reads h) _ p (by omega) hp)

theorem power_reads {inner : Descent Expr} (h : ReadsBelow n inner) : ReadsBelow (n + 1) (power inner) :=
  fun p hp => Reads.rounds (powerFrom_reads (unary_reads h) _ p (by omega) hp)

private theorem logic_reads {inner : Descent Expr} (h : ReadsBelow n inner) : ReadsBelow (n + 1) (logic inner) :=
  leftAssoc_reads _ (leftAssoc_reads _ (leftAssoc_reads _ (leftAssoc_reads _ (power_reads h))))

/-- Expressions inside an expression come after a token, so that a depth greater than the number of tokens ahead is
enough. -/
theorem expr_reads (depth : Nat) : ReadsBelow depth (expr depth) := by
  induction depth with
  | zero => intro p hp; omega
  | succ depth ih => exact logic_reads ih

/-! ### Parts of statements -/

private theorem typeName_reads (p : Position) : Reads 1 p typeName := by
  apply Reads.peek
  split
  · next ty hty =>
    have hp : 0 < p.rest.length := Position.length_pos_of_read hty rfl
    apply Reads.nextSpan
    exact Reads.advance hp (Reads.pure _) (Nat.le_refl _)
  · exact Reads.unexpected _

theorem typeAfter_reads (s : Symbol) (p : Position) : Reads 0 p (typeAfter s) := by
  refine Reads.take (by omega) (fun _ => ?_) (Reads.pure _)
  exact Reads.after (typeName_reads _) fun _ _ _ _ => Reads.pure _

theorem param_reads (p : Position) : Reads 1 p param := by
  refine Reads.bind (ident_reads p) fun name q _ _ => ?_
  refine Reads.after (symbol_reads _ q) fun _ r _ _ => ?_
  exact Reads.after (typeName_reads r) fun _ _ _ _ => Reads.pure _

private theorem intConst_reads (p : Position) : Reads 1 p intConst := by
  refine Reads.take (Nat.le_refl _) (fun _ => Reads.mono (k := 1) ?_ (Nat.zero_le _)) ?_
  all_goals
    apply Reads.peek
    split
    · next hk =>
      exact Reads.intValue fun v => Reads.advance (Position.length_pos_of_kind hk) (Reads.pure _) (Nat.le_refl _)
    · exact Reads.unexpected _

private theorem constValue_bind_reads {negative : Bool} {f : Literal → Descent α}
    (h : 0 < p.rest.length → ∀ v, Reads k p (f v)) : Reads k p (constValue negative >>= f) := by
  unfold constValue
  rw [bind_assoc]
  apply Reads.peek
  split
  · next hk =>
    rw [bind_assoc]
    exact Reads.intValue fun v => h (Position.length_pos_of_kind hk) _
  · next hk =>
    rw [bind_assoc]
    exact Reads.doubleValue fun v => h (Position.length_pos_of_kind hk) _
  · next hk => exact h (Position.length_pos_of_kind hk) _
  · next hk => exact h (Position.length_pos_of_kind hk) _
  · next hk => exact h (Position.length_pos_of_kind hk) _
  · exact Reads.unexpected_bind _

theorem const_reads (p : Position) : Reads 1 p const := by
  apply spanned_reads
  refine Reads.take (Nat.le_refl _) (fun _ => Reads.mono (k := 1) ?_ (Nat.zero_le _)) ?_
  all_goals exact constValue_bind_reads fun hp v => Reads.advance hp (Reads.pure _) (Nat.le_refl _)

private theorem constsFrom_reads : ∀ fuel (p : Position), p.rest.length < fuel → Reads 0 p (constsFrom fuel) := by
  intro fuel
  induction fuel with
  | zero => intro p hp; omega
  | succ fuel ih =>
    intro p hf
    refine Reads.take (by omega) (fun hk => ?_) (Reads.pure _)
    have hp := Position.length_pos_of_kind hk
    have hl := p.length_next
    refine Reads.after (const_reads p.next) fun c q _ hq => ?_
    have hl' := hq.length
    exact Reads.after (ih q (by omega)) fun _ _ _ _ => Reads.pure _

private theorem caseRange_reads (p : Position) : Reads 1 p caseRange := by
  refine Reads.bind (keyword_reads _ p) fun _ q₁ _ _ => ?_
  refine Reads.after (symbol_reads _ q₁) fun _ q₂ _ _ => ?_
  refine Reads.after (intConst_reads q₂) fun lo q₃ _ _ => ?_
  refine Reads.after (symbol_reads _ q₃) fun _ q₄ _ _ => ?_
  refine Reads.after (intConst_reads q₄) fun hi q₅ _ _ => ?_
  exact Reads.after (symbol_reads _ q₅) fun _ _ _ _ => Reads.pure _

theorem comparator_reads (p : Position) : Reads 1 p comparator := by
  apply Reads.peek
  split
  · exact spanned_reads (caseRange_reads p)
  · refine Reads.bind (const_reads p) fun first q _ _ => ?_
    apply Reads.rounds
    refine Reads.after (constsFrom_reads _ q (by omega)) fun others r _ _ => ?_
    split
    · exact Reads.pure _
    · exact Reads.pure _

private theorem forRange_reads (p : Position) : Reads 1 p forRange := by
  refine Reads.bind (keyword_reads _ p) fun _ q₁ _ _ => ?_
  refine Reads.after (symbol_reads _ q₁) fun _ q₂ _ _ => ?_
  refine Reads.after (intConst_reads q₂) fun first q₃ _ _ => ?_
  refine Reads.after (symbol_reads _ q₃) fun _ q₄ _ _ => ?_
  refine Reads.after (intConst_reads q₄) fun last q₅ _ _ => ?_
  refine Reads.after (symbol_reads _ q₅) fun _ q₆ _ _ => ?_
  refine Reads.after (intConst_reads q₆) fun step q₇ _ _ => ?_
  exact Reads.after (symbol_reads _ q₇) fun _ _ _ _ => Reads.pure _

/-! ### Statements -/

section Statements

variable {e : Descent Expr} {b : Descent Block}

theorem iterable_reads (he : ReadsBelow n e) : ReadsBelow n (iterable e) := by
  intro p hp
  apply Reads.peek
  split
  · exact spanned_reads (forRange_reads p)
  · exact Reads.bind (he p hp) fun _ _ _ _ => Reads.pure _

private theorem decl_reads (he : ReadsBelow n e) (w : Keyword) : ReadsBelow n (decl e w) := by
  intro p hp
  refine Reads.bind (keyword_reads _ p) fun _ q₁ _ h₁ => ?_
  refine Reads.after (ident_reads q₁) fun name q₂ _ h₂ => ?_
  refine Reads.after (typeAfter_reads _ q₂) fun type q₃ _ h₃ => ?_
  refine Reads.after (symbol_reads _ q₃) fun _ q₄ _ h₄ => ?_
  have hl := (((h₁.trans h₂).trans h₃).trans h₄).length
  refine Reads.after (he q₄ (by omega)) fun value q₅ _ _ => ?_
  exact Reads.after (symbol_reads _ q₅) fun _ _ _ _ => Reads.pure _

private theorem printStmt_reads (he : ReadsBelow n e) : ReadsBelow n (printStmt e) := by
  intro p hp
  refine Reads.bind (keyword_reads _ p) fun _ q₁ _ h₁ => ?_
  have hl := h₁.length
  refine Reads.after (list_reads he q₁ (by omega)) fun args q₂ _ _ => ?_
  exact Reads.after (symbol_reads _ q₂) fun _ _ _ _ => Reads.pure _

private theorem returnStmt_reads (he : ReadsBelow n e) : ReadsBelow n (returnStmt e) := by
  intro p hp
  refine Reads.bind (keyword_reads _ p) fun _ q₁ _ h₁ => ?_
  have hl := h₁.length
  refine Reads.take (by omega) (fun _ => Reads.pure _) ?_
  refine Reads.after (he q₁ (by omega)) fun value q₂ _ _ => ?_
  exact Reads.after (symbol_reads _ q₂) fun _ _ _ _ => Reads.pure _

private theorem assignStmt_reads (he : ReadsBelow n e) : ReadsBelow n (assignStmt e) := by
  intro p hp
  refine Reads.bind (ident_reads p) fun target q₁ _ h₁ => ?_
  refine Reads.after (symbol_reads _ q₁) fun _ q₂ _ h₂ => ?_
  have hl := (h₁.trans h₂).length
  refine Reads.after (he q₂ (by omega)) fun value q₃ _ _ => ?_
  exact Reads.after (symbol_reads _ q₃) fun _ _ _ _ => Reads.pure _

private theorem callStmt_reads (he : ReadsBelow n e) : ReadsBelow n (callStmt e) := by
  intro p hp
  refine Reads.bind (ident_reads p) fun callee q₁ _ h₁ => ?_
  have hl := h₁.length
  refine Reads.after (list_reads he q₁ (by omega)) fun args q₂ _ _ => ?_
  exact Reads.after (symbol_reads _ q₂) fun _ _ _ _ => Reads.pure _

private theorem letItem_reads (he : ReadsBelow n e) : ReadsBelow n (letItem e) :=
  fun p hp => Reads.bind (decl_reads he _ p hp) fun _ _ _ _ => Reads.pure _

private theorem forStmt_reads (he : ReadsBelow n e) (hb : ReadsBelow n b) : ReadsBelow n (forStmt e b) := by
  intro p hp
  refine Reads.bind (keyword_reads _ p) fun _ q₁ _ h₁ => ?_
  refine Reads.after (ident_reads q₁) fun var q₂ _ h₂ => ?_
  refine Reads.after (keyword_reads _ q₂) fun _ q₃ _ h₃ => ?_
  have hl := ((h₁.trans h₂).trans h₃).length
  refine Reads.after (iterable_reads he q₃ (by omega)) fun it q₄ _ h₄ => ?_
  have hl' := h₄.length
  exact Reads.after (hb q₄ (by omega)) fun _ _ _ _ => Reads.pure _

private theorem whileStmt_reads (he : ReadsBelow n e) (hb : ReadsBelow n b) : ReadsBelow n (whileStmt e b) := by
  intro p hp
  refine Reads.bind (keyword_reads _ p) fun _ q₁ _ h₁ => ?_
  have hl := h₁.length
  refine Reads.after (he q₁ (by omega)) fun cond q₂ _ h₂ => ?_
  have hl' := h₂.length
  exact Reads.after (hb q₂ (by omega)) fun _ _ _ _ => Reads.pure _

private theorem ifFrom_reads (he : ReadsBelow n e) (hb : ReadsBelow n b) :
    ∀ fuel (p : Position), p.rest.length < fuel → p.rest.length < n → Reads 1 p (ifFrom e b fuel) := by
  intro fuel
  induction fuel with
  | zero => intro p hp; omega
  | succ fuel ih =>
    intro p hf hn
    refine Reads.bind (keyword_reads _ p) fun _ q₁ _ h₁ => ?_
    have hl₁ := h₁.length
    refine Reads.after (he q₁ (by omega)) fun cond q₂ _ h₂ => ?_
    have hl₂ := h₂.length
    refine Reads.after (hb q₂ (by omega)) fun thenBlock q₃ _ h₃ => ?_
    have hl₃ := h₃.length
    refine Reads.take (by omega) (fun _ => ?_) (Reads.pure _)
    have hl₄ := q₃.length_next
    apply Reads.peek
    split
    · have hi := ih q₃.next (by omega) (by omega)
      exact Reads.after (spanned_reads hi) fun _ _ _ _ => Reads.pure _
    · exact Reads.after (hb q₃.next (by omega)) fun _ _ _ _ => Reads.pure _

theorem caseClause_reads (hb : ReadsBelow n b) : ReadsBelow n (caseClause b) := by
  intro p hp
  have hl := p.length_next
  refine Reads.take (Nat.le_refl _) (fun _ => ?_) ?_
  · refine Reads.after (comparator_reads p.next) fun c q _ h => ?_
    have hl' := h.length
    exact Reads.after (hb q (by omega)) fun _ _ _ _ => Reads.pure _
  · refine Reads.take (Nat.le_refl _) (fun _ => ?_) (Reads.unexpected _)
    exact Reads.after (hb p.next (by omega)) fun _ _ _ _ => Reads.pure _

private theorem casesFrom_reads (hb : ReadsBelow n b) :
    ∀ fuel (p : Position), p.rest.length < fuel → p.rest.length < n → Reads 0 p (casesFrom b fuel) := by
  intro fuel
  induction fuel with
  | zero => intro p hp; omega
  | succ fuel ih =>
    intro p hf hn
    refine Reads.take (by omega) (fun _ => Reads.pure _) ?_
    refine Reads.after (spanned_reads (caseClause_reads hb p hn)) fun c q _ hq => ?_
    have hl := hq.length
    exact Reads.after (ih q (by omega) (by omega)) fun _ _ _ _ => Reads.pure _

private theorem switchStmt_reads (he : ReadsBelow n e) (hb : ReadsBelow n b) : ReadsBelow n (switchStmt e b) := by
  intro p hp
  refine Reads.bind (keyword_reads _ p) fun _ q₁ _ h₁ => ?_
  have hl₁ := h₁.length
  refine Reads.after (he q₁ (by omega)) fun subject q₂ _ h₂ => ?_
  refine Reads.after (symbol_reads _ q₂) fun _ q₃ _ h₃ => ?_
  have hl₂ := (h₂.trans h₃).length
  apply Reads.rounds
  exact Reads.after (casesFrom_reads hb _ q₃ (by omega) (by omega)) fun _ _ _ _ => Reads.pure _

theorem stmt_reads (he : ReadsBelow n e) (hb : ReadsBelow n b) : ReadsBelow n (stmt e b) := by
  intro p hp
  apply Reads.peek
  split
  · exact Reads.bind (letItem_reads he p hp) fun _ _ _ _ => Reads.pure _
  · exact Reads.bind (decl_reads he _ p hp) fun _ _ _ _ => Reads.pure _
  · exact printStmt_reads he p hp
  · exact returnStmt_reads he p hp
  · exact forStmt_reads he hb p hp
  · exact whileStmt_reads he hb p hp
  · exact Reads.rounds (ifFrom_reads he hb _ p (by omega) hp)
  · exact switchStmt_reads he hb p hp
  · apply Reads.peekSecond
    split
    · exact assignStmt_reads he p hp
    · exact callStmt_reads he p hp
  · exact Reads.unexpected _

private theorem stmtsFrom_reads {s : Descent Stmt} (hs : ReadsBelow n s) :
    ∀ fuel (p : Position), p.rest.length < fuel → p.rest.length < n → Reads 0 p (stmtsFrom s fuel) := by
  intro fuel
  induction fuel with
  | zero => intro p hp; omega
  | succ fuel ih =>
    intro p hf hn
    apply Reads.peek
    split
    · exact Reads.pure _
    · refine Reads.after (hs p hn) fun x q _ hq => ?_
      have hl := hq.length
      exact Reads.after (ih q (by omega) (by omega)) fun _ _ _ _ => Reads.pure _

/-- Blocks inside a block come after its brace, so that a depth greater than the number of tokens ahead is enough. -/
theorem block_reads (he : ReadsBelow n e) : ∀ depth, depth ≤ n → ReadsBelow depth (block e depth) := by
  intro depth
  induction depth with
  | zero => intro _ p hp; omega
  | succ depth ih =>
    intro hd p hp
    have hs : ReadsBelow depth (spanned (stmt e (block e depth))) := fun q hq =>
      spanned_reads (stmt_reads (he.mono (by omega)) (ih (by omega)) q hq)
    refine Reads.bind (symbol_reads _ p) fun opening q₁ _ h₁ => ?_
    have hl := h₁.length
    apply Reads.rounds
    refine Reads.after (stmtsFrom_reads hs _ q₁ (by omega) (by omega)) fun stmts q₂ _ _ => ?_
    exact Reads.after (symbol_reads _ q₂) fun _ _ _ _ => Reads.pure _

/-! ### Programs -/

private theorem func_reads (hb : ReadsBelow n b) : ReadsBelow n (func b) := by
  intro p hp
  refine Reads.bind (keyword_reads _ p) fun _ q₁ _ h₁ => ?_
  refine Reads.after (ident_reads q₁) fun name q₂ _ h₂ => ?_
  have hparam : ReadsBelow n param := fun q _ => param_reads q
  have hl := (h₁.trans h₂).length
  refine Reads.after (list_reads hparam q₂ (by omega)) fun params q₃ _ h₃ => ?_
  refine Reads.after (typeAfter_reads _ q₃) fun result q₄ _ h₄ => ?_
  have hl' := (h₃.trans h₄).length
  exact Reads.after (hb q₄ (by omega)) fun _ _ _ _ => Reads.pure _

/-- Items end where the expressions and blocks in them do. -/
theorem item_reads (he : ReadsBelow n e) (hb : ReadsBelow n b) : ReadsBelow n (item e b) := by
  intro p hp
  apply Reads.peek
  split
  · exact letItem_reads he p hp
  · exact func_reads hb p hp
  · exact Reads.unexpected _

private theorem itemsToEnd_reads {i : Descent Item} (hi : ReadsBelow n i) :
    ∀ fuel (p : Position), p.rest.length < fuel → p.rest.length < n → Reads 0 p (itemsToEnd i fuel) := by
  intro fuel
  induction fuel with
  | zero => intro p hp; omega
  | succ fuel ih =>
    intro p hf hn
    apply Reads.peek
    split
    · exact Reads.pure _
    · refine Reads.after (hi p hn) fun x q _ hq => ?_
      have hl := hq.length
      exact Reads.after (ih q (by omega) (by omega)) fun _ _ _ _ => Reads.pure _

end Statements

/-- A depth greater than the number of tokens ahead is enough for a program. -/
theorem program_reads {depth : Nat} (h : p.rest.length < depth) : Reads 0 p (program depth) := by
  have hi : ReadsBelow depth (spanned (item (expr depth) (block (expr depth) depth))) := fun q hq =>
    spanned_reads (item_reads (expr_reads depth) (block_reads (expr_reads depth) depth (Nat.le_refl _)) q hq)
  apply Reads.rounds
  exact Reads.after (itemsToEnd_reads hi _ p (by omega) h) fun _ _ _ _ => Reads.pure _

/-- A depth greater than the number of tokens ahead is enough for an expression. -/
theorem wholeExpr_reads {depth : Nat} (h : p.rest.length < depth) : Reads 1 p (wholeExpr depth) := by
  refine Reads.bind (expr_reads depth p h) fun e q _ _ => ?_
  apply Reads.peek
  split
  · exact Reads.pure _
  · exact Reads.unexpected _

end Descent

end Scriptlet
