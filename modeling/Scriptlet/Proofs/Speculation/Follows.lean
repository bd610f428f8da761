import Scriptlet.Proofs.Speculation.Ranking

/-!
# A parser that follows a descent

`Follows` relates a parser with checkpoints to a descent without them: where the descent succeeds so does the parser,
with the same value at the same place, and where the descent fails the parser either fails with the same error at the
same place or is lost to that error.  A lost parser may go on for a while.  It then stands before a token at which
everything that comes next gives up (`Stalls`): after a name that was read because the call of it failed, that is the
opening parenthesis (`AtParen`).
-/

namespace Scriptlet.Parser

variable {α β : Type} {s : Parse.State}

/-- An optional symbol is seen before it is consumed. -/
theorem take_bind (t : Symbol) (f : Bool → Parser α) : (take t >>= f) =
    atSymbol t >>= fun b => if b then advance >>= fun _ => f true else f false := by
  unfold take
  rw [bind_assoc]
  congr 1
  funext b
  cases b <;> simp

/-- An optional keyword is seen before it is consumed. -/
theorem takeKeyword_bind (w : Keyword) (f : Bool → Parser α) : (takeKeyword w >>= f) =
    atKeyword w >>= fun b => if b then advance >>= fun _ => f true else f false := by
  unfold takeKeyword
  rw [bind_assoc]
  congr 1
  funext b
  cases b <;> simp

/-- After a part that succeeds the rest goes on in the state that the part ended in. -/
theorem bind_of_ok {x : Parser α} {f : α → Parser β} {a : α} {t : Parse.State} (h : x s = .ok a t) :
    (x >>= f) s = f a t := by
  rw [show (x >>= f) s = _ from EStateM.run_bind x f]
  simp only [EStateM.run, h]

/-- A sequence fails with its first part, in the state where that part failed. -/
theorem bind_of_error {x : Parser α} {f : α → Parser β} {e : Parse.Stop} {t : Parse.State} (h : x s = .error e t) :
    (x >>= f) s = .error e t := by
  rw [show (x >>= f) s = _ from EStateM.run_bind x f]
  simp only [EStateM.run, h]

/-- A parser of two parts succeeds if both do. -/
theorem exists_of_bind_ok {x : Parser α} {f : α → Parser β} {t : Parse.State} {b : β} (h : (x >>= f) s = .ok b t) :
    ∃ a u, x s = .ok a u ∧ f a u = .ok b t := by
  cases hx : x s with
  | ok a u =>
    rw [bind_of_ok hx] at h
    exact ⟨a, u, rfl, h⟩
  | error e u =>
    rw [bind_of_error hx] at h
    cases h

theorem peekKind_bind (f : Option TokenKind → Parser α) (s : Parse.State) :
    (peekKind >>= f) s = f s.position.kind? s := rfl

theorem ident_of_kind {name : String} (h : s.position.kind? = some (.identifier name)) :
    ident s = .ok ⟨name, s.position.nextSpan⟩ s.advance := by
  unfold ident
  rw [peekKind_bind, h]
  rfl

/-- A name alone is an expression. -/
theorem nameExpr_of_kind {name : String} (h : s.position.kind? = some (.identifier name)) :
    nameExpr s = .ok (.name name s.position.nextSpan) (s.log (.enter .nameExpr)).advance := by
  have hi := ident_of_kind (s := s.log (.enter .nameExpr)) h
  exact (bind_of_ok hi).trans rfl

private theorem symbol_of_ne {t : Symbol} (h : s.position.kind? ≠ some (.symbol t)) :
    symbol t s = .error (.error (s.unexpected (.symbol t))) s := by
  have ht : take t s = .ok false s := by
    unfold take atSymbol
    rw [bind_assoc, peekKind_bind, pure_bind, if_neg (by simpa using h)]
    rfl
  exact (bind_of_ok ht).trans rfl

/-- A call as a statement goes on with its arguments after the name. -/
theorem callStmt_of_kind {name : String} {e : Parser Expr} (h : s.position.kind? = some (.identifier name)) :
    callStmt e s = (do
      let args ← list e
      let _ ← symbol .semicolon
      return Stmt.call ⟨name, s.position.nextSpan⟩ args) (s.log (.enter .callStmt)).advance := by
  have hi := ident_of_kind (s := s.log (.enter .callStmt)) h
  exact bind_of_ok hi

/-- A call as a statement fails after the name where no parenthesis stands. -/
theorem callStmt_of_ne {name : String} {e : Parser Expr} (h : s.position.kind? = some (.identifier name))
    (hp : s.position.next.kind? ≠ some (.symbol .lparen)) :
    ∃ stop, callStmt e s = .error (.error stop) (s.log (.enter .callStmt)).advance := by
  have hs : (s.log (.enter .callStmt)).advance.position.kind? ≠ some (.symbol .lparen) := by
    rw [Parse.State.position_advance]
    exact hp
  have hl : list e (s.log (.enter .callStmt)).advance = _ := bind_of_error (symbol_of_ne hs)
  exact ⟨_, (callStmt_of_kind h).trans (bind_of_error hl)⟩

end Scriptlet.Parser

namespace Scriptlet.Parse

open Parse.State Descent

variable {α β : Type} {marks : List Position} {R R' : State → Prop} {s : State} {k : Nat}

/-- The outcome of a parser beside that of a descent.  `R` holds where the parser goes on in a lost state. -/
inductive Matches (marks : List Position) (R : State → Prop) :
    EStateM.Result Stop State α → EStateM.Result Stop Position α → Prop where
  | ok {a : α} {s : State} (h : s.Settled marks) : Matches marks R (.ok a s) (.ok a s.position)
  | error {e : Located ParseError} {s : State} (h : s.Settled marks) :
    Matches marks R (.error (.error e) s) (.error (.error e) s.position)
  | lost {e e' : Located ParseError} {s : State} {p : Position} (h : s.Lost marks e p.index) :
    Matches marks R (.error (.error e') s) (.error (.error e) p)
  | stalled {a : α} {e : Located ParseError} {s : State} {p : Position} (h : s.Lost marks e p.index) (hR : R s) :
    Matches marks R (.ok a s) (.error (.error e) p)
  | exhausted {x : EStateM.Result Stop State α} {p : Position} : Matches marks R x (.error .exhausted p)

/-- From a settled state, what the parser does follows what the descent does from the same place. -/
def Follows (marks : List Position) (R : State → Prop) (s : State) (x : Parser α) (y : Descent α) : Prop :=
  s.Settled marks → Matches marks R (x s) (y s.position)

/-- From a lost state in which `R` holds, the parser does not leave the lost states; where it goes on, `R'` holds. -/
def Stalls (marks : List Position) (R R' : State → Prop) (x : Parser α) : Prop :=
  ∀ e m s, s.Lost marks e m → R s →
    match x s with
    | .ok _ t => t.Lost marks e m ∧ R' t
    | .error (.error _) t => t.Lost marks e m
    | .error .exhausted _ => False

/-- A parser that never goes on in a lost state. -/
def Never (_ : State) : Prop := False

/-- The next token is an opening parenthesis. -/
def AtParen (s : State) : Prop := s.position.kind? = some (.symbol .lparen)

/-- A parser that no lost state comes to need not give up. -/
theorem Stalls.never (x : Parser α) : Stalls marks Never R' x := fun _ _ _ _ h => h.elim

/-! ### Sequences -/

namespace Follows

/-- One part after another, of which the second stalls where the first goes on in a lost state. -/
theorem bind_stalls {x : Parser α} {y : Descent α} {f : α → Parser β} {g : α → Descent β}
    (h : Follows marks R s x y)
    (hf : ∀ a (t : State), y s.position = .ok a t.position → Follows marks R' t (f a) (g a))
    (hs : ∀ a, Stalls marks R R' (f a)) : Follows marks R' s (x >>= f) (y >>= g) := by
  intro hset
  have hm := h hset
  rw [show (x >>= f) s = _ from EStateM.run_bind x f, show (y >>= g) s.position = _ from EStateM.run_bind y g]
  simp only [EStateM.run]
  generalize x s = u, hv : y s.position = v at hm
  cases hm with
  | ok ht => exact hf _ _ hv ht
  | error ht => exact .error ht
  | lost ht => exact .lost ht
  | @stalled a e t p ht hR =>
    -- the descent has failed already, so the second part only has to stay lost
    have hst := hs a e p.index t ht hR
    simp only
    generalize f a t = w at hst
    rcases w with ⟨b, t'⟩ | ⟨_ | _, t'⟩
    · exact .stalled hst.1 hst.2
    · exact .lost hst
    · exact hst.elim
  | exhausted => exact .exhausted

/-- One part after another, of which the first never goes on in a lost state. -/
theorem bind {x : Parser α} {y : Descent α} {f : α → Parser β} {g : α → Descent β}
    (h : Follows marks Never s x y)
    (hf : ∀ a (t : State), y s.position = .ok a t.position → Follows marks R' t (f a) (g a)) :
    Follows marks R' s (x >>= f) (y >>= g) :=
  bind_stalls h hf fun _ => Stalls.never _

theorem pure (a : α) : Follows marks R s (Pure.pure a) (Pure.pure a) := fun hs => .ok hs

/-! ### Looking and moving -/

/-- Both fail with the same error, that of the place. -/
theorem unexpected (e : Expected) : Follows marks R s (Parser.unexpected e : Parser α) (Descent.unexpected e) := by
  intro hs
  have h : Matches (α := α) marks R (.error (.error (s.unexpected e)) s)
      (.error (.error (s.unexpected e)) s.position) := .error hs
  rw [unexpected_eq] at h
  exact h

/-- Entering a production is only noted. -/
theorem enter {x : Parser α} {y : Descent α} {c : Production} (h : ∀ t : State, t.position = s.position →
    Follows marks R t x y) : Follows marks R s (Parser.enter c >>= fun _ => x) y :=
  fun hs => h (s.log (.enter c)) rfl (hs.log _)

/-- Both see the same token. -/
theorem peek {f : Option TokenKind → Parser α} {g : Option TokenKind → Descent α}
    (h : ∀ x, s.position.kind? = x → Follows marks R s (f x) (g x)) :
    Follows marks R s (Parser.peekKind >>= f) (Descent.peekKind >>= g) := h _ rfl

theorem atSymbol {t : Symbol} {f : Bool → Parser α} {g : Option TokenKind → Descent α}
    (h : Follows marks R s (f (s.position.kind? == some (.symbol t))) (g s.position.kind?)) :
    Follows marks R s (Parser.atSymbol t >>= f) (Descent.peekKind >>= g) := h

theorem atKeyword {w : Keyword} {f : Bool → Parser α} {g : Option TokenKind → Descent α}
    (h : Follows marks R s (f (s.position.kind? == some (.keyword w))) (g s.position.kind?)) :
    Follows marks R s (Parser.atKeyword w >>= f) (Descent.peekKind >>= g) := h

theorem nextSpan {f : Span → Parser α} {g : Span → Descent α}
    (h : Follows marks R s (f s.position.nextSpan) (g s.position.nextSpan)) :
    Follows marks R s (Parser.nextSpan >>= f) (Descent.nextSpan >>= g) := h

/-- Looking at the next span earlier makes no difference. -/
theorem nextSpan_left {f : Span → Parser α} {y : Descent α} (h : Follows marks R s (f s.position.nextSpan) y) :
    Follows marks R s (Parser.nextSpan >>= f) y := h

/-- A descent may look at a span that the parser has no need of. -/
theorem nextSpan_right {x : Parser α} {g : Span → Descent α} (h : Follows marks R s x (g s.position.nextSpan)) :
    Follows marks R s x (Descent.nextSpan >>= g) := h

/-- A descent may look one token further ahead than the parser. -/
theorem peekSecond_right {x : Parser α} {g : Option TokenKind → Descent α}
    (h : Follows marks R s x (g s.position.next.kind?)) : Follows marks R s x (Descent.peekSecond >>= g) := h

theorem atKeyword_left {w : Keyword} {f : Bool → Parser α} {y : Descent α}
    (h : Follows marks R s (f (s.position.kind? == some (.keyword w))) y) :
    Follows marks R s (Parser.atKeyword w >>= f) y := h

/-- A descent may look at a token that the parser does not look at. -/
theorem peek_right {x : Parser α} {g : Option TokenKind → Descent α}
    (h : ∀ k, s.position.kind? = k → Follows marks R s x (g k)) : Follows marks R s x (Descent.peekKind >>= g) :=
  h _ rfl

theorem lastSpan {f : Span → Parser α} {g : Span → Descent α}
    (h : Follows marks R s (f s.position.last) (g s.position.last)) :
    Follows marks R s (Parser.lastSpan >>= f) (Descent.lastSpan >>= g) := h

theorem rounds {f : Nat → Parser α} {g : Nat → Descent α}
    (h : Follows marks R s (f (s.position.rest.length + 1)) (g (s.position.rest.length + 1))) :
    Follows marks R s (Parser.rounds >>= f) (Descent.rounds >>= g) := h

/-- Both consume the next token. -/
theorem advance {f : Unit → Parser α} {g : Unit → Descent α}
    (h : ∀ t : State, t.position = s.position.next → Follows marks R t (f ()) (g ())) :
    Follows marks R s (Parser.advance >>= f) (Descent.advance >>= g) := by
  intro hs
  have ha := h s.advance (position_advance s) hs.advance
  rw [position_advance] at ha
  exact ha

private theorem choose {b : Bool} {f : Bool → Parser α} {g : Bool → Descent α}
    (htrue : ∀ t : State, b = true → t.position = s.position.next → Follows marks R t (f true) (g true))
    (hfalse : b = false → Follows marks R s (f false) (g false)) :
    Follows marks R s (if b then Parser.advance >>= fun _ => f true else f false)
      (if b then Descent.advance >>= fun _ => g true else g false) := by
  cases b with
  | true => exact advance fun t ht => htrue t rfl ht
  | false => exact hfalse rfl

/-- Both consume the symbol if it comes next. -/
theorem take {t : Symbol} {f : Bool → Parser α} {g : Bool → Descent α}
    (htrue : ∀ u : State, s.position.kind? = some (.symbol t) → u.position = s.position.next →
      Follows marks R u (f true) (g true))
    (hfalse : s.position.kind? ≠ some (.symbol t) → Follows marks R s (f false) (g false)) :
    Follows marks R s (Parser.take t >>= f) (Descent.take (.symbol t) >>= g) := by
  rw [Parser.take_bind, Descent.take_bind]
  apply atSymbol
  exact choose (fun u hb hu => htrue u (by simpa using hb) hu) fun hb => hfalse (by simpa using hb)

/-- Both consume the keyword if it comes next. -/
theorem takeKeyword {w : Keyword} {f : Bool → Parser α} {g : Bool → Descent α}
    (htrue : ∀ u : State, s.position.kind? = some (.keyword w) → u.position = s.position.next →
      Follows marks R u (f true) (g true))
    (hfalse : s.position.kind? ≠ some (.keyword w) → Follows marks R s (f false) (g false)) :
    Follows marks R s (Parser.takeKeyword w >>= f) (Descent.take (.keyword w) >>= g) := by
  rw [Parser.takeKeyword_bind, Descent.take_bind]
  apply atKeyword
  exact choose (fun u hb hu => htrue u (by simpa using hb) hu) fun hb => hfalse (by simpa using hb)

/-! ### Leaves -/

theorem symbol (t : Symbol) : Follows marks R s (Parser.symbol t) (Descent.symbol t) :=
  take (fun _ _ _ => fun hs => .ok hs) fun _ => unexpected _

theorem keyword (w : Keyword) : Follows marks R s (Parser.keyword w) (Descent.keyword w) :=
  takeKeyword (fun _ _ _ => fun hs => .ok hs) fun _ => unexpected _

theorem ident : Follows marks R s Parser.ident Descent.ident := by
  refine peek fun x _ => ?_
  split
  · apply nextSpan
    exact advance fun _ _ => pure _
  · simp_all [unexpected]

private theorem outOfRange {f : α → Parser β} {g : α → Descent β} (text : String) :
    Follows marks R s (Parser.outOfRange text >>= f) (Descent.outOfRange text >>= g) :=
  fun hs => .error hs

/-- Both read an integer literal as the same value, or it is out of range for both. -/
theorem intValue {negative : Bool} {text : String} {f : Int → Parser α} {g : Int → Descent α}
    (h : ∀ v, Follows marks R s (f v) (g v)) :
    Follows marks R s (Parser.intValue negative text >>= f) (Descent.intValue negative text >>= g) := by
  unfold Parser.intValue Descent.intValue
  cases Parser.intValue? negative text with
  | none => exact outOfRange text
  | some v => exact h v

/-- Both read a literal with a fraction as the same value, or it is out of range for both. -/
theorem doubleValue {text : String} {f : Double → Parser α} {g : Double → Descent α}
    (h : ∀ v, Follows marks R s (f v) (g v)) :
    Follows marks R s (Parser.doubleValue text >>= f) (Descent.doubleValue text >>= g) := by
  unfold Parser.doubleValue Descent.doubleValue
  cases Parser.doubleValue? text with
  | none => exact outOfRange text
  | some v => exact h v

/-- The span runs from the first to the last token of the same tokens. -/
theorem spanned {x : Parser (Span → α)} {y : Descent (Span → α)} (h : Follows marks Never s x y) :
    Follows marks R s (Parser.spanned x) (Descent.spanned y) := by
  apply nextSpan
  refine bind h fun build t _ => ?_
  exact lastSpan (pure _)

theorem separator : Follows marks R s Parser.separator Descent.separator := by
  refine take (fun _ _ _ => pure _) fun _ => ?_
  apply atSymbol
  split
  · exact pure _
  · exact unexpected _

end Follows

/-! ### Stalling -/

namespace Stalls

/-- A lost parser that consumes nothing stays lost. -/
theorem pure (a : α) : Stalls marks R R (Pure.pure a : Parser α) := fun _ _ _ h hR => ⟨h, hR⟩

/-- A lost parser gives up where it comes to a token that it does not expect. -/
theorem unexpected (e : Expected) : Stalls marks R R' (Parser.unexpected e : Parser α) := fun _ _ _ h _ => h

theorem enter {x : Parser α} (c : Production) (h : Stalls marks AtParen R' x) :
    Stalls marks AtParen R' (Parser.enter c >>= fun _ => x) :=
  fun e m s hl hp => h e m (s.log (.enter c)) (hl.log _) hp

theorem rounds {f : Nat → Parser α} (h : ∀ n, Stalls marks R R' (f (n + 1))) :
    Stalls marks R R' (Parser.rounds >>= f) := fun e m s hl hR => h s.position.rest.length e m s hl hR

/-- The token that a lost parser sees is the parenthesis. -/
theorem peek {f : Option TokenKind → Parser α} (h : Stalls marks AtParen R' (f (some (.symbol .lparen)))) :
    Stalls marks AtParen R' (Parser.peekKind >>= f) := by
  intro e m s hl hp
  rw [Parser.peekKind_bind, show s.position.kind? = _ from hp]
  exact h e m s hl hp

private theorem atSymbol {t : Symbol} {f : Bool → Parser α} (ht : t ≠ .lparen) (h : Stalls marks AtParen R' (f false)) :
    Stalls marks AtParen R' (Parser.atSymbol t >>= f) := by
  apply peek (f := fun x => f (x == some (.symbol t)))
  rw [show (some (TokenKind.symbol .lparen) == some (.symbol t)) = false by simpa using Ne.symm ht]
  exact h

/-- A lost parser does not find any other symbol. -/
theorem take {t : Symbol} {f : Bool → Parser α} (ht : t ≠ .lparen) (h : Stalls marks AtParen R' (f false)) :
    Stalls marks AtParen R' (Parser.take t >>= f) := by
  rw [Parser.take_bind]
  exact atSymbol ht h

/-- A lost parser gives up at any other symbol. -/
theorem symbol {t : Symbol} {f : Span → Parser α} (ht : t ≠ .lparen) :
    Stalls marks AtParen R' (Parser.symbol t >>= f) := by
  unfold Parser.symbol
  rw [bind_assoc]
  exact take ht (unexpected _)

/-- A lost parser gives up at the end of an item of a list. -/
theorem separator {f : Unit → Parser α} : Stalls marks AtParen R' (Parser.separator >>= f) := by
  unfold Parser.separator
  rw [bind_assoc]
  refine take (by decide) ?_
  rw [if_neg Bool.false_ne_true, bind_assoc]
  exact atSymbol (by decide) (unexpected _)

end Stalls

/-! ### Alternatives -/

private theorem orElse_of_ok {x y : Parser α} {a : α} {t : State} (h : x s.checkpoint = .ok a t) :
    Parser.orElse x y s = .ok a t.commit := by
  unfold Parser.orElse
  simp only [h]

private theorem orElse_of_error_of_ok {x y : Parser α} {e : Located ParseError} {a : α} {t u : State}
    (h : x s.checkpoint = .error (.error e) t) (h' : y (t.rollback e) = .ok a u) :
    Parser.orElse x y s = .ok a u.commit := by
  unfold Parser.orElse
  simp only [h, h']

private theorem orElse_of_error_of_error {x y : Parser α} {e e' : Located ParseError} {t u : State}
    (h : x s.checkpoint = .error (.error e) t) (h' : y (t.rollback e) = .error (.error e') u) :
    Parser.orElse x y s = .error (.error (u.abandon e').1) (u.abandon e').2 := by
  unfold Parser.orElse
  simp only [h, h']

/-- Where the descent fails beyond the mark, so does the parser.  The second alternative then begins where the first
began, in a state lost to this failure. -/
private theorem Matches.rollback {p q : Position} {e : Located ParseError} {u : EStateM.Result Stop State α}
    (h : Matches (p :: marks) Never u (.error (.error e) q)) (hq : p.index < q.index) :
    ∃ e' t, u = .error (.error e') t ∧ (t.rollback e').position = p ∧ (t.rollback e').Lost (p :: marks) e q.index := by
  cases h with
  | @error e t h => exact ⟨e, t, rfl, position_rollback h.marks_eq _, h.rollback hq _⟩
  | @lost e e' t q h => exact ⟨e', t, rfl, position_rollback h.within.marks_eq _, h.rollback hq _⟩
  | stalled _ hR => exact hR.elim

namespace Follows

/-- The first of two alternatives is the one that the descent takes.  It is left to say what the second comes to where
the first fails. -/
private theorem orElse_of_first {x₁ x₂ : Parser α} {y : Descent α}
    (h : Follows (s.position :: marks) Never s.checkpoint x₁ y)
    (hq : ∀ e q, y s.position = .error (.error e) q → s.position.index < q.index)
    (h₂ : ∀ e e' q t, y s.position = .error (.error e) q → x₁ s.checkpoint = .error (.error e') t →
      (t.rollback e').position = s.position → (t.rollback e').Lost (s.position :: marks) e q.index →
        Matches marks R (Parser.orElse x₁ x₂ s) (.error (.error e) q)) :
    Follows marks R s (Parser.orElse x₁ x₂) y := by
  intro hs
  have hm : Matches (s.position :: marks) Never (x₁ s.checkpoint) (y s.position) := h hs.checkpoint
  cases hy : y s.position with
  | ok a q =>
    rw [hy] at hm
    generalize hx : x₁ s.checkpoint = r at hm
    cases hm with
    | @ok a t ht =>
      rw [orElse_of_ok hx, ← position_commit t]
      exact .ok ht.commit
  | error e q =>
    cases e with
    | exhausted => exact .exhausted
    | error e =>
      -- the rollback keeps the error of the descent, which got beyond the mark
      rw [hy] at hm
      obtain ⟨e', t, hx, hpos, hlost⟩ := hm.rollback (hq e q hy)
      exact h₂ e e' q t hy hx hpos hlost

/-- The first of two alternatives is the one that the descent takes.  Where it fails, the second goes on in a lost
state. -/
theorem orElse_first {x₁ x₂ : Parser α} {y : Descent α}
    (h : Follows (s.position :: marks) Never s.checkpoint x₁ y)
    (hq : ∀ e q, y s.position = .error (.error e) q → s.position.index < q.index)
    (h₂ : ∀ e q t, y s.position = .error (.error e) q → t.position = s.position →
      t.Lost (s.position :: marks) e q.index →
        ∃ a u, x₂ t = .ok a u ∧ u.Lost (s.position :: marks) e q.index ∧ AtParen u) :
    Follows marks AtParen s (Parser.orElse x₁ x₂) y := by
  refine orElse_of_first h hq fun e e' q t hy hx hpos hlost => ?_
  obtain ⟨a, u, hu, hul, hup⟩ := h₂ e q _ hy hpos hlost
  rw [orElse_of_error_of_ok hx hu]
  refine .stalled hul.commit ?_
  unfold AtParen
  rw [position_commit]
  exact hup

/-- The first of two alternatives is the one that the descent takes, and no checkpoint is open around them.  Where it
fails, the second fails in a lost state. -/
theorem orElse_first_outermost {x₁ x₂ : Parser α} {y : Descent α}
    (h : Follows [s.position] Never s.checkpoint x₁ y)
    (hq : ∀ e q, y s.position = .error (.error e) q → s.position.index < q.index)
    (h₂ : ∀ e q t, y s.position = .error (.error e) q → t.position = s.position →
      t.Lost [s.position] e q.index → ∃ e' u, x₂ t = .error (.error e') u ∧ u.Lost [s.position] e q.index) :
    Follows [] Never s (Parser.orElse x₁ x₂) y := by
  refine orElse_of_first h hq fun e e' q t hy hx hpos hlost => ?_
  obtain ⟨e'', u, hu, hul⟩ := h₂ e q _ hy hpos hlost
  -- of the two errors, giving up reports the one of the first alternative
  obtain ⟨-, hal⟩ := hul.abandon e''
  rw [orElse_of_error_of_error hx hu]
  exact .lost hal

/-- The second of two alternatives is the one that the descent takes.  It succeeds, or no checkpoint is open around
them. -/
theorem orElse_second {x₁ x₂ : Parser α} {y₁ y₂ : Descent α} {e : Located ParseError} {q : Position}
    (h₁ : Follows (s.position :: marks) Never s.checkpoint x₁ y₁) (hy : y₁ s.position = .error (.error e) q)
    (hq : s.position.index < q.index)
    (h₂ : ∀ t, t.position = s.position → t.Lost (s.position :: marks) e q.index →
      Matches (s.position :: marks) Never (x₂ t) (y₂ s.position))
    (hm : marks = [] ∨ ∃ a r, y₂ s.position = .ok a r) : Follows marks R s (Parser.orElse x₁ x₂) y₂ := by
  intro hs
  have hm₁ : Matches (s.position :: marks) Never (x₁ s.checkpoint) (y₁ s.position) := h₁ hs.checkpoint
  rw [hy] at hm₁
  obtain ⟨e', t, hx, hpos, hlost⟩ := hm₁.rollback hq
  have hm₂ := h₂ _ hpos hlost
  generalize hx₂ : x₂ (t.rollback e') = r, hy₂ : y₂ s.position = v at hm₂
  cases hm₂ with
  | @ok a u hu =>
    rw [orElse_of_error_of_ok hx hx₂, ← position_commit u]
    exact .ok hu.commit
  | @error e u hu =>
    obtain ⟨ha, hap, has⟩ := hu.abandon e
    rw [orElse_of_error_of_error hx hx₂, ha, ← hap]
    exact .error has
  | @lost e e' u q hu =>
    -- the error would be ranked again further out, unless no checkpoint is left
    rcases hm with rfl | ⟨a, r, hr⟩
    · obtain ⟨-, hal⟩ := hu.abandon e'
      rw [orElse_of_error_of_error hx hx₂]
      exact .lost hal
    · rw [hr] at hy₂
      cases hy₂
  | stalled _ hR => exact hR.elim
  | exhausted => exact .exhausted

end Follows

end Scriptlet.Parse
