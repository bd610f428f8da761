import Scriptlet.Proofs.Spans.Reader
import Scriptlet.Proofs.Speculation.Follows
import Scriptlet.Proofs.Thrift.Uses

/-!
# Parsers that use tokens sparingly

A state is fresh (`Fresh`) if no token from its position on has been used.  A parser saves (`Saves`) if from a fresh
state it leaves a thrifty history, whatever it comes to; and where it goes on, it does so in a fresh state or before a
token at which the parser is stuck.  After that it may only do what uses no token (`Idles`), so that a return to a
checkpoint, after which some tokens have been used already, is not followed by more work.

There is one rule for each way to put parsers together.  At a choice between two parsers that begin with a name
(`Saves.orElse`), one of them has to idle after the name.
-/

namespace Scriptlet.Parse

open Parse.State Spans
open Descent (kind?_start next_start rest_start)

variable {α β : Type} {ts : List Token} {marks : List Position} {R R' : Nat → Prop} {i j : Nat} {s t : State}

/-- The parse stands before the token `i`, and has used none from there on. -/
structure Fresh (ts : List Token) (marks : List Position) (i : Nat) (s : State) : Prop where
  position : s.position = (Position.start ts).skip i
  le : i ≤ ts.length
  marks_eq : s.marks = marks
  thrifty : Thrifty ts s.used
  below : Below i s.used

/-- The history up to `t` is thrifty, and since `s` no token before `i` has been consumed. -/
structure Leaves (ts : List Token) (marks : List Position) (i : Nat) (s t : State) : Prop where
  marks_eq : t.marks = marks
  thrifty : Thrifty ts t.used
  same : ∀ k < i, t.used.count (.consume k) = s.used.count (.consume k)

/-- What a parser that saves comes to from the state `s` at the token `i`.  `R` holds of the tokens at which it may be
stuck. -/
inductive Saved (ts : List Token) (marks : List Position) (R : Nat → Prop) (i : Nat) (s : State) :
    EStateM.Result Stop State α → Prop where
  | ok {a : α} {t : State} {j : Nat} (h : Leaves ts marks i s t) (hij : i ≤ j) (ht : Fresh ts marks j t) :
    Saved ts marks R i s (.ok a t)
  | stuck {a : α} {t : State} {j : Nat} (h : Leaves ts marks i s t) (ht : t.position = (Position.start ts).skip j)
    (hR : R j) : Saved ts marks R i s (.ok a t)
  | error {e : Located ParseError} {t : State} (h : Leaves ts marks i s t) :
    Saved ts marks R i s (.error (.error e) t)
  | exhausted {t : State} (h : Thrifty ts t.used) : Saved ts marks R i s (.error .exhausted t)

/-- From a fresh state at the token `i` the parser uses tokens sparingly. -/
def Saves (ts : List Token) (R : Nat → Prop) (i : Nat) (x : Parser α) : Prop :=
  ∀ marks s, Fresh ts marks i s → Saved ts marks R i s (x s)

/-- The same tokens have been used in both states, and the same checkpoints are open. -/
structure Rests (s t : State) : Prop where
  marks_eq : t.marks = s.marks
  used_eq : t.used = s.used

/-- What a parser that idles comes to from the state `s` at the token `i`. -/
inductive Idle (R : Nat → Prop) (i : Nat) (s : State) : EStateM.Result Stop State α → Prop where
  | ok {a : α} {t : State} (h : Rests s t) (ht : t.position = s.position) (hR : R i) : Idle R i s (.ok a t)
  | error {e : Stop} {t : State} (h : Rests s t) : Idle R i s (.error e t)

/-- At the token `i` the parser fails or goes on without using any token. -/
def Idles (ts : List Token) (R : Nat → Prop) (i : Nat) (x : Parser α) : Prop :=
  ∀ s, s.position = (Position.start ts).skip i → Idle R i s (x s)

/-- A parser that is never stuck. -/
def Nowhere (_ : Nat) : Prop := False

/-- The token is an opening parenthesis, at which an expression may be stuck. -/
def BeforeParen (ts : List Token) (i : Nat) : Prop := IsAt ts i (.symbol .lparen)

/-! ### States -/

private theorem Fresh.leaves (h : Fresh ts marks i s) : Leaves ts marks i s s := ⟨h.marks_eq, h.thrifty, fun _ _ => rfl⟩

private theorem Leaves.trans {u : State} (h : Leaves ts marks i s t) (hij : i ≤ j) (h' : Leaves ts marks j t u) :
    Leaves ts marks i s u :=
  ⟨h'.marks_eq, h'.thrifty, fun k hk => (h'.same k (Nat.lt_of_lt_of_le hk hij)).trans (h.same k hk)⟩

private theorem Leaves.rests {u : State} (h : Leaves ts marks i s t) (h' : Rests t u) : Leaves ts marks i s u :=
  ⟨h'.marks_eq.trans h.marks_eq, h'.used_eq ▸ h.thrifty, fun k hk => h'.used_eq ▸ h.same k hk⟩

private theorem Fresh.rests (h : Fresh ts marks i s) (h' : Rests s t) (hp : t.position = s.position) :
    Fresh ts marks i t :=
  ⟨hp.trans h.position, h.le, h'.marks_eq.trans h.marks_eq, h'.used_eq ▸ h.thrifty, h'.used_eq ▸ h.below⟩

private theorem Rests.refl (s : State) : Rests s s := ⟨rfl, rfl⟩

private theorem Rests.trans {u : State} (h : Rests s t) (h' : Rests t u) : Rests s u :=
  ⟨h'.marks_eq.trans h.marks_eq, h'.used_eq.trans h.used_eq⟩

private theorem Rests.enter (s : State) (c : Production) : Rests s (s.log (.enter c)) := ⟨rfl, used_enter c⟩

private theorem index_of_position (hp : s.position = (Position.start ts).skip i) (hi : i ≤ ts.length) :
    s.position.index = i := by
  rw [hp, Position.index_skip hi]
  exact Nat.zero_add i

/-- At the end of the tokens nothing is consumed. -/
private theorem advance_of_length_le (hp : s.position = (Position.start ts).skip i) (hi : ts.length ≤ i) :
    s.advance = s := by
  have hrest : s.position.rest = [] := by
    rw [hp, rest_start]
    exact List.drop_eq_nil_of_le hi
  unfold State.advance
  rw [hrest]

private theorem used_advance (hp : s.position = (Position.start ts).skip i) (hi : i < ts.length) :
    s.advance.used = s.used ++ [.consume i] := by
  have hrest : s.position.rest = ts[i] :: ts.drop (i + 1) := by
    rw [hp, rest_start]
    exact List.drop_eq_getElem_cons hi
  unfold State.advance
  rw [hrest, index_of_position hp (Nat.le_of_lt hi)]
  exact used_log_of_isUse rfl

/-- A token that was not consumed too often yet is consumed. -/
private theorem Leaves.advance (h : Leaves ts marks i s t) (hp : t.position = (Position.start ts).skip i)
    (hi : i < ts.length) (hcount : t.used.count (.consume i) < allowance ts i) : Leaves ts marks i s t.advance := by
  have hused := used_advance hp hi
  refine ⟨marks_advance.trans h.marks_eq, hused ▸ h.thrifty.consume hcount, fun k hk => ?_⟩
  rw [hused, count_append_of_ne (by simp [Nat.ne_of_gt hk])]
  exact h.same k hk

private theorem Fresh.advance (h : Fresh ts marks i s) (hi : i < ts.length) :
    Fresh ts marks (i + 1) s.advance ∧ Leaves ts marks i s s.advance := by
  have hzero := h.below.count_eq_zero (e := .consume i) rfl (Nat.le_refl i)
  have hallowance := one_le_allowance ts i
  have hleaves := h.leaves.advance h.position hi (by omega)
  refine ⟨⟨?_, hi, hleaves.marks_eq, hleaves.thrifty, ?_⟩, hleaves⟩
  · rw [position_advance, h.position, next_start]
  · rw [used_advance h.position hi]
    refine (h.below.mono (Nat.le_succ i)).append fun k hk => ?_
    cases hk
    exact Nat.lt_succ_self i

/-! ### Outcomes -/

private theorem Saved.trans {r : EStateM.Result Stop State α} (h : Leaves ts marks i s t) (hij : i ≤ j)
    (h' : Saved ts marks R j t r) : Saved ts marks R i s r := by
  cases h' with
  | ok hl hjk ht => exact .ok (h.trans hij hl) (Nat.le_trans hij hjk) ht
  | stuck hl ht hR => exact .stuck (h.trans hij hl) ht hR
  | error hl => exact .error (h.trans hij hl)
  | exhausted hu => exact .exhausted hu

private theorem Idle.saved {r : EStateM.Result Stop State α} (h : Leaves ts marks i s t)
    (ht : t.position = (Position.start ts).skip j) (h' : Idle R j t r) : Saved ts marks R i s r := by
  cases h' with
  | ok hrests hp hR => exact .stuck (h.rests hrests) (hp.trans ht) hR
  | @error e _ hrests =>
    cases e with
    | error e => exact .error (h.rests hrests)
    | exhausted => exact .exhausted (h.rests hrests).thrifty

/-! ### Idling -/

namespace Idles

/-- A parser idles if it ends at once, at a token where it may go on. -/
theorem pure {a : α} (h : R i) : Idles ts R i (Pure.pure a : Parser α) := fun s _ => .ok (.refl s) rfl h

theorem unexpected (e : Expected) : Idles ts R i (Parser.unexpected e : Parser α) := fun s _ => .error (.refl s)

private theorem unexpected_bind {f : α → Parser β} (e : Expected) : Idles ts R i (Parser.unexpected e >>= f) :=
  fun s _ => .error (.refl s)

theorem exhausted : Idles ts R i (Parser.exhausted : Parser α) := fun s _ => .error (.refl s)

private theorem outOfRange (text : String) : Idles ts R i (Parser.outOfRange text : Parser α) :=
  fun s _ => .error (.refl s)

/-- Two parsers that idle do so one after the other. -/
theorem bind {x : Parser α} {f : α → Parser β} (h : Idles ts R' i x) (hf : ∀ a, R' i → Idles ts R i (f a)) :
    Idles ts R i (x >>= f) := by
  intro s hs
  have hx := h s hs
  rw [show (x >>= f) s = _ from EStateM.run_bind x f]
  simp only [EStateM.run]
  generalize x s = r at hx
  cases hx with
  | @ok a t hrests hp hR =>
    have hfa := hf a hR t (hp.trans hs)
    simp only
    generalize f a t = r' at hfa
    cases hfa with
    | ok hrests' hp' hR' => exact .ok (hrests.trans hrests') (hp'.trans hp) hR'
    | error hrests' => exact .error (hrests.trans hrests')
  | error hrests => exact .error hrests

/-- Looking at the next token does not use it. -/
theorem peek {f : Option TokenKind → Parser α} (h : ∀ k, ts[i]?.map Token.kind = k → Idles ts R i (f k)) :
    Idles ts R i (Parser.peekKind >>= f) := by
  intro s hs
  rw [Parser.peekKind_bind]
  exact h _ (by rw [hs, kind?_start]) s hs

theorem enter {x : Parser α} (c : Production) (h : Idles ts R i x) : Idles ts R i (Parser.enter c >>= fun _ => x) := by
  intro s hs
  have hx := h (s.log (.enter c)) hs
  rw [show (Parser.enter c >>= fun _ => x) s = x (s.log (.enter c)) from rfl]
  generalize x (s.log (.enter c)) = r at hx
  cases hx with
  | ok hrests hp hR => exact .ok ((Rests.enter s c).trans hrests) hp hR
  | error hrests => exact .error ((Rests.enter s c).trans hrests)

theorem rounds {f : Nat → Parser α} (h : ∀ n, Idles ts R i (f n)) : Idles ts R i (Parser.rounds >>= f) :=
  fun s hs => h _ s hs

private theorem atSymbol {a : Symbol} {f : Bool → Parser α} (ha : ¬ IsAt ts i (.symbol a))
    (h : Idles ts R i (f false)) : Idles ts R i (Parser.atSymbol a >>= f) := by
  refine peek (f := fun k => f (k == some (.symbol a))) fun k hk => ?_
  have hne : (k == some (.symbol a)) = false := by
    rw [← hk]
    exact beq_eq_false_iff_ne.2 ha
  rwa [hne]

/-- A symbol that does not come next is not used. -/
theorem take {a : Symbol} {f : Bool → Parser α} (ha : ¬ IsAt ts i (.symbol a)) (h : Idles ts R i (f false)) :
    Idles ts R i (Parser.take a >>= f) := by
  rw [Parser.take_bind]
  exact atSymbol ha h

/-- A parser fails without using a token if its symbol does not come next. -/
theorem symbol {a : Symbol} {f : Span → Parser α} (ha : ¬ IsAt ts i (.symbol a)) :
    Idles ts R i (Parser.symbol a >>= f) := by
  unfold Parser.symbol
  rw [bind_assoc]
  exact take ha (unexpected_bind _)

/-- Without its parenthesis a list fails at once. -/
theorem list {x : Parser α} {f : List α → Parser β} (h : ¬ IsAt ts i (.symbol .lparen)) :
    Idles ts R i (Parser.list x >>= f) := by
  unfold Parser.list
  rw [bind_assoc]
  exact symbol h

end Idles

/-- Of the symbols only the opening parenthesis is at a place where an expression is stuck. -/
theorem BeforeParen.ne (h : BeforeParen ts i) {a : Symbol} (ha : a ≠ .lparen) : ¬ IsAt ts i (.symbol a) := by
  intro ha'
  have hkinds : some (TokenKind.symbol .lparen) = some (.symbol a) := h.symm.trans ha'
  cases hkinds
  exact ha rfl

/-- Before a parenthesis a list cannot go on. -/
theorem BeforeParen.separator (h : BeforeParen ts i) {f : Unit → Parser α} :
    Idles ts R i (Parser.separator >>= f) := by
  unfold Parser.separator
  rw [bind_assoc]
  refine .take (h.ne (by decide)) ?_
  rw [if_neg Bool.false_ne_true, bind_assoc]
  exact .atSymbol (h.ne (by decide)) (.unexpected_bind _)

/-! ### Saving -/

namespace Saves

private theorem of_idles {x : Parser α} (h : Idles ts R' i x) : Saves ts R i x := by
  intro marks s hs
  have hx := h s hs.position
  generalize x s = r at hx
  cases hx with
  | ok hrests hp _ => exact .ok (hs.leaves.rests hrests) (Nat.le_refl i) (hs.rests hrests hp)
  | @error e _ hrests =>
    cases e with
    | error e => exact .error (hs.leaves.rests hrests)
    | exhausted => exact .exhausted (hs.leaves.rests hrests).thrifty

/-- What uses no token saves. -/
theorem pure {a : α} : Saves ts R i (Pure.pure a : Parser α) :=
  of_idles (.pure (R := fun _ => True) trivial)

theorem unexpected (e : Expected) : Saves ts R i (Parser.unexpected e : Parser α) := of_idles (.unexpected (R := R) e)

theorem exhausted : Saves ts R i (Parser.exhausted : Parser α) := of_idles (.exhausted (R := R))

private theorem outOfRange (text : String) : Saves ts R i (Parser.outOfRange text : Parser α) :=
  of_idles (.outOfRange (R := R) text)

/-- One part after another, of which the second idles where the first is stuck. -/
theorem bind_idles {x : Parser α} {f : α → Parser β} (h : Saves ts R' i x) (hf : ∀ a j, Saves ts R j (f a))
    (hidle : ∀ a j, R' j → Idles ts R j (f a)) : Saves ts R i (x >>= f) := by
  intro marks s hs
  have hx := h marks s hs
  rw [show (x >>= f) s = _ from EStateM.run_bind x f]
  simp only [EStateM.run]
  generalize x s = r at hx
  cases hx with
  | ok hl hij ht => exact .trans hl hij (hf _ _ marks _ ht)
  | stuck hl ht hR => exact (hidle _ _ hR _ ht).saved hl ht
  | error hl => exact .error hl
  | exhausted hu => exact .exhausted hu

/-- One part after another, of which the first is never stuck. -/
theorem bind {x : Parser α} {f : α → Parser β} (h : Saves ts Nowhere i x) (hf : ∀ a j, Saves ts R j (f a)) :
    Saves ts R i (x >>= f) :=
  h.bind_idles hf fun _ _ hR => hR.elim

/-! ### Looking and moving -/

theorem peek {f : Option TokenKind → Parser α} (h : ∀ k, ts[i]?.map Token.kind = k → Saves ts R i (f k)) :
    Saves ts R i (Parser.peekKind >>= f) := by
  intro marks s hs
  rw [Parser.peekKind_bind]
  exact h _ (by rw [hs.position, kind?_start]) marks s hs

theorem atSymbol {a : Symbol} {f : Bool → Parser α} (h : ∀ b, Saves ts R i (f b)) :
    Saves ts R i (Parser.atSymbol a >>= f) := fun marks s hs => h _ marks s hs

theorem atKeyword {w : Keyword} {f : Bool → Parser α} (h : ∀ b, Saves ts R i (f b)) :
    Saves ts R i (Parser.atKeyword w >>= f) := fun marks s hs => h _ marks s hs

theorem nextSpan {f : Span → Parser α} (h : ∀ l, Saves ts R i (f l)) : Saves ts R i (Parser.nextSpan >>= f) :=
  fun marks s hs => h _ marks s hs

theorem lastSpan {f : Span → Parser α} (h : ∀ l, Saves ts R i (f l)) : Saves ts R i (Parser.lastSpan >>= f) :=
  fun marks s hs => h _ marks s hs

theorem rounds {f : Nat → Parser α} (h : ∀ n, Saves ts R i (f n)) : Saves ts R i (Parser.rounds >>= f) :=
  fun marks s hs => h _ marks s hs

theorem enter {x : Parser α} (c : Production) (h : Saves ts R i x) : Saves ts R i (Parser.enter c >>= fun _ => x) := by
  intro marks s hs
  have hrests := Rests.enter s c
  exact .trans (hs.leaves.rests hrests) (Nat.le_refl i) (h marks _ (hs.rests hrests rfl))

/-- The next token of a fresh state is used for the first time. -/
theorem advance {f : Unit → Parser α} (h : ∀ j, Saves ts R j (f ())) : Saves ts R i (Parser.advance >>= f) := by
  intro marks s hs
  rw [show (Parser.advance >>= f) s = f () s.advance from rfl]
  rcases Nat.lt_or_ge i ts.length with hi | hi
  · obtain ⟨hfresh, hleaves⟩ := hs.advance hi
    exact .trans hleaves (Nat.le_succ i) (h (i + 1) marks _ hfresh)
  · rw [advance_of_length_le hs.position hi]
    exact h i marks s hs

private theorem choose {b : Bool} {f : Bool → Parser α} (h : ∀ b j, Saves ts R j (f b)) :
    Saves ts R i (if b then Parser.advance >>= fun _ => f true else f false) := by
  cases b with
  | true => exact advance fun j => h true j
  | false => exact h false i

/-- A symbol is consumed at most once. -/
theorem take {a : Symbol} {f : Bool → Parser α} (h : ∀ b j, Saves ts R j (f b)) :
    Saves ts R i (Parser.take a >>= f) := by
  rw [Parser.take_bind]
  exact atSymbol fun b => choose h

/-- A keyword is consumed at most once. -/
theorem takeKeyword {w : Keyword} {f : Bool → Parser α} (h : ∀ b j, Saves ts R j (f b)) :
    Saves ts R i (Parser.takeKeyword w >>= f) := by
  rw [Parser.takeKeyword_bind]
  exact atKeyword fun b => choose h

theorem ite {b : Bool} {x y : Parser α} (hx : Saves ts R i x) (hy : Saves ts R i y) :
    Saves ts R i (if b then x else y) := by
  cases b with
  | true => exact hx
  | false => exact hy

/-! ### Leaves -/

theorem symbol (a : Symbol) : Saves ts R i (Parser.symbol a) :=
  take fun _ _ => ite (lastSpan fun _ => pure) (unexpected _)

theorem keyword (w : Keyword) : Saves ts R i (Parser.keyword w) :=
  takeKeyword fun _ _ => ite (lastSpan fun _ => pure) (unexpected _)

theorem ident : Saves ts R i Parser.ident := by
  refine peek fun k _ => ?_
  split
  · exact nextSpan fun _ => advance fun _ => pure
  · exact unexpected _

theorem intValue (negative : Bool) (text : String) : Saves ts R i (Parser.intValue negative text) := by
  unfold Parser.intValue
  split
  · exact pure
  · exact outOfRange text

theorem doubleValue (text : String) : Saves ts R i (Parser.doubleValue text) := by
  unfold Parser.doubleValue
  split
  · exact pure
  · exact outOfRange text

/-! ### Combinations -/

/-- The span of what is parsed uses no token. -/
theorem spanned {x : Parser (Span → α)} (h : Saves ts Nowhere i x) : Saves ts R i (Parser.spanned x) :=
  nextSpan fun _ => h.bind fun _ _ => lastSpan fun _ => pure

private theorem separator : Saves ts R i Parser.separator :=
  take fun _ _ => ite pure (atSymbol fun _ => ite pure (unexpected _))

private theorem items {x : Parser α} (h : ∀ j, Saves ts R' j x)
    (hsep : ∀ (f : Unit → Parser (List α)) j, R' j → Idles ts Nowhere j (Parser.separator >>= f)) (fuel : Nat) :
    Saves ts Nowhere i (Parser.items x fuel) := by
  induction fuel generalizing i with
  | zero => exact exhausted
  | succ fuel ih =>
    refine take fun _ _ => ite pure (atSymbol fun _ => ite (unexpected _) ?_)
    refine (h _).bind_idles (fun a j => ?_) fun a j hR => hsep _ j hR
    exact separator.bind fun _ _ => ih.bind fun _ _ => pure

/-- A list whose items save does so if it gives up at the tokens where an item may be stuck. -/
theorem list {x : Parser α} (h : ∀ j, Saves ts R' j x)
    (hsep : ∀ (f : Unit → Parser (List α)) j, R' j → Idles ts Nowhere j (Parser.separator >>= f)) :
    Saves ts Nowhere i (Parser.list x) :=
  (symbol _).bind fun _ _ => rounds fun n => items h hsep n

end Saves

/-! ### Alternatives -/

section Alternatives

variable {name : String} {f g : Ident → Parser α} {p q : Production}

/-- The part of a production after its name. -/
private theorem named_eq (h : s.position.kind? = some (.identifier name)) :
    (Parser.enter p >>= fun _ => Parser.ident >>= f) s = f ⟨name, s.position.nextSpan⟩ (s.log (.enter p)).advance :=
  Parser.bind_of_ok (Parser.ident_of_kind (s := s.log (.enter p)) h)

/-- A checkpoint is opened at a name that has not been used, and the name is consumed. -/
private theorem Fresh.opening (h : Fresh ts marks i s) (hname : IsAt ts i (.identifier name)) (p : Production) :
    Fresh ts (s.position :: marks) (i + 1) (s.checkpoint.log (.enter p)).advance ∧
      Leaves ts (s.position :: marks) i s (s.checkpoint.log (.enter p)).advance ∧
      (s.checkpoint.log (.enter p)).advance.used.count (.consume i) = 1 := by
  have hi := Descent.lt_length_of_isAt hname
  have hopened : (s.checkpoint.log (.enter p)).used = s.used ++ [.checkpoint i] := by
    rw [used_enter, ← index_of_position h.position h.le]
    exact used_log_of_isUse rfl
  have hcount (k : Nat) : (s.checkpoint.log (.enter p)).used.count (.consume k) = s.used.count (.consume k) := by
    rw [hopened, count_append_of_ne (by simp)]
  have hzero : (s.checkpoint.log (.enter p)).used.count (.consume i) = 0 :=
    (hcount i).trans (h.below.count_eq_zero rfl (Nat.le_refl i))
  have hmarks : (s.checkpoint.log (.enter p)).marks = s.position :: marks := congrArg (s.position :: ·) h.marks_eq
  have hthrifty : Thrifty ts (s.checkpoint.log (.enter p)).used :=
    hopened ▸ h.thrifty.checkpoint h.below (isName_of_isAt hname)
  have hallowance := one_le_allowance ts i
  have hleaves : Leaves ts (s.position :: marks) i s (s.checkpoint.log (.enter p)).advance :=
    Leaves.advance ⟨hmarks, hthrifty, fun k _ => hcount k⟩ h.position hi (by omega)
  have hused : (s.checkpoint.log (.enter p)).advance.used = s.used ++ [.checkpoint i] ++ [.consume i] := by
    rw [← hopened]
    exact used_advance h.position hi
  refine ⟨⟨?_, hi, hleaves.marks_eq, hleaves.thrifty, ?_⟩, hleaves, ?_⟩
  · rw [position_advance, show (s.checkpoint.log (.enter p)).position = _ from h.position, next_start]
  · rw [hused]
    refine ((h.below.mono (Nat.le_succ i)).append ?_).append ?_
    · rintro k ⟨⟩
      exact Nat.lt_succ_self i
    · rintro k ⟨⟩
      exact Nat.lt_succ_self i
  · rw [hused, ← hopened, count_append_self, hzero]

private theorem Rests.rollback (s : State) (e : Located ParseError) : Rests s (s.rollback e) :=
  ⟨marks_rollback e, used_rollback e⟩

/-- After a return to the checkpoint the name is consumed once more. -/
private theorem Leaves.again {m : Position} {e : Located ParseError} (h : Leaves ts (m :: marks) i s t)
    (hname : IsAt ts i (.identifier name)) (hm : m = (Position.start ts).skip i)
    (hcount : t.used.count (.consume i) = 1) (q : Production) :
    Leaves ts (m :: marks) i s ((t.rollback e).log (.enter q)).advance ∧
      ((t.rollback e).log (.enter q)).advance.position = (Position.start ts).skip (i + 1) ∧
      ((t.rollback e).log (.enter q)).advance.used = t.used ++ [.consume i] := by
  have hi := Descent.lt_length_of_isAt hname
  have hrests : Rests t ((t.rollback e).log (.enter q)) := (Rests.rollback t e).trans (.enter _ q)
  have hpos : ((t.rollback e).log (.enter q)).position = (Position.start ts).skip i :=
    (position_rollback h.marks_eq e).trans hm
  have hallowance : allowance ts i = 2 := if_pos (isName_of_isAt hname)
  refine ⟨(h.rests hrests).advance hpos hi (by rw [hrests.used_eq]; omega), ?_, ?_⟩
  · rw [position_advance, hpos, next_start]
  · rw [used_advance hpos hi, hrests.used_eq]

private theorem Leaves.commit {m : Position} (h : Leaves ts (m :: marks) i s t) : Leaves ts marks i s t.commit :=
  ⟨marks_commit h.marks_eq, used_commit.symm ▸ h.thrifty, fun k hk => used_commit.symm ▸ h.same k hk⟩

private theorem Leaves.abandon {m : Position} (h : Leaves ts (m :: marks) i s t) (e : Located ParseError) :
    Leaves ts marks i s (t.abandon e).2 :=
  ⟨marks_abandon h.marks_eq e, (used_abandon e).symm ▸ h.thrifty, fun k hk => (used_abandon e).symm ▸ h.same k hk⟩

private theorem Fresh.commit {m : Position} (h : Fresh ts (m :: marks) i s) : Fresh ts marks i s.commit :=
  ⟨(position_commit s).trans h.position, h.le, marks_commit h.marks_eq, used_commit.symm ▸ h.thrifty,
    used_commit.symm ▸ h.below⟩

/-- Two parsers begin with the same name.  If the first fails after it, either it has used nothing more, or the second
uses nothing more. -/
theorem Saves.orElse (hname : IsAt ts i (.identifier name)) (hf : ∀ x, Saves ts Nowhere (i + 1) (f x))
    (hg : ∀ x, Saves ts R (i + 1) (g x))
    (hidle : (∀ x, Idles ts Nowhere (i + 1) (f x)) ∨ ∀ x, Idles ts R (i + 1) (g x)) :
    Saves ts R i (Parser.orElse (Parser.enter p >>= fun _ => Parser.ident >>= f)
      (Parser.enter q >>= fun _ => Parser.ident >>= g)) := by
  intro marks s hs
  have hkind : s.position.kind? = some (.identifier name) := by
    rw [hs.position, kind?_start]
    exact hname
  obtain ⟨hfresh, hleaves, hcount⟩ := hs.opening hname p
  unfold Parser.orElse
  rw [named_eq (s := s.checkpoint) hkind]
  have hfirst := hf ⟨name, s.checkpoint.position.nextSpan⟩ _ _ hfresh
  have hquiet := fun h : ∀ x, Idles ts Nowhere (i + 1) (f x) =>
    h ⟨name, s.checkpoint.position.nextSpan⟩ _ hfresh.position
  generalize f _ (s.checkpoint.log (.enter p)).advance = r at hfirst hquiet
  cases hfirst with
  | ok hl hij ht => exact .ok (hleaves.trans (Nat.le_succ i) hl).commit (Nat.le_of_succ_le hij) ht.commit
  | stuck _ _ hR => exact hR.elim
  | exhausted hu => exact .exhausted hu
  | @error e t hl =>
    have hcount' : t.used.count (.consume i) = 1 := (hl.same i (Nat.lt_succ_self i)).trans hcount
    obtain ⟨hagain, hpos, hused⟩ := (hleaves.trans (Nat.le_succ i) hl).again (e := e) hname hs.position hcount' q
    have hkind' : (t.rollback e).position.kind? = some (.identifier name) := by
      rw [position_rollback hl.marks_eq]
      exact hkind
    simp only
    rw [named_eq hkind']
    have hsecond : Saved ts (s.position :: marks) R i s
        (g ⟨name, (t.rollback e).position.nextSpan⟩ ((t.rollback e).log (.enter q)).advance) := by
      rcases hidle with hf | hg'
      · -- the first has used nothing after the name
        cases hquiet hf with
        | error hrests =>
          have hbelow : Below (i + 1) ((t.rollback e).log (.enter q)).advance.used := by
            rw [hused, hrests.used_eq]
            refine hfresh.below.append ?_
            rintro k ⟨⟩
            exact Nat.lt_succ_self i
          exact .trans hagain (Nat.le_succ i) (hg _ _ _ ⟨hpos, hfresh.le, hagain.marks_eq, hagain.thrifty, hbelow⟩)
      · exact (hg' _ _ hpos).saved hagain hpos
    generalize g _ ((t.rollback e).log (.enter q)).advance = r at hsecond
    cases hsecond with
    | ok hl hij ht => exact .ok hl.commit hij ht.commit
    | stuck hl ht hR => exact .stuck hl.commit ((position_commit _).trans ht) hR
    | error hl => exact .error (hl.abandon _)
    | exhausted hu => exact .exhausted hu

end Alternatives

end Scriptlet.Parse
