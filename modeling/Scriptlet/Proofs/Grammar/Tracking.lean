import Scriptlet.Proofs.Descent.Forward
import Scriptlet.Proofs.Grammar.Acceptance

/-!
# Reading along a word

If the tokens ahead are those of a word of the grammar, a reader reads that word.  To say the same of tokens that are
only the beginning of a word, they are compared up to an index `lim`: where the reader comes to an end, either it has
passed `lim`, or it has read the word and the tokens ahead are those that come after it (`TracksAt`).  In particular no
reader fails before `lim`, so the tokens that a reader could not use complete no beginning of a word.

What a reader has read ends only where the next token cannot continue it, so `Tracks` makes a condition of the token
after the word.  Running out of rounds is left to `Descent.program_reads`.
-/

namespace Scriptlet

open Grammar

namespace Parse.Position

/-- Before the index `lim`, the tokens ahead are those of the word. -/
def Expects (lim : Nat) (p : Position) (w : Word) : Prop := p.kinds.take (lim - p.index) = w.take (lim - p.index)

namespace Expects

variable {lim : Nat} {p : Position} {w : Word} {k : TokenKind}

private theorem kind?_eq (h : p.Expects lim w) (hi : p.index < lim) : p.kind? = w.head? := by
  have hh := congrArg List.head? h
  rwa [List.head?_take, List.head?_take, if_neg (by omega), if_neg (by omega), ← Position.kind?_eq] at hh

private theorem next (h : p.Expects lim (k :: w)) (hi : p.index < lim) : p.next.Expects lim w := by
  have hk := Position.kinds_of_kind (h.kind?_eq hi)
  have hp := Position.index_next (Position.length_pos_of_kind (h.kind?_eq hi))
  unfold Expects at h ⊢
  rw [show lim - p.index = lim - p.next.index + 1 by omega, hk, List.take_succ_cons, List.take_succ_cons] at h
  exact (List.cons.inj h).2

end Expects

end Parse.Position

namespace Descent

open Parse

variable {α β : Type} {lim : Nat} {Good : α → Prop} {Good' : β → Prop} {w w' : Word} {p : Position} {k : TokenKind}

/-- From `p` the reader passes `lim`, or it makes a good result and the word `w` is ahead. -/
def TracksAt (lim : Nat) (Good : α → Prop) (w : Word) (r : Descent α) (p : Position) : Prop :=
  match r p with
  | .ok a q => lim ≤ q.index ∨ Good a ∧ q.Expects lim w
  | .error (.error _) q => lim ≤ q.index
  | .error .exhausted _ => True

namespace TracksAt

/-- Where `lim` has been passed nothing more is asked. -/
theorem of_le {r : Descent α} [Forward r] (h : lim ≤ p.index) : TracksAt lim Good w r p := by
  have hf := Nat.le_trans h (Forward.index_le_stop (r := r) p)
  unfold stop at hf
  unfold TracksAt
  split at hf <;> rename_i hr
  · rw [hr]
    exact .inl hf
  · next e _ =>
    rw [hr]
    cases e with
    | error _ => exact hf
    | exhausted => trivial

/-- A reader that begins at the limit or after it has nothing left to track. -/
theorem of_lt {r : Descent α} [Forward r] (h : p.index < lim → TracksAt lim Good w r p) : TracksAt lim Good w r p := by
  rcases Nat.lt_or_ge p.index lim with hi | hi
  · exact h hi
  · exact .of_le hi

/-- A reader that consumes nothing ends before the words that are expected. -/
theorem pure {a : α} (ha : Good a) (hw : p.Expects lim w) : TracksAt lim Good w (Pure.pure a) p := .inr ⟨ha, hw⟩

theorem exhausted : TracksAt lim Good w Descent.exhausted p := trivial

/-- One part after the other. -/
theorem bind {r : Descent β} {f : β → Descent α} [hF : ∀ b, Forward (f b)] (hr : TracksAt lim Good' w' r p)
    (hf : ∀ b q, Good' b → q.Expects lim w' → TracksAt lim Good w (f b) q) : TracksAt lim Good w (r >>= f) p := by
  unfold TracksAt at hr
  cases hrp : r p with
  | ok b q =>
    have hq : TracksAt lim Good w (f b) q := by
      rw [hrp] at hr
      rcases hr with hlim | ⟨hb, hw⟩
      · exact .of_le hlim
      · exact hf b q hb hw
    unfold TracksAt at hq ⊢
    rwa [bind_of_ok hrp]
  | error e q =>
    rw [hrp] at hr
    unfold TracksAt
    rw [bind_of_error hrp]
    cases e <;> exact hr

/-- What is made of a good tree is good. -/
theorem map {r : Descent β} {f : β → α} (hr : TracksAt lim Good' w r p) (hf : ∀ b, Good' b → Good (f b)) :
    TracksAt lim Good w (r >>= fun b => Pure.pure (f b)) p :=
  hr.bind fun b _ hb hw => .pure (hf b hb) hw

theorem rounds {f : Nat → Descent α} (h : ∀ n, TracksAt lim Good w (f n) p) :
    TracksAt lim Good w (Descent.rounds >>= f) p := h _

theorem nextSpan {f : Span → Descent α} (h : ∀ s, TracksAt lim Good w (f s) p) :
    TracksAt lim Good w (Descent.nextSpan >>= f) p := h _

theorem lastSpan {f : Span → Descent α} (h : ∀ s, TracksAt lim Good w (f s) p) :
    TracksAt lim Good w (Descent.lastSpan >>= f) p := h _

/-! ### Looking at the word -/

/-- The token that is seen is the first one of the expected word. -/
theorem peek {f : Option TokenKind → Descent α} (hi : p.index < lim) (hw : p.Expects lim w')
    (h : TracksAt lim Good w (f w'.head?) p) : TracksAt lim Good w (peekKind >>= f) p := by
  rw [← hw.kind?_eq hi] at h
  exact h

/-- The token after the next one is that of the word, if it stands before `lim`. -/
theorem peekSecond {f : Option TokenKind → Descent α} (hi : p.index < lim) (hw : p.Expects lim (k :: w'))
    (h : ∀ k', (p.next.index < lim → k' = w'.head?) → TracksAt lim Good w (f k') p) :
    TracksAt lim Good w (Descent.peekSecond >>= f) p :=
  h _ fun hn => (hw.next hi).kind?_eq hn

/-! ### Consuming the word -/

/-- The token that is consumed is the first one of the expected word. -/
theorem advance {f : Unit → Descent α} [∀ u, Forward (f u)] (hw : p.Expects lim (k :: w'))
    (h : p.next.Expects lim w' → TracksAt lim Good w (f ()) p.next) :
    TracksAt lim Good w (Descent.advance >>= f) p := .of_lt fun hi => h (hw.next hi)

/-- An optional token is taken if the expected word begins with it. -/
theorem take_true {f : Bool → Descent α} [∀ b, Forward (f b)] (hw : p.Expects lim (k :: w'))
    (h : ∀ q, q.Expects lim w' → TracksAt lim Good w (f true) q) : TracksAt lim Good w (Descent.take k >>= f) p := by
  refine .of_lt fun hi => ?_
  rw [take_bind]
  refine .peek hi hw ?_
  rw [if_pos (by simp)]
  exact .advance hw (h p.next)

/-- An optional token is not taken if the expected word begins with another one. -/
theorem take_false {f : Bool → Descent α} [∀ b, Forward (f b)] (hw : p.Expects lim w') (hk : w'.head? ≠ some k)
    (h : TracksAt lim Good w (f false) p) : TracksAt lim Good w (Descent.take k >>= f) p := by
  refine .of_lt fun hi => ?_
  rw [take_bind]
  refine .peek hi hw ?_
  rwa [if_neg (by simpa using hk)]

/-- The expected word begins with the symbol. -/
theorem symbol {s : Symbol} {f : Span → Descent α} [∀ l, Forward (f l)] (hw : p.Expects lim (.symbol s :: w'))
    (h : ∀ l q, q.Expects lim w' → TracksAt lim Good w (f l) q) : TracksAt lim Good w (Descent.symbol s >>= f) p := by
  unfold Descent.symbol
  rw [bind_assoc]
  exact .take_true hw fun q hq => .lastSpan fun l => h l q hq

theorem keyword {s : Keyword} {f : Span → Descent α} [∀ l, Forward (f l)] (hw : p.Expects lim (.keyword s :: w'))
    (h : ∀ l q, q.Expects lim w' → TracksAt lim Good w (f l) q) :
    TracksAt lim Good w (Descent.keyword s >>= f) p := by
  unfold Descent.keyword
  rw [bind_assoc]
  exact .take_true hw fun q hq => .lastSpan fun l => h l q hq

/-- The expected word begins with the name. -/
theorem ident {n : String} {f : Ident → Descent α} [∀ i, Forward (f i)] (hw : p.Expects lim (.identifier n :: w'))
    (h : ∀ i : Ident, i.name = n → p.next.Expects lim w' → TracksAt lim Good w (f i) p.next) :
    TracksAt lim Good w (Descent.ident >>= f) p := by
  refine .of_lt fun hi => ?_
  unfold TracksAt
  rw [bind_of_ok (ident_of_kind (hw.kind?_eq hi))]
  exact h _ rfl (hw.next hi)

/-- A list goes on after a comma. -/
theorem separator_comma {f : Unit → Descent α} [∀ u, Forward (f u)] (hw : p.Expects lim (.symbol .comma :: w'))
    (h : ∀ q, q.Expects lim w' → TracksAt lim Good w (f ()) q) :
    TracksAt lim Good w (Descent.separator >>= f) p := by
  unfold Descent.separator
  rw [bind_assoc]
  exact .take_true hw h

/-- A list ends before a parenthesis, which stays to be consumed. -/
theorem separator_rparen {f : Unit → Descent α} [∀ u, Forward (f u)] (hw : p.Expects lim (.symbol .rparen :: w'))
    (h : TracksAt lim Good w (f ()) p) : TracksAt lim Good w (Descent.separator >>= f) p := by
  refine .of_lt fun hi => ?_
  unfold Descent.separator
  rw [bind_assoc]
  refine .take_false hw (by simp) ?_
  simp only [Bool.false_eq_true, if_false, bind_assoc]
  exact .peek hi hw h

private theorem spanned {r : Descent (Span → α)} (h : TracksAt lim (fun b => ∀ s, Good (b s)) w r p) :
    TracksAt lim Good w (Descent.spanned r) p :=
  .nextSpan fun _ => h.bind fun _ _ hb hq => .lastSpan fun _ => .pure (hb _) hq

end TracksAt

/-- The reader reads the words of `N`, where one that `Follow` allows comes after them, and makes of each what stands
for its tree. -/
def Tracks (Follow : Option TokenKind → Prop) (N : Word → β → Prop) (Stands : α → β → Prop) (r : Descent α) : Prop :=
  ∀ ⦃lim : Nat⦄ ⦃w w' : Word⦄ ⦃y : β⦄ ⦃p : Position⦄, N w y → p.Expects lim (w ++ w') → Follow w'.head? →
    TracksAt lim (Stands · y) w' r p

namespace Tracks

variable {Follow : Option TokenKind → Prop} {N : Word → β → Prop} {Stands : α → β → Prop}

theorem exhausted : Tracks Follow N Stands Descent.exhausted := fun _ _ _ _ _ _ _ _ => .exhausted

theorem rounds {f : Nat → Descent α} (h : ∀ n, Tracks Follow N Stands (f n)) :
    Tracks Follow N Stands (Descent.rounds >>= f) := fun _ _ _ _ _ hN hw hF => .rounds fun n => h n hN hw hF

/-- Trees are compared without their places, so that any span will do. -/
theorem spanned {r : Descent (Span → α)} (h : Tracks Follow N (fun b y => ∀ s, Stands (b s) y) r) :
    Tracks Follow N Stands (Descent.spanned r) := fun _ _ _ _ _ hN hw hF => .spanned (h hN hw hF)

end Tracks

end Descent

end Scriptlet
