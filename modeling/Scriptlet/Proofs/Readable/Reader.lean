import Scriptlet.Proofs.Descent.Forward
import Scriptlet.Proofs.Readable.Basic

/-!
# What readers give

`Gives n Q r` says of a reader that begins where the next token has the offset `n`: if it succeeds, `Q` holds of its
result and of the offset where it stops, which is not before `n`.  This is of tokens that follow one another and whose
names are not reserved (`Spelled`).  There is one rule for each way to put readers together; of the readers whose
results do not matter it is enough that they do not move back (`Gives.forward`).
-/

namespace Scriptlet

/-- No token is empty, each ends before the next one begins, and no name is reserved. -/
structure Spelled (tokens : List Token) : Prop where
  pos : ∀ t ∈ tokens, 0 < t.span.len
  names : ∀ t ∈ tokens, ∀ name, t.kind = .identifier name → name ∉ OpName.reserved
  apart : tokens.Pairwise fun t u => t.span.hi ≤ u.span.lo

private theorem Spelled.tail {t : Token} {tokens : List Token} (h : Spelled (t :: tokens)) : Spelled tokens :=
  ⟨fun u hu => h.pos u (List.mem_cons_of_mem t hu), fun u hu => h.names u (List.mem_cons_of_mem t hu),
    (List.pairwise_cons.1 h.apart).2⟩

namespace Parse.Position

variable {p q : Position}

/-- Where the next token begins; at the end, where the last one ends. -/
def offset (p : Position) : Nat := p.nextSpan.lo

/-- The tokens ahead are spelled. -/
def Sound (p : Position) : Prop := Spelled p.rest

private theorem Sound.next (h : p.Sound) : p.next.Sound := by
  unfold Sound at h ⊢
  rw [rest_next]
  cases hr : p.rest with
  | nil => rw [hr] at h; exact h
  | cons t rest =>
    rw [hr] at h
    exact h.tail

private theorem Sound.offset_lt_next (h : p.Sound) (hp : 0 < p.rest.length) : p.offset < p.next.offset := by
  obtain ⟨rest, i, last⟩ := p
  cases rest with
  | nil => cases hp
  | cons t rest =>
    have hpos := h.pos t (List.mem_cons_self ..)
    have hlt : t.span.lo < t.span.hi := Nat.lt_add_of_pos_right hpos
    cases rest with
    | nil => exact hlt
    | cons u rest => exact Nat.lt_of_lt_of_le hlt ((List.pairwise_cons.1 h.apart).1 u (List.mem_cons_self ..))

private theorem Sound.skip (h : p.Sound) {n : Nat} (hn : n ≤ p.rest.length) :
    (p.skip n).Sound ∧ p.offset ≤ (p.skip n).offset := by
  induction n generalizing p with
  | zero => exact ⟨h, Nat.le_refl _⟩
  | succ n ih =>
    have hlt := h.offset_lt_next (by omega)
    obtain ⟨hs, hle⟩ := ih h.next (by rw [length_next]; omega)
    exact ⟨hs, Nat.le_trans (Nat.le_of_lt hlt) hle⟩

private theorem Sound.reaches {k : Nat} (h : p.Sound) (hq : p.Reaches k q) : q.Sound ∧ p.offset ≤ q.offset := by
  obtain ⟨n, -, hn, rfl⟩ := hq
  exact h.skip hn

end Parse.Position

namespace Descent

open Parse

variable {α β : Type} {n : Nat} {Q Q' : α → Nat → Prop}

/-- From the offset `n` the reader makes results of which `Q` holds, with the offset where it stops. -/
def Gives (n : Nat) (Q : α → Nat → Prop) (r : Descent α) : Prop :=
  ∀ ⦃p : Position⦄, p.Sound → p.offset = n → ∀ a q, r p = .ok a q → q.Sound ∧ n ≤ q.offset ∧ Q a q.offset

namespace Gives

/-! ### Sequences -/

theorem pure {a : α} (h : Q a n) : Gives n Q (Pure.pure a) := by
  rintro p hp rfl b q hb
  cases hb
  exact ⟨hp, Nat.le_refl _, h⟩

/-- The rest begins where the first part ends. -/
theorem bind {Q : β → Nat → Prop} {r : Descent α} {f : α → Descent β} (hr : Gives n Q' r)
    (hf : ∀ a m, n ≤ m → Q' a m → Gives m Q (f a)) : Gives n Q (r >>= f) := by
  intro p hp hn b q hb
  cases hrp : r p with
  | ok a q' =>
    rw [bind_of_ok hrp] at hb
    obtain ⟨hs, hle, ha⟩ := hr hp hn a q' hrp
    obtain ⟨hs', hle', hb⟩ := hf a _ hle ha hs rfl b q hb
    exact ⟨hs', Nat.le_trans hle hle', hb⟩
  | error e q' =>
    rw [bind_of_error hrp] at hb
    cases hb

/-- A reader that gives something gives what follows from it. -/
theorem mono {r : Descent α} (h : Gives n Q r) (hQ : ∀ a m, n ≤ m → Q a m → Q' a m) : Gives n Q' r := by
  intro p hp hn a q ha
  obtain ⟨hs, hle, ha⟩ := h hp hn a q ha
  exact ⟨hs, hle, hQ a _ hle ha⟩

theorem map {Q : β → Nat → Prop} {r : Descent α} {f : α → β} (hr : Gives n Q' r)
    (hf : ∀ a m, n ≤ m → Q' a m → Q (f a) m) : Gives n Q (r >>= fun a => Pure.pure (f a)) :=
  hr.bind fun a m hle ha => .pure (hf a m hle ha)

/-- Of a reader that goes forward nothing more need be said. -/
theorem forward (r : Descent α) [hr : Forward r] : Gives n (fun _ _ => True) r := by
  rintro p hp rfl a q ha
  have h := hr.reaches p
  unfold stop at h
  rw [ha] at h
  obtain ⟨hs, hle⟩ := hp.reaches h
  exact ⟨hs, hle, trivial⟩

/-- A reader whose result does not matter comes first. -/
theorem after (r : Descent β) [Forward r] {f : β → Descent α} (h : ∀ b m, n ≤ m → Gives m Q (f b)) :
    Gives n Q (r >>= f) :=
  (forward r).bind fun b m hle _ => h b m hle

theorem unexpected (x : Expected) : Gives n Q (Descent.unexpected x) := fun _ _ _ _ _ h => nomatch h

theorem outOfRange (text : String) : Gives n Q (Descent.outOfRange text) := fun _ _ _ _ _ h => nomatch h

theorem exhausted : Gives n Q Descent.exhausted := fun _ _ _ _ _ h => nomatch h

theorem ite {c : Prop} [Decidable c] {r r' : Descent α} (h : Gives n Q r) (h' : Gives n Q r') :
    Gives n Q (if c then r else r') := by
  split
  · exact h
  · exact h'

/-! ### Tokens -/

/-- A name that is seen is one that a program may use. -/
theorem peek {f : Option TokenKind → Descent α}
    (h : ∀ k, (∀ name, k = some (.identifier name) → name ∉ OpName.reserved) → Gives n Q (f k)) :
    Gives n Q (peekKind >>= f) := by
  intro p hp hn a q ha
  refine h p.kind? (fun name hk => ?_) hp hn a q ha
  obtain ⟨t, ht, hkind⟩ := Option.map_eq_some_iff.1 hk
  exact hp.names t (List.mem_of_mem_head? ht) name hkind

theorem peekSecond {f : Option TokenKind → Descent α} (h : ∀ k, Gives n Q (f k)) :
    Gives n Q (Descent.peekSecond >>= f) := fun _ hp hn a q ha => h _ hp hn a q ha

/-- The next span begins where the reader stands. -/
theorem nextSpan {f : Span → Descent α} (h : ∀ s, s.lo = n → Gives n Q (f s)) : Gives n Q (Descent.nextSpan >>= f) :=
  fun _ hp hn a q ha => h _ hn hp hn a q ha

theorem lastSpan {f : Span → Descent α} (h : ∀ s, Gives n Q (f s)) : Gives n Q (Descent.lastSpan >>= f) :=
  fun _ hp hn a q ha => h _ hp hn a q ha

theorem rounds {f : Nat → Descent α} (h : ∀ k, Gives n Q (f k)) : Gives n Q (Descent.rounds >>= f) :=
  fun _ hp hn a q ha => h _ hp hn a q ha

private theorem take (k : TokenKind) : Gives n (fun b m => b = true → n < m) (Descent.take k) := by
  rintro p hp rfl b q hb
  unfold Descent.take at hb
  rw [peekKind_bind] at hb
  split at hb
  · next hk =>
    cases hb
    have hlt := hp.offset_lt_next (Position.length_pos_of_kind (eq_of_beq hk))
    exact ⟨hp.next, Nat.le_of_lt hlt, fun _ => hlt⟩
  · cases hb
    exact ⟨hp, Nat.le_refl _, fun h => nomatch h⟩

/-- A keyword takes its place. -/
theorem keyword (k : Keyword) : Gives n (fun _ m => n < m) (Descent.keyword k) := by
  refine (take (.keyword k)).bind fun b m _ hb => ?_
  cases b with
  | true => exact lastSpan fun s => .pure (hb rfl)
  | false => exact unexpected _

/-- A name is one that a program may use, and its span begins where the reader stands. -/
theorem ident : Gives n (fun i _ => i.name ∉ OpName.reserved ∧ i.span.lo = n) Descent.ident := by
  refine peek fun k hk => ?_
  split
  · next name => exact nextSpan fun s hs => after advance fun _ _ _ => .pure ⟨hk name rfl, hs⟩
  · exact unexpected _

/-! ### Combinations -/

/-- A span begins where its tree does. -/
theorem spanned {Q : β → Nat → Prop} {r : Descent (Span → β)}
    (h : Gives n (fun build m => ∀ s, s.lo = n → Q (build s) m) r) : Gives n Q (Descent.spanned r) := by
  refine nextSpan fun start hstart => h.bind fun build m _ hbuild => lastSpan fun last => .pure ?_
  exact hbuild _ ((Span.lo_through start last).trans hstart)

private theorem items {P : α → Prop} {item : Descent α} (h : ∀ n, Gives n (fun a _ => P a) item) (fuel : Nat) :
    Gives n (fun as _ => ∀ a ∈ as, P a) (Descent.items item fuel) := by
  induction fuel generalizing n with
  | zero => exact exhausted
  | succ fuel ih =>
    refine after (Descent.take _) fun b m _ => ite (.pure (by simp)) (peek fun k _ => ite (unexpected _) ?_)
    refine (h m).bind fun a m _ ha => after separator fun _ m _ => ih.map fun as m _ has => ?_
    exact List.forall_mem_cons.2 ⟨ha, has⟩

/-- What every item of a list satisfies all of them do. -/
theorem list {P : α → Prop} {item : Descent α} (h : ∀ n, Gives n (fun a _ => P a) item) :
    Gives n (fun as _ => ∀ a ∈ as, P a) (Descent.list item) :=
  after (symbol _) fun _ _ _ => rounds fun k => items h k

end Gives

end Descent

end Scriptlet
