import Scriptlet.Proofs.Descent.Forward
import Scriptlet.Proofs.Spans.Basic

/-!
# Which tokens a reader consumes

`Yields ts i Q r` says of a reader that begins before the token `i`: if it succeeds, it stops before some token `j`, not
before `i`, and `Q` holds of its result and of `j`.  As in `Gives` there is one rule for each way to put readers
together.  What is looked at or consumed is a token of the list, so the rules hand on its kind and its span.
-/

namespace Scriptlet.Descent

open Parse Spans

variable {α β : Type} {ts : List Token} {i : Nat} {Q Q' : α → Nat → Prop} {k : TokenKind}

/-- From the token `i` the reader makes results of which `Q` holds, with the token where it stops. -/
def Yields (ts : List Token) (i : Nat) (Q : α → Nat → Prop) (r : Descent α) : Prop :=
  i ≤ ts.length → ∀ a q, r ((Position.start ts).skip i) = .ok a q →
    ∃ j, i ≤ j ∧ j ≤ ts.length ∧ q = (Position.start ts).skip j ∧ Q a j

/-! ### Places in a token list -/

/-- After `i` tokens those from the token `i` on are ahead. -/
theorem rest_start (ts : List Token) (i : Nat) : ((Position.start ts).skip i).rest = ts.drop i :=
  Position.rest_skip _ _

/-- The token that is seen after `i` tokens is the token `i`. -/
theorem kind?_start (ts : List Token) (i : Nat) : ((Position.start ts).skip i).kind? = ts[i]?.map Token.kind := by
  rw [Position.kind?, rest_start, List.head?_drop]

theorem next_start (ts : List Token) (i : Nat) : ((Position.start ts).skip i).next = (Position.start ts).skip (i + 1) :=
  Position.skip_skip (Position.start ts) i 1

private theorem nextSpan_covers (h : i < ts.length) : ((Position.start ts).skip i).nextSpan.Covers ts i (i + 1) := by
  have ht : ts[i]? = some ts[i] := List.getElem?_eq_getElem h
  rw [Position.nextSpan, rest_start, List.drop_eq_getElem_cons h]
  exact .of_token ht

private theorem last_covers (hpos : 0 < i) (h : i ≤ ts.length) :
    ((Position.start ts).skip i).last.Covers ts (i - 1) i := by
  obtain ⟨i, rfl⟩ : ∃ n, i = n + 1 := ⟨i - 1, by omega⟩
  have ht : ts[i]? = some ts[i] := List.getElem?_eq_getElem h
  rw [Position.last_skip (show i < (Position.start ts).rest.length from h)]
  exact .of_token ht

theorem lt_length_of_isAt (h : IsAt ts i k) : i < ts.length := by
  obtain ⟨t, ht, -⟩ := Option.map_eq_some_iff.1 h
  exact (List.getElem?_eq_some_iff.1 ht).1

namespace Yields

/-! ### Sequences -/

theorem pure {a : α} (h : Q a i) : Yields ts i Q (Pure.pure a) := by
  rintro hi b q hb
  cases hb
  exact ⟨i, Nat.le_refl _, hi, rfl, h⟩

/-- What comes after a part starts where that part ends. -/
theorem bind {Q : β → Nat → Prop} {r : Descent α} {f : α → Descent β} (hr : Yields ts i Q' r)
    (hf : ∀ a j, i ≤ j → Q' a j → Yields ts j Q (f a)) : Yields ts i Q (r >>= f) := by
  intro hi b q hb
  obtain ⟨a, q', ha, hb⟩ := exists_of_bind_ok hb
  obtain ⟨j, hij, hj, rfl, hQa⟩ := hr hi a q' ha
  obtain ⟨l, hjl, hl, hq, hQb⟩ := hf a j hij hQa hj b q hb
  exact ⟨l, Nat.le_trans hij hjl, hl, hq, hQb⟩

/-- A reader that yields something yields what follows from it. -/
theorem mono {r : Descent α} (h : Yields ts i Q r) (hQ : ∀ a j, i ≤ j → Q a j → Q' a j) : Yields ts i Q' r := by
  intro hi a q ha
  obtain ⟨j, hij, hj, hq, ha⟩ := h hi a q ha
  exact ⟨j, hij, hj, hq, hQ a j hij ha⟩

theorem map {Q : β → Nat → Prop} {r : Descent α} {f : α → β} (hr : Yields ts i Q' r)
    (hf : ∀ a j, i ≤ j → Q' a j → Q (f a) j) : Yields ts i Q (r >>= fun a => Pure.pure (f a)) :=
  hr.bind fun a j hij ha => .pure (hf a j hij ha)

theorem unexpected (x : Expected) : Yields ts i Q (Descent.unexpected x) := fun _ _ _ h => nomatch h

theorem outOfRange (text : String) : Yields ts i Q (Descent.outOfRange text) := fun _ _ _ h => nomatch h

theorem exhausted : Yields ts i Q Descent.exhausted := fun _ _ _ h => nomatch h

theorem ite {c : Prop} [Decidable c] {r r' : Descent α} (h : c → Yields ts i Q r) (h' : ¬ c → Yields ts i Q r') :
    Yields ts i Q (if c then r else r') := by
  split
  · next hc => exact h hc
  · next hc => exact h' hc

/-! ### Tokens -/

/-- The kind that is seen is the one of the token. -/
theorem peek {f : Option TokenKind → Descent α} (h : ∀ k, ts[i]?.map Token.kind = k → Yields ts i Q (f k)) :
    Yields ts i Q (peekKind >>= f) :=
  h _ (kind?_start ts i).symm

theorem peekSecond {f : Option TokenKind → Descent α} (h : ∀ k, Yields ts i Q (f k)) :
    Yields ts i Q (Descent.peekSecond >>= f) := fun hi a q ha => h _ hi a q ha

theorem rounds {f : Nat → Descent α} (h : ∀ n, Yields ts i Q (f n)) : Yields ts i Q (Descent.rounds >>= f) :=
  fun hi a q ha => h _ hi a q ha

/-- The span of the next token covers that token, if there is one. -/
theorem nextSpan {f : Span → Descent α} (h : ∀ s, (i < ts.length → s.Covers ts i (i + 1)) → Yields ts i Q (f s)) :
    Yields ts i Q (Descent.nextSpan >>= f) := fun hi a q ha => h _ nextSpan_covers hi a q ha

/-- The span of the last token covers the token before. -/
theorem lastSpan {f : Span → Descent α} (h : ∀ s, (0 < i → s.Covers ts (i - 1) i) → Yields ts i Q (f s)) :
    Yields ts i Q (Descent.lastSpan >>= f) := fun hi a q ha => h _ (last_covers · hi) hi a q ha

theorem advance {f : Unit → Descent α} (hk : IsAt ts i k) (h : Yields ts (i + 1) Q (f ())) :
    Yields ts i Q (Descent.advance >>= f) := by
  intro _ a q ha
  have hnext : f () ((Position.start ts).skip (i + 1)) = .ok a q := by rwa [← next_start]
  obtain ⟨j, hij, hj⟩ := h (lt_length_of_isAt hk) a q hnext
  exact ⟨j, Nat.le_of_succ_le hij, hj⟩

theorem take {f : Bool → Descent α} (htrue : IsAt ts i k → Yields ts (i + 1) Q (f true))
    (hfalse : Yields ts i Q (f false)) : Yields ts i Q (Descent.take k >>= f) := by
  rw [take_bind]
  refine .peek fun k' hk' => .ite (fun h => ?_) fun _ => hfalse
  have hk : IsAt ts i k := hk'.trans (eq_of_beq h)
  exact .advance hk (htrue hk)

/-- A symbol is one token, and its span covers it. -/
theorem symbol {s : Symbol} {f : Span → Descent α}
    (h : ∀ l, IsAt ts i (.symbol s) → l.Covers ts i (i + 1) → Yields ts (i + 1) Q (f l)) :
    Yields ts i Q (Descent.symbol s >>= f) := by
  unfold Descent.symbol
  rw [bind_assoc]
  exact .take (fun hk => .lastSpan fun l hl => h l hk (hl (Nat.succ_pos i))) fun _ _ _ h => nomatch h

theorem keyword {s : Keyword} {f : Span → Descent α} (h : ∀ l, IsAt ts i (.keyword s) → Yields ts (i + 1) Q (f l)) :
    Yields ts i Q (Descent.keyword s >>= f) := by
  unfold Descent.keyword
  rw [bind_assoc]
  exact .take (fun hk => .lastSpan fun l _ => h l hk) fun _ _ _ h => nomatch h

/-- A name is one token, and its span covers it. -/
theorem ident : Yields ts i (fun x j => x.Spans ts i ∧ j = i + 1) Descent.ident := by
  refine .peek fun k hk => ?_
  split
  · exact .nextSpan fun s hs => .advance hk (.pure ⟨⟨hk, hs (lt_length_of_isAt hk)⟩, rfl⟩)
  · exact .unexpected _

/-! ### Combinations -/

/-- A tree that is built of one token or more gets the span that covers these tokens. -/
theorem spanned {Q : β → Nat → Prop} {r : Descent (Span → β)} (hts : Consecutive ts)
    (h : Yields ts i (fun build j => i < j ∧ ∀ s, s.Covers ts i j → Q (build s) j) r) :
    Yields ts i Q (Descent.spanned r) := by
  refine .nextSpan fun start hstart => h.bind fun build j _ ⟨hij, hbuild⟩ => .lastSpan fun last hlast => ?_
  intro hj
  exact Yields.pure (hbuild _ ((hstart (Nat.lt_of_lt_of_le hij hj)).through (hlast (Nat.zero_lt_of_lt hij)) hts hij)) hj

private theorem separator : Yields ts i (fun _ j => Separated ts i j) Descent.separator := by
  refine .take (fun hk => .pure (.inl ⟨hk, rfl⟩)) (.peek fun k hk => .ite (fun h => ?_) fun _ => .unexpected _)
  exact .pure (.inr ⟨hk.trans (eq_of_beq h), rfl⟩)

private theorem items {P : α → Nat → Nat → Prop} {item : Descent α} (h : ∀ i, Yields ts i (P · i ·) item) (fuel : Nat) :
    Yields ts i (Listed ts P · i ·) (Descent.items item fuel) := by
  induction fuel generalizing i with
  | zero => exact .exhausted
  | succ fuel ih =>
    refine .take (fun hk => .pure ⟨hk, rfl⟩) (.peek fun _ _ => .ite (fun _ => .unexpected _) fun _ => ?_)
    refine (h i).bind fun x k _ hx => separator.bind fun _ l _ hl => ih.map fun xs j _ hxs => ?_
    exact ⟨k, l, hx, hl, hxs⟩

/-- A list stands between parentheses, and its items follow each other. -/
theorem list {P : α → Nat → Nat → Prop} {item : Descent α} (h : ∀ i, Yields ts i (P · i ·) item) :
    Yields ts i (fun xs j => IsAt ts i (.symbol .lparen) ∧ Listed ts P xs (i + 1) j) (Descent.list item) :=
  .symbol fun _ hk _ => .rounds fun n => (items h n).mono fun _ _ _ hxs => ⟨hk, hxs⟩

end Yields

end Scriptlet.Descent
