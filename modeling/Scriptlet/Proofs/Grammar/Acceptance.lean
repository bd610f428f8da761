import Scriptlet.Proofs.Descent.Progress
import Scriptlet.Proofs.Grammar.Derivation

/-!
# What a descent accepts

`Accepts Q r` says of a reader and a relation `Q` between words and trees: the tokens that the reader consumes for a
tree are a word of it, and where the reader fails, those that it has consumed are the beginning of some word of some
tree, and the error is that of the place.  So the words of `Q` that are read need no token but those consumed, and no
reader goes past the point from which a word can still be completed.

The rules below follow the combinators of readers.  `Accepts.bind` is the one that carries the argument: the words of
a sequence are put together, and a beginning of the first part is completed by any word of the second.
-/

namespace Scriptlet

namespace Parse.Position

/-- The kinds of the tokens ahead. -/
def kinds (p : Position) : List TokenKind := p.rest.map Token.kind

theorem kind?_eq (p : Position) : p.kind? = p.kinds.head? := by
  unfold kind? kinds
  rw [List.head?_map]

theorem kinds_next (p : Position) : p.next.kinds = p.kinds.tail := by
  unfold kinds
  rw [rest_next, List.map_tail]

/-- The kind that is seen is the first of those ahead. -/
theorem kinds_of_kind {p : Position} {k : TokenKind} (h : p.kind? = some k) : p.kinds = k :: p.next.kinds := by
  obtain ⟨ks, hks⟩ := List.head?_eq_some_iff.1 (p.kind?_eq ▸ h)
  rw [kinds_next, hks, List.tail_cons]

/-- The error stands at the next token; at the end it says so. -/
def Blames (p : Position) (e : Located ParseError) : Prop :=
  e.span = p.nextSpan ∧ (p.rest = [] → ∃ x, e.value = .unexpectedEof x)

private theorem blames_unexpected (p : Position) (x : Expected) : p.Blames (p.unexpected x) := by
  unfold Blames nextSpan unexpected
  cases p.rest with
  | nil => exact ⟨rfl, fun _ => ⟨x, rfl⟩⟩
  | cons t rest => exact ⟨rfl, fun h => nomatch h⟩

end Parse.Position

namespace Grammar

variable {α β : Type}

/-- The word is the beginning of a word of some tree. -/
def Viable (Q : Word → α → Prop) (w : Word) : Prop := ∃ w' a, Q (w ++ w') a

/-- The empty word begins any word that there is. -/
theorem Viable.of_word {Q : Word → α → Prop} {w : Word} {a : α} (h : Q w a) : Viable Q [] := ⟨w, a, h⟩

/-! ### Lists and repetitions of images -/

section Image

variable {R : Word → β → Prop} {g : α → β} {w : Word} {xs : List α}

/-- A list of items is a list of what stands for them. -/
theorem Listed.map (h : Listed (fun w x => R w (g x)) w xs) : Listed R w (xs.map g) := by
  induction h with
  | nil => exact .nil
  | last hx => exact .last hx
  | cons hx _ ih => exact .cons hx ih

end Image

end Grammar

namespace Descent

open Parse Grammar

variable {α β : Type} {Q : Word → α → Prop} {R : Word → β → Prop} {p : Position} {k : TokenKind}

/-- What the reader comes to at `p` agrees with `Q`: a word for a tree, or a beginning where it fails. -/
def AcceptsAt (Q : Word → α → Prop) (r : Descent α) (p : Position) : Prop :=
  match r p with
  | .ok a q => ∃ w, p.kinds = w ++ q.kinds ∧ Q w a
  | .error (.error e) q => ∃ w, p.kinds = w ++ q.kinds ∧ Viable Q w ∧ q.Blames e
  | .error .exhausted _ => True

/-- There are words of `Q`, and the reader accepts only these. -/
structure Accepts (Q : Word → α → Prop) (r : Descent α) : Prop where
  viable : Viable Q []
  acceptsAt : ∀ p, AcceptsAt Q r p

namespace AcceptsAt

/-- A reader accepts what holds of more words. -/
theorem mono {Q' : Word → α → Prop} {r : Descent α} (h : AcceptsAt Q r p) (hQ : ∀ w a, Q w a → Q' w a) :
    AcceptsAt Q' r p := by
  unfold AcceptsAt at h ⊢
  split at h
  · obtain ⟨w, hw, ha⟩ := h
    exact ⟨w, hw, hQ _ _ ha⟩
  · obtain ⟨w, hw, ⟨w', a, ha⟩, hb⟩ := h
    exact ⟨w, hw, ⟨w', a, hQ _ _ ha⟩, hb⟩
  · trivial

/-- A reader that consumes nothing accepts the empty word. -/
theorem pure {a : α} (h : Q [] a) : AcceptsAt Q (Pure.pure a) p := ⟨[], rfl, h⟩

/-- A reader may fail where it stands, if a word can begin there. -/
theorem unexpected (h : Viable Q []) (x : Expected) : AcceptsAt Q (Descent.unexpected x) p :=
  ⟨[], rfl, h, p.blames_unexpected x⟩

theorem unexpected_bind (h : Viable Q []) (x : Expected) (f : β → Descent α) :
    AcceptsAt Q (Descent.unexpected x >>= f) p := ⟨[], rfl, h, p.blames_unexpected x⟩

theorem exhausted : AcceptsAt Q Descent.exhausted p := trivial

theorem bind {r : Descent β} {f : β → Descent α} (hr : AcceptsAt R r p)
    (hf : ∀ b w, R w b → Accepts (fun w' => Q (w ++ w')) (f b)) : AcceptsAt Q (r >>= f) p := by
  unfold AcceptsAt at hr ⊢
  cases hrp : r p with
  | ok b q =>
    rw [hrp] at hr
    obtain ⟨w, hw, hb⟩ := hr
    have hfb := (hf b w hb).acceptsAt q
    unfold AcceptsAt at hfb
    rw [bind_of_ok hrp]
    split at hfb
    · obtain ⟨w', hw', ha⟩ := hfb
      exact ⟨w ++ w', by rw [hw, hw', List.append_assoc], ha⟩
    · obtain ⟨w', hw', ⟨w'', a, ha⟩, he⟩ := hfb
      exact ⟨w ++ w', by rw [hw, hw', List.append_assoc], ⟨w'', a, by rwa [List.append_assoc]⟩, he⟩
    · trivial
  | error e q =>
    rw [bind_of_error hrp]
    rw [hrp] at hr
    cases e with
    | error e =>
      -- what the first part lacks is completed, and the second part is any word
      obtain ⟨w, hw, ⟨w', b, hb⟩, he⟩ := hr
      obtain ⟨w'', a, ha⟩ := (hf b _ hb).viable
      exact ⟨w, hw, ⟨w' ++ w'', a, by simpa using ha⟩, he⟩
    | exhausted => trivial

theorem peek {f : Option TokenKind → Descent α} (h : AcceptsAt Q (f p.kind?) p) : AcceptsAt Q (peekKind >>= f) p := h

theorem peekSecond {f : Option TokenKind → Descent α} (h : AcceptsAt Q (f p.next.kind?) p) :
    AcceptsAt Q (Descent.peekSecond >>= f) p := h

theorem nextSpan {f : Span → Descent α} (h : AcceptsAt Q (f p.nextSpan) p) :
    AcceptsAt Q (Descent.nextSpan >>= f) p := h

/-- The next token is consumed. -/
theorem advance {f : Unit → Descent α} (hk : p.kind? = some k) (h : Accepts (fun w => Q (k :: w)) (f ())) :
    AcceptsAt Q (Descent.advance >>= f) p := by
  have ha : AcceptsAt (fun w _ => w = [k]) Descent.advance p := ⟨[k], Position.kinds_of_kind hk, rfl⟩
  refine ha.bind fun _ w hw => ?_
  subst hw
  exact h

/-- An integer literal that is out of range fails at the literal, where a word can still begin. -/
theorem intValue {negative : Bool} {text : String} {f : Int → Descent α} (hk : p.kind? = some (.intLiteral text))
    (hv : Viable Q []) (h : ∀ n, Parser.intValue? negative text = some n → AcceptsAt Q (f n) p) :
    AcceptsAt Q (Descent.intValue negative text >>= f) p := by
  unfold Descent.intValue
  split
  · next n hn => exact h n hn
  · exact ⟨[], rfl, hv, rfl, fun hr => absurd (Position.length_pos_of_kind hk) (by simp [hr])⟩

/-- A literal with a fraction that is out of range fails at the literal. -/
theorem doubleValue {text : String} {f : Double → Descent α} (hk : p.kind? = some (.floatLiteral text))
    (hv : Viable Q []) (h : ∀ x, Parser.doubleValue? text = some x → AcceptsAt Q (f x) p) :
    AcceptsAt Q (Descent.doubleValue text >>= f) p := by
  unfold Descent.doubleValue
  split
  · next x hx => exact h x hx
  · exact ⟨[], rfl, hv, rfl, fun hr => absurd (Position.length_pos_of_kind hk) (by simp [hr])⟩

end AcceptsAt

namespace Accepts

theorem mono {Q' : Word → α → Prop} {r : Descent α} (h : Accepts Q r) (hQ : ∀ w a, Q w a → Q' w a) :
    Accepts Q' r := by
  obtain ⟨w, a, ha⟩ := h.viable
  exact ⟨⟨w, a, hQ _ _ ha⟩, fun p => (h.acceptsAt p).mono hQ⟩

theorem pure {a : α} (h : Q [] a) : Accepts Q (Pure.pure a) := ⟨.of_word h, fun _ => .pure h⟩

theorem unexpected (h : Viable Q []) (x : Expected) : Accepts Q (Descent.unexpected x) := ⟨h, fun _ => .unexpected h x⟩

/-- A reader that ran out of fuel gives no tree and no error. -/
theorem exhausted (h : Viable Q []) : Accepts Q Descent.exhausted := ⟨h, fun _ => .exhausted⟩

/-- One part after the other. -/
theorem bind {r : Descent β} {f : β → Descent α} (hr : Accepts R r)
    (hf : ∀ b w, R w b → Accepts (fun w' => Q (w ++ w')) (f b)) : Accepts Q (r >>= f) := by
  obtain ⟨w, b, hb⟩ := hr.viable
  obtain ⟨w', a, ha⟩ := (hf b w hb).viable
  exact ⟨.of_word ha, fun p => (hr.acceptsAt p).bind hf⟩

/-- What is read is put together with nothing after it. -/
theorem map {r : Descent β} {f : β → α} (hr : Accepts R r) (hf : ∀ b w, R w b → Q w (f b)) :
    Accepts Q (r >>= fun b => Pure.pure (f b)) :=
  hr.bind fun b w hb => .pure (by simpa using hf b w hb)

theorem peek {f : Option TokenKind → Descent α} (hv : Viable Q []) (h : ∀ p : Position, AcceptsAt Q (f p.kind?) p) :
    Accepts Q (peekKind >>= f) := ⟨hv, h⟩

theorem lastSpan {f : Span → Descent α} (h : ∀ s, Accepts Q (f s)) : Accepts Q (Descent.lastSpan >>= f) :=
  ⟨(h .blank).viable, fun p => (h p.last).acceptsAt p⟩

private theorem nextSpan {f : Span → Descent α} (h : ∀ s, Accepts Q (f s)) : Accepts Q (Descent.nextSpan >>= f) :=
  ⟨(h .blank).viable, fun p => (h p.nextSpan).acceptsAt p⟩

theorem rounds {f : Nat → Descent α} (h : ∀ n, Accepts Q (f n)) : Accepts Q (Descent.rounds >>= f) :=
  ⟨(h 0).viable, fun p => (h _).acceptsAt p⟩

/-- An optional token begins the words with it, and the other words do without it. -/
theorem take {f : Bool → Descent α} (htrue : Accepts (fun w => Q (k :: w)) (f true)) (hfalse : Accepts Q (f false)) :
    Accepts Q (Descent.take k >>= f) := by
  rw [take_bind]
  refine .peek hfalse.viable fun p => ?_
  by_cases h : p.kind? = some k
  · rw [if_pos (by simp [h])]
    exact .advance h htrue
  · rw [if_neg (by simpa using h)]
    exact hfalse.acceptsAt p

/-- A symbol begins the words. -/
theorem symbol {s : Symbol} {f : Span → Descent α} (h : ∀ l, Accepts (fun w => Q (.symbol s :: w)) (f l)) :
    Accepts Q (Descent.symbol s >>= f) := by
  obtain ⟨w, a, ha⟩ := (h .blank).viable
  unfold Descent.symbol
  rw [bind_assoc]
  refine .take (.lastSpan h) ⟨.of_word ha, fun p => .unexpected_bind (.of_word ha) _ _⟩

/-- A keyword begins the words. -/
theorem keyword {s : Keyword} {f : Span → Descent α} (h : ∀ l, Accepts (fun w => Q (.keyword s :: w)) (f l)) :
    Accepts Q (Descent.keyword s >>= f) := by
  obtain ⟨w, a, ha⟩ := (h .blank).viable
  unfold Descent.keyword
  rw [bind_assoc]
  refine .take (.lastSpan h) ⟨.of_word ha, fun p => .unexpected_bind (.of_word ha) _ _⟩

/-- Words have no places, so that any span will do. -/
theorem spanned {r : Descent (Span → α)} (h : Accepts (fun w b => ∀ s, Q w (b s)) r) :
    Accepts Q (Descent.spanned r) := by
  refine .nextSpan fun start => h.bind fun b w hb => .lastSpan fun last => .pure ?_
  simpa using hb (start.through last)

/-- A name, which alone is consumed. -/
theorem ident {f : Ident → Descent α} (h : ∀ i : Ident, Accepts (fun w => Q (.identifier i.name :: w)) (f i)) :
    Accepts Q (Descent.ident >>= f) := by
  have hi : Accepts (fun w (i : Ident) => w = [.identifier i.name]) Descent.ident := by
    have hv : Viable (fun w (i : Ident) => w = [.identifier i.name]) [] := ⟨[.identifier ""], ⟨"", .blank⟩, rfl⟩
    refine .peek hv fun p => ?_
    split
    · next name hk => exact .nextSpan (.advance hk (.pure rfl))
    · exact .unexpected hv _
  refine hi.bind fun i w hw => ?_
  subst hw
  exact h i

/-! ### Lists -/

/-- After an item comes a comma, or the parenthesis at the end, which is not consumed. -/
theorem separator {f : Unit → Descent α} (hcomma : Accepts (fun w => Q (.symbol .comma :: w)) (f ()))
    (hclose : ∀ p : Position, p.kind? = some (.symbol .rparen) → AcceptsAt Q (f ()) p) :
    Accepts Q (Descent.separator >>= f) := by
  obtain ⟨w, a, ha⟩ := hcomma.viable
  unfold Descent.separator
  rw [bind_assoc]
  refine .take hcomma ?_
  refine ⟨.of_word ha, fun p => ?_⟩
  simp only [Bool.false_eq_true, if_false, bind_assoc]
  apply AcceptsAt.peek
  split
  · next h => exact hclose p (by simpa using h)
  · exact .unexpected_bind (.of_word ha) _ _

end Accepts

end Descent

end Scriptlet
