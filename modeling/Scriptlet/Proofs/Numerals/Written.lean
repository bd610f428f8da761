import Scriptlet.Proofs.Grammar.Productions
import Scriptlet.Proofs.Speculation.Follows

/-!
# Integer literals where they are read

A `Numeral` is an integer literal as it is written, with the minus before it if there is one.  It is read as its value
together with this minus if that is an integer of 64 bits, and as the error that the literal is out of range if it is
not (`Numeral.read`).  So it is for the bounds of ranges (`intConst_readsAs`, `iterable_readsAs`, `comparator_readsAs`)
and for the constants of cases (`const_readsAs`).  In an expression a minus is an operator, and the literal after it is
read without a sign (`unary_readsAs`).
-/

namespace Scriptlet

open Parse
open Grammar (Fits)

instance (n : Int) : Decidable (Fits n) := inferInstanceAs (Decidable (_ ∧ _))

/-- The value of a digit string, negated after a minus. -/
def Text.signedValue (negative : Bool) (digits : String) : Int :=
  if negative then -(digitsValue digits.toList : Int) else digitsValue digits.toList

private theorem Parser.intValue?_eq (negative : Bool) (digits : String) : intValue? negative digits =
    if Fits (Text.signedValue negative digits) then some (Text.signedValue negative digits) else none := by
  by_cases hfits : Fits (Text.signedValue negative digits)
  · rw [if_pos hfits]
    exact Grammar.intValue?_eq_some.2 ⟨rfl, hfits⟩
  · rw [if_neg hfits]
    refine Option.eq_none_iff_forall_ne_some.2 fun n hn => hfits ?_
    obtain ⟨hvalue, hn⟩ := Grammar.intValue?_eq_some.1 hn
    rw [hvalue] at hn
    exact hn

/-! ### Literals as they are written -/

/-- An integer literal as it is written, with the minus before it if there is one. -/
structure Numeral where
  minus : Option Span
  digits : String
  span : Span

namespace Numeral

/-- The tokens of the literal. -/
def tokens (n : Numeral) : List Token :=
  match n.minus with
  | none => [⟨.intLiteral n.digits, n.span⟩]
  | some minus => [⟨.symbol .minus, minus⟩, ⟨.intLiteral n.digits, n.span⟩]

/-- The number that is written. -/
def value (n : Numeral) : Int := Text.signedValue n.minus.isSome n.digits

/-- From the minus, if there is one, to the end. -/
def extent (n : Numeral) : Span := (n.minus.getD n.span).through n.span

/-- The literal without the minus. -/
def unsigned (n : Numeral) : Numeral := { n with minus := none }

/-- The expression of the tokens, for this value of the literal without the minus. -/
def expr (n : Numeral) (v : Int) : Expr :=
  match n.minus with
  | none => .literal (.int v) n.span
  | some minus => .unary .minus (.literal (.int v) n.span) (minus.through n.span)

/-- What comes of the literal: its value, if this is an integer of 64 bits. -/
def read (n : Numeral) : Except (Located ParseError) Int :=
  if Fits n.value then .ok n.value else .error ⟨n.span, .literalOutOfRange n.digits⟩

/-- A numeral is read as the parser reads its digits, with the sign that is written before them. -/
theorem read_eq (n : Numeral) : n.read = match Parser.intValue? n.minus.isSome n.digits with
    | some v => .ok v
    | none => .error ⟨n.span, .literalOutOfRange n.digits⟩ := by
  rw [Parser.intValue?_eq, read, value]
  split <;> rfl

end Numeral

/-! ### Reading all of some tokens -/

/-- The state with these tokens ahead. -/
def Parse.State.facing (s : Parse.State) (tokens : List Token) : Parse.State :=
  { s with position := { s.position with rest := tokens } }

private theorem Parse.State.facing_of_rest {s : Parse.State} {tokens : List Token} (h : s.position.rest = tokens) :
    s.facing tokens = s := by
  rw [← h]
  rfl

namespace Parser

variable {α β : Type}

/-- Wherever these tokens come next, the parser reads them all as a value, or it fails with this error. -/
def ReadsAs (p : Parser α) (tokens : List Token) (result : Except (Located ParseError) α) : Prop :=
  ∀ (s : Parse.State) (rest : List Token), s.position.rest = tokens ++ rest →
    (∀ a, result = .ok a → ∃ t, p s = .ok a t ∧ t.position = s.position.skip tokens.length) ∧
    (∀ e, result = .error e → ∃ t, p s = .error (.error e) t)

namespace ReadsAs

variable {p q : Parser α} {tokens tokens' : List Token} {result : Except (Located ParseError) α}

/-- It suffices to look at what comes of it. -/
private theorem of_ok {a : α} (h : ∀ (s : Parse.State) (rest : List Token), s.position.rest = tokens ++ rest →
    ∃ t, p s = .ok a t ∧ t.position = s.position.skip tokens.length) : p.ReadsAs tokens (.ok a) := by
  intro s rest hs
  refine ⟨fun b hb => ?_, fun e he => by cases he⟩
  cases hb
  exact h s rest hs

private theorem of_error {e : Located ParseError} (h : ∀ (s : Parse.State) (rest : List Token),
    s.position.rest = tokens ++ rest → ∃ t, p s = .error (.error e) t) : p.ReadsAs tokens (.error e) := by
  intro s rest hs
  refine ⟨fun a ha => (by cases ha), fun e' he => ?_⟩
  cases he
  exact h s rest hs

private theorem pure (a : α) : ReadsAs (Pure.pure a) [] (.ok a) := of_ok fun s _ _ => ⟨s, rfl, rfl⟩

/-- One part after another. -/
private theorem bind (hp : p.ReadsAs tokens result) {f : α → Parser β} {result' : α → Except (Located ParseError) β}
    (hf : ∀ a, result = .ok a → (f a).ReadsAs tokens' (result' a)) :
    (p >>= f).ReadsAs (tokens ++ tokens') (result >>= result') := by
  cases result with
  | error e =>
    refine of_error fun s rest hs => ?_
    rw [List.append_assoc] at hs
    obtain ⟨t, ht⟩ := (hp s _ hs).2 e rfl
    exact ⟨t, bind_of_error ht⟩
  | ok a =>
    intro s rest hs
    rw [List.append_assoc] at hs
    obtain ⟨t, ht, hpos⟩ := (hp s _ hs).1 a rfl
    have hrest : t.position.rest = tokens' ++ rest := by rw [hpos, Position.rest_skip, hs, List.drop_left]
    obtain ⟨hok, herror⟩ := hf a rfl t rest hrest
    constructor
    · intro b hb
      obtain ⟨u, hu, hpos'⟩ := hok b hb
      refine ⟨u, (bind_of_ok ht).trans hu, ?_⟩
      rw [hpos', hpos, Position.skip_skip, List.length_append]
    · intro e he
      obtain ⟨u, hu⟩ := herror e he
      exact ⟨u, (bind_of_ok ht).trans hu⟩

/-- The parser goes on from the place where it is as another one. -/
private theorem of_eq (hq : q.ReadsAs tokens result) (enter : Parse.State → Parse.State)
    (h : ∀ (s : Parse.State) (rest : List Token),
      p (s.facing (tokens ++ rest)) = q (enter (s.facing (tokens ++ rest))) ∧ (enter s).position = s.position) :
    p.ReadsAs tokens result := by
  intro s rest hs
  obtain ⟨heq, hpos⟩ := h s rest
  rw [State.facing_of_rest hs] at heq
  have hreads := hq (enter s) rest (by rw [hpos, hs])
  rwa [hpos, ← heq] at hreads

private theorem of_advance {x : Token} {a : α} (h : ∀ (s : Parse.State) (rest : List Token),
    p (s.facing (x :: rest)) = .ok a (s.facing (x :: rest)).advance) : p.ReadsAs [x] (.ok a) := by
  refine of_ok fun s rest hs => ⟨s.advance, ?_, ?_⟩
  · rw [← State.facing_of_rest hs]
    exact h s rest
  · rw [← State.facing_of_rest hs]
    rfl

private theorem symbol (y : Symbol) (span : Span) : (Parser.symbol y).ReadsAs [⟨.symbol y, span⟩] (.ok span) :=
  of_advance fun s rest => by cases y <;> rfl

private theorem keyword (k : Keyword) (span : Span) : (Parser.keyword k).ReadsAs [⟨.keyword k, span⟩] (.ok span) :=
  of_advance fun s rest => by cases k <;> rfl

/-- The span of what was read goes from its first token to its last one. -/
private theorem spanned {p : Parser (Span → α)} {result : Except (Located ParseError) (Span → α)} {first last : Span}
    (hp : p.ReadsAs tokens result) (hfirst : tokens.head?.map Token.span = some first)
    (hlast : tokens.getLast?.map Token.span = some last) :
    (spanned p).ReadsAs tokens (result >>= fun build => .ok (build (first.through last))) := by
  cases result with
  | error e =>
    refine of_error fun s rest hs => ?_
    obtain ⟨t, ht⟩ := (hp s rest hs).2 e rfl
    exact ⟨t, (bind_of_ok rfl).trans (bind_of_error ht)⟩
  | ok build =>
    refine of_ok fun s rest hs => ?_
    obtain ⟨t, ht, hpos⟩ := (hp s rest hs).1 build rfl
    have hnext : s.position.nextSpan = first := by
      obtain ⟨x, hx, rfl⟩ := Option.map_eq_some_iff.1 hfirst
      obtain ⟨tail, rfl⟩ := List.head?_eq_some_iff.1 hx
      rw [Position.nextSpan, hs]
      rfl
    have hend : t.position.last = last := by
      obtain ⟨y, hy, rfl⟩ := Option.map_eq_some_iff.1 hlast
      obtain ⟨init, rfl⟩ := List.getLast?_eq_some_iff.1 hy
      have hlength : init.length < s.position.rest.length := by
        simp only [hs, List.length_append, List.length_singleton]
        omega
      rw [hpos, List.length_append, List.length_singleton, Position.last_skip hlength]
      simp [hs]
    refine ⟨t, ?_, hpos⟩
    rw [← hnext, ← hend]
    exact bind_of_ok ht

/-- It suffices to say what is made of the value of the literal, and where that ends. -/
private theorem of_intValue? {n : Numeral} {build : Int → α} (read unread : Parse.State → Parse.State)
    (h : ∀ (s : Parse.State) (rest : List Token),
      (p (s.facing (tokens ++ rest)) = match intValue? n.minus.isSome n.digits with
        | some v => .ok (build v) (read (s.facing (tokens ++ rest)))
        | none => .error (.error ⟨n.span, .literalOutOfRange n.digits⟩) (unread (s.facing (tokens ++ rest)))) ∧
      (read (s.facing (tokens ++ rest))).position = (s.facing (tokens ++ rest)).position.skip tokens.length) :
    p.ReadsAs tokens (n.read >>= fun v => .ok (build v)) := by
  rw [Numeral.read_eq]
  cases hvalue : intValue? n.minus.isSome n.digits with
  | some v =>
    refine of_ok fun s rest hs => ⟨read s, ?_⟩
    have hread := h s rest
    rwa [hvalue, State.facing_of_rest hs] at hread
  | none =>
    refine of_error fun s rest hs => ⟨unread s, ?_⟩
    have hread := (h s rest).1
    rwa [hvalue, State.facing_of_rest hs] at hread

/-- A minus before the literal is taken as its sign. -/
private theorem signed {n : Numeral} {f : Bool → Parser α}
    (hf : (f n.minus.isSome).ReadsAs [⟨.intLiteral n.digits, n.span⟩] result) :
    (take .minus >>= f).ReadsAs n.tokens result := by
  obtain ⟨minus, digits, span⟩ := n
  cases minus with
  | none => exact of_eq hf id fun s rest => ⟨rfl, rfl⟩
  | some minus =>
    have htake : (take .minus).ReadsAs [⟨.symbol .minus, minus⟩] (.ok true) := of_advance fun s rest => rfl
    have hbind : (take .minus >>= f).ReadsAs ([⟨.symbol .minus, minus⟩] ++ [⟨.intLiteral digits, span⟩])
        (.ok true >>= fun _ => result) := htake.bind fun b hb => by
      cases hb
      exact hf
    exact hbind

end ReadsAs

/-! ### Literals in expressions -/

/-- In an expression a minus is an operator. -/
theorem unary_readsAs (inner : Parser Expr) (n : Numeral) : (unary inner).ReadsAs n.tokens (do
    let v ← n.unsigned.read
    return n.expr v) := by
  obtain ⟨minus, digits, span⟩ := n
  cases minus with
  | none =>
    refine .of_intValue? (fun s => (s.log (.enter .primary)).advance) (fun s => s.log (.enter .primary))
      fun s rest => ⟨?_, rfl⟩
    -- what the reader comes to where it sees the literal, and here its digits can be told
    change (intValue false digits >>= fun v => advance >>= fun _ => pure (Expr.literal (.int v) span)) _ =
      match intValue? false digits with | some v => _ | none => _
    unfold intValue
    cases intValue? false digits <;> rfl
  | some minus =>
    refine .of_intValue? (fun s => (s.advance.log (.enter .primary)).advance)
      (fun s => s.advance.log (.enter .primary)) fun s rest => ⟨?_, rfl⟩
    change ((intValue false digits >>= fun v => advance >>= fun _ => pure (Expr.literal (.int v) span)) >>= fun e =>
      pure (Expr.unary .minus e (minus.through e.span))) _ =
      match intValue? false digits with | some v => _ | none => _
    unfold intValue
    cases intValue? false digits <;> rfl

/-! ### Bounds of ranges and constants of cases -/

/-- The bounds of ranges have a sign. -/
theorem intConst_readsAs (n : Numeral) : intConst.ReadsAs n.tokens n.read := by
  suffices h : intConst.ReadsAs n.tokens (n.read >>= fun v => .ok v) by
    rwa [show (n.read >>= fun v => .ok v) = n.read from bind_pure n.read] at h
  refine .signed (.of_intValue? (fun s => s.advance) (fun s => s) fun s rest => ⟨?_, rfl⟩)
  change (intValue n.minus.isSome n.digits >>= fun v => advance >>= fun _ => pure v) _ = _
  unfold intValue
  cases intValue? n.minus.isSome n.digits <;> rfl

/-- So have the constants of cases, whose span begins with it. -/
theorem const_readsAs (n : Numeral) : const.ReadsAs n.tokens (do
    let v ← n.read
    return ⟨.int v, n.extent⟩) := by
  have hvalue : (take .minus >>= fun negative => constValue negative >>= fun value => advance >>= fun _ =>
      pure (Const.mk value)).ReadsAs n.tokens (n.read >>= fun v => .ok (Const.mk (.int v))) := by
    refine .signed (.of_intValue? (fun s => s.advance) (fun s => s) fun s rest => ⟨?_, rfl⟩)
    change ((intValue n.minus.isSome n.digits >>= fun v => pure (Literal.int v)) >>= fun value => advance >>= fun _ =>
      pure (Const.mk value)) _ = _
    unfold intValue
    cases intValue? n.minus.isSome n.digits <;> rfl
  have hfirst : n.tokens.head?.map Token.span = some (n.minus.getD n.span) := by
    obtain ⟨_ | minus, digits, span⟩ := n <;> rfl
  have hlast : n.tokens.getLast?.map Token.span = some n.span := by
    obtain ⟨_ | minus, digits, span⟩ := n <;> rfl
  have hread := hvalue.spanned hfirst hlast
  rw [bind_assoc] at hread
  exact hread

/-! ### Ranges -/

/-- The tokens of the range of a `for` loop, with their spans. -/
def forRangeTokens (first last step : Numeral) (range lparen comma comma' rparen : Span) : List Token :=
  ⟨.keyword .rangeKw, range⟩ :: ⟨.symbol .lparen, lparen⟩ :: (first.tokens ++ ⟨.symbol .comma, comma⟩ ::
    (last.tokens ++ ⟨.symbol .comma, comma'⟩ :: (step.tokens ++ [⟨.symbol .rparen, rparen⟩])))

/-- The tokens of the range of a case, with their spans. -/
def caseRangeTokens (lo hi : Numeral) (range lparen comma rparen : Span) : List Token :=
  ⟨.keyword .rangeKw, range⟩ :: ⟨.symbol .lparen, lparen⟩ :: (lo.tokens ++ ⟨.symbol .comma, comma⟩ ::
    (hi.tokens ++ [⟨.symbol .rparen, rparen⟩]))

/-- A range is read if its bounds and its step are, from the first to the last. -/
theorem iterable_readsAs (expr : Parser Expr) (first last step : Numeral) (range lparen comma comma' rparen : Span) :
    (iterable expr).ReadsAs (forRangeTokens first last step range lparen comma comma' rparen) (do
      let a ← first.read
      let b ← last.read
      let c ← step.read
      return .range a b c (range.through rparen)) := by
  have hrange := (ReadsAs.keyword .rangeKw range).bind fun _ _ =>
    (ReadsAs.symbol .lparen lparen).bind fun _ _ =>
    (intConst_readsAs first).bind fun a _ =>
    (ReadsAs.symbol .comma comma).bind fun _ _ =>
    (intConst_readsAs last).bind fun b _ =>
    (ReadsAs.symbol .comma comma').bind fun _ _ =>
    (intConst_readsAs step).bind fun c _ =>
    (ReadsAs.symbol .rparen rparen).bind fun _ _ => ReadsAs.pure (Iterable.range a b c)
  have hlast :
      (forRangeTokens first last step range lparen comma comma' rparen).getLast?.map Token.span = some rparen := by
    simp [forRangeTokens, List.getLast?_cons, List.getLast?_append]
  have hread := hrange.spanned rfl hlast
  simp only [bind_assoc] at hread
  exact .of_eq (q := spanned forRange) hread id fun s rest => ⟨rfl, rfl⟩

/-- A range of a case is read if its bounds are, from the first to the last. -/
theorem comparator_readsAs (lo hi : Numeral) (range lparen comma rparen : Span) :
    comparator.ReadsAs (caseRangeTokens lo hi range lparen comma rparen) (do
      let a ← lo.read
      let b ← hi.read
      return .range a b (range.through rparen)) := by
  have hrange := (ReadsAs.keyword .rangeKw range).bind fun _ _ =>
    (ReadsAs.symbol .lparen lparen).bind fun _ _ =>
    (intConst_readsAs lo).bind fun a _ =>
    (ReadsAs.symbol .comma comma).bind fun _ _ =>
    (intConst_readsAs hi).bind fun b _ =>
    (ReadsAs.symbol .rparen rparen).bind fun _ _ => ReadsAs.pure (Comparator.range a b)
  have hlast : (caseRangeTokens lo hi range lparen comma rparen).getLast?.map Token.span = some rparen := by
    simp [caseRangeTokens, List.getLast?_cons, List.getLast?_append]
  have hread := hrange.spanned rfl hlast
  simp only [bind_assoc] at hread
  exact .of_eq (q := spanned caseRange) hread (·.log (.enter .comparator)) fun s rest => ⟨rfl, rfl⟩

end Parser

end Scriptlet
