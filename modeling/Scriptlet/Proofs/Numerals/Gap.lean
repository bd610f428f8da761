import Scriptlet.Proofs.Descent.Forward

/-!
# Readers see only the value of a literal

`Uniform r` says what the reader `r` makes of tokens with an integer literal among them whose digits are left open
(`Gap`): it stops before it comes to the literal, and the digits do not matter; it stops at the literal because there
may be none; or it takes the literal, and then the digits matter by the value that they have together with the sign,
which must fit in 64 bits (`Meets`).  It is a class, so that it is found for each reader from the readers that it is put
together from; only loops and nesting need an induction.

A reader that has seen a token other than the literal may consume it without a further look.  It is uniform at the
places before the literal (`UniformBefore`).
-/

namespace Scriptlet.Descent

open Parse
open Scriptlet.Parser (Level)

variable {α β : Type}

/-! ### Tokens with a literal among them -/

/-- An integer literal whose digits are left open, with the tokens before and after it. -/
structure Gap where
  before : List Token
  span : Span
  after : List Token

namespace Gap

variable {g : Gap} {n : Nat} (d : String)

/-- The tokens with these digits. -/
def fill (g : Gap) (digits : String) : List Token := g.before ++ ⟨.intLiteral digits, g.span⟩ :: g.after

/-- The place after `n` of the tokens. -/
def place (g : Gap) (n : Nat) (digits : String) : Position := (Position.start (g.fill digits)).skip n

/-- A minus stands before the literal. -/
def Signed (g : Gap) : Prop := ∃ t, g.before.getLast? = some t ∧ t.kind = .symbol .minus

/-- The gap is filled by one token. -/
theorem length_fill (g : Gap) : (g.fill d).length = g.before.length + 1 + g.after.length := by
  rw [fill, List.length_append, List.length_cons]
  omega

private theorem rest_place (g : Gap) (n : Nat) : (g.place n d).rest = (g.fill d).drop n := Position.rest_skip _ n

theorem next_place (g : Gap) (n : Nat) : (g.place n d).next = g.place (n + 1) d :=
  Position.skip_skip (Position.start (g.fill d)) n 1

private theorem length_place (g : Gap) (n : Nat) : (g.place n d).rest.length = (g.place n "").rest.length := by
  rw [rest_place, rest_place, List.length_drop, List.length_drop, length_fill, length_fill]

/-- Before the literal there is a token. -/
theorem rest_of_lt (hn : n < g.before.length) : (g.place n d).rest = g.before[n] :: (g.place (n + 1) d).rest := by
  have hlt : n < (g.fill d).length := by
    rw [length_fill]
    omega
  rw [rest_place, rest_place, List.drop_eq_getElem_cons hlt]
  congr 1
  exact List.getElem_append_left hn

/-- At the gap the literal comes next, with the place of the gap. -/
theorem rest_at (g : Gap) : (g.place g.before.length d).rest = ⟨.intLiteral d, g.span⟩ :: g.after := by
  rw [rest_place, fill, List.drop_left]

/-- Before the gap the digits in it are not seen. -/
theorem kind?_of_lt (hn : n < g.before.length) : (g.place n d).kind? = some g.before[n].kind := by
  rw [Position.kind?, rest_of_lt d hn]
  rfl

theorem kind?_at (g : Gap) : (g.place g.before.length d).kind? = some (.intLiteral d) := by
  rw [Position.kind?, rest_at]
  rfl

private theorem nextSpan_of_lt (hn : n < g.before.length) : (g.place n d).nextSpan = g.before[n].span := by
  rw [Position.nextSpan, rest_of_lt d hn]

/-- The place of the literal does not depend on its digits. -/
theorem nextSpan_at (g : Gap) : (g.place g.before.length d).nextSpan = g.span := by
  rw [Position.nextSpan, rest_at]

private theorem last_place (hn : n ≤ g.before.length) : (g.place n d).last = (g.place n "").last := by
  cases n with
  | zero => rfl
  | succ n =>
    have hlt (d : String) : n < (Position.start (g.fill d)).rest.length := by
      have hlength := length_fill d g
      simp only [Position.start]
      omega
    have hspan (d : String) : (g.place (n + 1) d).last = g.before[n].span := by
      rw [place, Position.last_skip (hlt d)]
      exact congrArg Token.span (List.getElem_append_left hn)
    rw [hspan, hspan]

/-- After the literal all places are the same. -/
theorem place_after (g : Gap) : g.place (g.before.length + 1) d = g.place (g.before.length + 1) "" := by
  have hnext (d : String) :
      g.place (g.before.length + 1) d = ⟨g.after, (g.place g.before.length d).index + 1, g.span⟩ := by
    rw [← next_place, Position.next, rest_at]
  have hindex (d : String) : (g.place g.before.length d).index = g.before.length := by
    have hlength := length_fill d g
    rw [place, Position.index_skip (by simp only [Position.start]; omega)]
    exact Nat.zero_add _
  rw [hnext, hnext, hindex, hindex]

end Gap

/-! ### What a reader makes of them -/

/-- What comes of the literal where it is taken: something made of its value, or the error that it is out of range. -/
def Gap.taken (g : Gap) (n : Nat) (negative : Bool) (f : Int → EStateM.Result Stop Position α) (digits : String) :
    EStateM.Result Stop Position α :=
  match Parser.intValue? negative digits with
  | some v => f v
  | none => .error (.error ⟨g.span, .literalOutOfRange digits⟩) (g.place n digits)

/-- What comes of the tokens for each text of the literal: something in which the literal has no part, an error at a
token before it, an error because there is a literal, or what comes of its value. -/
inductive Meets (g : Gap) : (String → EStateM.Result Stop Position α) → Prop where
  | before {n : Nat} (hn : n ≤ g.before.length) (a : α) : Meets g fun d => .ok a (g.place n d)
  | error {t : Token} {e : Located ParseError} (ht : t ∈ g.before) (he : e.span = t.span) (n : Nat) :
    Meets g fun d => .error (.error e) (g.place n d)
  | exhausted (n : Nat) : Meets g fun d => .error .exhausted (g.place n d)
  | unexpected (x : Expected) (n : Nat) :
    Meets g fun d => .error (.error ⟨g.span, .unexpected (.intLiteral d) x⟩) (g.place n d)
  | value {negative : Bool} (hsign : negative = true → g.Signed) (f : Int → EStateM.Result Stop Position α) (n : Nat) :
    Meets g (g.taken n negative f)

/-- The reader sees only the value of a literal ahead. -/
class Uniform (r : Descent α) : Prop where
  meets : ∀ (g : Gap) (n : Nat), n ≤ g.before.length → Meets g fun d => r (g.place n d)

/-- The reader sees only the value of a literal that is not the next token. -/
class UniformBefore (r : Descent α) : Prop where
  meets : ∀ (g : Gap) (n : Nat), n < g.before.length → Meets g fun d => r (g.place n d)

instance Uniform.before (r : Descent α) [hr : Uniform r] : UniformBefore r :=
  ⟨fun g n hn => hr.meets g n (Nat.le_of_lt hn)⟩

/-- What a reader comes to that goes on from here. -/
def goOn (f : α → Descent β) : EStateM.Result Stop Position α → EStateM.Result Stop Position β
  | .ok a q => f a q
  | .error e q => .error e q

theorem bind_eq_goOn (r : Descent α) (f : α → Descent β) (p : Position) : (r >>= f) p = goOn f (r p) := by
  cases h : r p with
  | ok a q => exact bind_of_ok h
  | error e q => exact bind_of_error h

/-- Whoever goes on after the literal knows no more than its value. -/
private theorem Meets.goOn {g : Gap} {R : String → EStateM.Result Stop Position α} (hR : Meets g R) {f : α → Descent β}
    (hf : ∀ a, Uniform (f a)) : Meets g fun d => Descent.goOn f (R d) := by
  cases hR with
  | before hn a => exact (hf a).meets g _ hn
  | error ht he n => exact .error ht he n
  | exhausted n => exact .exhausted n
  | unexpected x n => exact .unexpected x n
  | @value negative hsign F n =>
    have hvalue := Meets.value hsign (fun v => Descent.goOn f (F v)) n
    have hgoOn (d : String) : Descent.goOn f (g.taken n negative F d) =
        g.taken n negative (fun v => Descent.goOn f (F v)) d := by
      unfold Gap.taken
      cases Parser.intValue? negative d <;> rfl
    simp only [hgoOn]
    exact hvalue

private theorem Meets.bind {g : Gap} {r : Descent α} {n : Nat} (hr : Meets g fun d => r (g.place n d))
    {f : α → Descent β} (hf : ∀ a, Uniform (f a)) : Meets g fun d => (r >>= f) (g.place n d) := by
  simp only [bind_eq_goOn]
  exact hr.goOn hf

/-! ### Sequences and single tokens -/

instance Uniform.bind (r : Descent α) (f : α → Descent β) [hr : Uniform r] [hf : ∀ a, Uniform (f a)] :
    Uniform (r >>= f) := ⟨fun g n hn => (hr.meets g n hn).bind hf⟩

instance Uniform.ite (c : Prop) [Decidable c] (r r' : Descent α) [Uniform r] [Uniform r'] :
    Uniform (if c then r else r') := by
  split <;> infer_instance

namespace UniformBefore

instance bind (r : Descent α) (f : α → Descent β) [hr : UniformBefore r] [hf : ∀ a, Uniform (f a)] :
    UniformBefore (r >>= f) := ⟨fun g n hn => (hr.meets g n hn).bind hf⟩

instance ite (c : Prop) [Decidable c] (r r' : Descent α) [UniformBefore r] [UniformBefore r'] :
    UniformBefore (if c then r else r') := by
  split <;> infer_instance

instance advance : UniformBefore advance := by
  refine ⟨fun g n hn => ?_⟩
  have hnext (d : String) : Descent.advance (g.place n d) = .ok () (g.place (n + 1) d) := by
    rw [← Gap.next_place]
    rfl
  simp only [hnext]
  exact .before hn ()

instance nextSpan (f : Span → Descent α) [hf : ∀ s, UniformBefore (f s)] : UniformBefore (nextSpan >>= f) := by
  refine ⟨fun g n hn => ?_⟩
  have hspan (d : String) : (Descent.nextSpan >>= f) (g.place n d) = f g.before[n].span (g.place n d) := by
    rw [← Gap.nextSpan_of_lt d hn]
    rfl
  simp only [hspan]
  exact (hf _).meets g n hn

instance outOfRange (text : String) : UniformBefore (outOfRange text : Descent α) := by
  refine ⟨fun g n hn => ?_⟩
  have herror (d : String) : (Descent.outOfRange text : Descent α) (g.place n d) =
      .error (.error ⟨g.before[n].span, .literalOutOfRange text⟩) (g.place n d) := by
    rw [← Gap.nextSpan_of_lt d hn]
    rfl
  simp only [herror]
  exact .error (List.getElem_mem hn) rfl n

/-- A literal whose digits are given. -/
instance intValue (negative : Bool) (text : String) (f : Int → Descent α) [hf : ∀ v, UniformBefore (f v)] :
    UniformBefore (intValue negative text >>= f) := by
  unfold Descent.intValue
  split
  · exact hf _
  · exact outOfRange text

instance doubleValue (text : String) (f : Double → Descent α) [hf : ∀ v, UniformBefore (f v)] :
    UniformBefore (doubleValue text >>= f) := by
  unfold Descent.doubleValue
  split
  · exact hf _
  · exact outOfRange text

/-- The token after the next one may be the literal. -/
theorem peekSecond {f : Option TokenKind → Descent α} {r : Descent α} (hliteral : ∀ d, f (some (.intLiteral d)) = r)
    [hr : UniformBefore r] (hf : ∀ k, UniformBefore (f k)) : UniformBefore (peekSecond >>= f) := by
  refine ⟨fun g n hn => ?_⟩
  have hpeek (d : String) : (Descent.peekSecond >>= f) (g.place n d) = f (g.place (n + 1) d).kind? (g.place n d) := by
    rw [← Gap.next_place]
    rfl
  simp only [hpeek]
  rcases Nat.lt_or_eq_of_le hn with hlt | heq
  · simp only [Gap.kind?_of_lt _ hlt]
    exact (hf _).meets g n hn
  · have hkind (d : String) : (g.place (n + 1) d).kind? = some (.intLiteral d) := by
      rw [show n + 1 = g.before.length from heq]
      exact g.kind?_at d
    simp only [hkind, hliteral]
    exact hr.meets g n hn

end UniformBefore

namespace Uniform

instance pure (a : α) : Uniform (Pure.pure a : Descent α) := ⟨fun _ _ hn => .before hn a⟩

instance exhausted : Uniform (exhausted : Descent α) := ⟨fun _ n _ => .exhausted n⟩

instance lastSpan : Uniform lastSpan := by
  refine ⟨fun g n hn => ?_⟩
  have hlast (d : String) : Descent.lastSpan (g.place n d) = .ok (g.place n "").last (g.place n d) := by
    rw [← Gap.last_place d hn]
    rfl
  simp only [hlast]
  exact .before hn _

instance nextSpan : Uniform nextSpan := by
  refine ⟨fun g n hn => ?_⟩
  have hspan : ∃ span, ∀ d, (g.place n d).nextSpan = span := by
    rcases Nat.lt_or_eq_of_le hn with hlt | rfl
    · exact ⟨_, fun d => Gap.nextSpan_of_lt d hlt⟩
    · exact ⟨_, fun d => g.nextSpan_at d⟩
  obtain ⟨span, hspan⟩ := hspan
  have hread (d : String) : Descent.nextSpan (g.place n d) = .ok span (g.place n d) := by
    rw [← hspan d]
    rfl
  simp only [hread]
  exact .before hn span

instance rounds : Uniform rounds := by
  refine ⟨fun g n hn => ?_⟩
  have hread (d : String) : Descent.rounds (g.place n d) = .ok ((g.place n "").rest.length + 1) (g.place n d) := by
    rw [← g.length_place d n]
    rfl
  simp only [hread]
  exact .before hn _

instance unexpected (x : Expected) : Uniform (unexpected x : Descent α) := by
  refine ⟨fun g n hn => ?_⟩
  rcases Nat.lt_or_eq_of_le hn with hlt | rfl
  · have herror (d : String) : (Descent.unexpected x : Descent α) (g.place n d) =
        .error (.error ⟨g.before[n].span, .unexpected g.before[n].kind x⟩) (g.place n d) := by
      have hplace : (g.place n d).unexpected x = ⟨g.before[n].span, .unexpected g.before[n].kind x⟩ := by
        rw [Position.unexpected, Gap.rest_of_lt d hlt]
      rw [← hplace]
      rfl
    simp only [herror]
    exact .error (List.getElem_mem hlt) rfl n
  · have herror (d : String) : (Descent.unexpected x : Descent α) (g.place g.before.length d) =
        .error (.error ⟨g.span, .unexpected (.intLiteral d) x⟩) (g.place g.before.length d) := by
      have hplace : (g.place g.before.length d).unexpected x = ⟨g.span, .unexpected (.intLiteral d) x⟩ := by
        rw [Position.unexpected, g.rest_at]
      rw [← hplace]
      rfl
    simp only [herror]
    exact .unexpected x _

/-- A choice by the next token, which may be the literal. -/
theorem peekLiteral {f : Option TokenKind → Descent α}
    (hliteral : ∀ g, Meets g fun d => f (some (.intLiteral d)) (g.place g.before.length d))
    (hf : ∀ k, UniformBefore (f k)) : Uniform (peekKind >>= f) := by
  refine ⟨fun g n hn => ?_⟩
  simp only [peekKind_bind]
  rcases Nat.lt_or_eq_of_le hn with hlt | rfl
  · simp only [Gap.kind?_of_lt _ hlt]
    exact (hf _).meets g n hlt
  · simp only [g.kind?_at]
    exact hliteral g

/-- A choice by the next token that takes no integer literal. -/
theorem peek {f : Option TokenKind → Descent α} {r : Descent α} (hliteral : ∀ d, f (some (.intLiteral d)) = r)
    [hr : Uniform r] (hf : ∀ k, UniformBefore (f k)) : Uniform (peekKind >>= f) := by
  refine peekLiteral (fun g => ?_) hf
  simp only [hliteral]
  exact hr.meets g _ (Nat.le_refl _)

instance takeSymbol (s : Symbol) : Uniform (take (.symbol s)) := by
  unfold take
  exact peek (r := Pure.pure false) (fun _ => rfl) fun k => inferInstance

instance takeKeyword (k : Keyword) : Uniform (take (.keyword k)) := by
  unfold take
  exact peek (r := Pure.pure false) (fun _ => rfl) fun k => inferInstance

instance symbol (s : Symbol) : Uniform (symbol s) := by unfold Descent.symbol; infer_instance

instance keyword (k : Keyword) : Uniform (keyword k) := by unfold Descent.keyword; infer_instance

instance ident : Uniform ident := by
  refine peek (r := Descent.unexpected .ident) (fun _ => rfl) fun k => ?_
  split <;> infer_instance

end Uniform

end Scriptlet.Descent
