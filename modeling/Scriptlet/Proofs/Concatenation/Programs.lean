import Scriptlet.Proofs.Concatenation.Carries
import Scriptlet.Proofs.Readable.Source
import Scriptlet.Proofs.Speculation.Equivalence

/-!
# Programs one after the other

`parseProgram_append`: if tokens are parsed as a program, then with more tokens after them they are parsed as this
program followed by what the others are parsed as, and if those are not parsed, for the same reason at the same place.

An item ends with a semicolon or a brace and is read without a look at what follows it (`Closes`), so that the items of
the first tokens are read in the same way when there are more.  What follows then begins at another place, but it is
read as from the start, since the first token of an item is looked at before anything else (`Continues.spanned_item`).
-/

namespace Scriptlet

namespace Descent

open Parse

variable {α β : Type}

/-! ### Readers that look no further -/

/-- The reader reads nothing at the end of the tokens. -/
class NeedsToken (r : Descent α) : Prop where
  rest_ne_nil : ∀ {p q : Position} {a : α}, r p = .ok a q → p.rest ≠ []

/-- What the first reader reads the second one reads with any tokens after it. -/
class Closes (r r' : Descent α) : Prop where
  closes : ∀ {more : List Token} {p p' q : Position} {a : α}, p.Longer more p' → r p = .ok a q →
    ∃ q', r' p' = .ok a q' ∧ q.Longer more q'

namespace NeedsToken

variable {p : Position}

/-- A token that is asked for is the next one. -/
private theorem kind?_of_ok {k : TokenKind} {x : Expected} {s : Span} {q : Position}
    (h : (take k >>= fun taken => if taken then lastSpan else unexpected x) p = .ok s q) : p.kind? = some k := by
  by_contra hk
  rw [bind_of_ok (take_of_ne hk)] at h
  cases h

instance (s : Symbol) : NeedsToken (symbol s) :=
  ⟨fun h => List.length_pos_iff.1 (Position.length_pos_of_kind (kind?_of_ok h))⟩

instance (k : Keyword) : NeedsToken (keyword k) :=
  ⟨fun h => List.length_pos_iff.1 (Position.length_pos_of_kind (kind?_of_ok h))⟩

instance : NeedsToken ident := by
  refine ⟨fun {p q a} h hp => ?_⟩
  have hk : p.kind? = none := by simp [Position.kind?, hp]
  unfold ident at h
  rw [peekKind_bind, hk] at h
  cases h

instance (x : Expected) : NeedsToken (unexpected x : Descent α) := ⟨fun h => by cases h⟩

instance : NeedsToken (exhausted : Descent α) := ⟨fun h => by cases h⟩

instance bind_first (r : Descent α) (f : α → Descent β) [hr : NeedsToken r] : NeedsToken (r >>= f) := by
  refine ⟨fun h => ?_⟩
  obtain ⟨a, q, hrp, -⟩ := exists_of_bind_ok h
  exact hr.rest_ne_nil hrp

/-- Tokens that are there after a first part were there before. -/
instance bind_second (r : Descent α) (f : α → Descent β) [hr : Forward r] [hf : ∀ a, NeedsToken (f a)] :
    NeedsToken (r >>= f) := by
  refine ⟨fun {p _ _} h hp => ?_⟩
  obtain ⟨a, q, hrp, hfq⟩ := exists_of_bind_ok h
  have hlength := (hr.reaches p).length
  rw [stop_of_ok hrp, hp] at hlength
  exact (hf a).rest_ne_nil hfq (List.length_eq_zero_iff.1 (Nat.le_zero.1 hlength))

instance (r : Descent (Span → α)) [NeedsToken r] : NeedsToken (spanned r) := by unfold spanned; infer_instance

instance block (e : Descent Expr) (depth : Nat) : NeedsToken (block e depth) := by
  cases depth <;> unfold Descent.block <;> infer_instance

instance (e : Descent Expr) (k : Keyword) : NeedsToken (decl e k) := by unfold decl; infer_instance

instance (e : Descent Expr) : NeedsToken (letItem e) := by unfold letItem; infer_instance

instance (b : Descent Block) : NeedsToken (func b) := by unfold func; infer_instance

/-- A choice by the next token. -/
private theorem peek {f : Option TokenKind → Descent α} (h : ∀ k, NeedsToken (f k)) : NeedsToken (peekKind >>= f) :=
  inferInstance

instance (e : Descent Expr) (b : Descent Block) : NeedsToken (item e b) := by
  refine peek fun k => ?_
  split <;> infer_instance

end NeedsToken

namespace Closes

variable {p p' q : Position}

instance pure (a : α) : Closes (Pure.pure a : Descent α) (Pure.pure a) := by
  refine ⟨fun {_ _ p' _ _} h hr => ?_⟩
  cases hr
  exact ⟨p', rfl, h⟩

instance : Closes lastSpan lastSpan := by
  refine ⟨fun {_ _ p' _ _} h hr => ?_⟩
  cases hr
  exact ⟨p', congrArg (EStateM.Result.ok · p') h.last_eq, h⟩

instance (x : Expected) (r' : Descent α) : Closes (unexpected x : Descent α) r' := ⟨fun _ h => by cases h⟩

instance (r' : Descent α) : Closes (exhausted : Descent α) r' := ⟨fun _ h => by cases h⟩

private theorem closes_take (k : TokenKind) (x : Expected) :
    Closes (take k >>= fun taken => if taken then lastSpan else unexpected x)
      (take k >>= fun taken => if taken then lastSpan else unexpected x) := by
  refine ⟨fun {more p p' q s} h hr => ?_⟩
  have hk := NeedsToken.kind?_of_ok hr
  have hmore : p.rest = [] → more = [] := fun hp =>
    absurd hp (List.length_pos_iff.1 (Position.length_pos_of_kind hk))
  have hnext := h.next hmore
  rw [bind_of_ok (take_of_kind hk)] at hr
  cases hr
  rw [bind_of_ok (take_of_kind ((h.kind?_eq hmore).trans hk))]
  exact ⟨p'.next, congrArg (EStateM.Result.ok · p'.next) hnext.last_eq, hnext⟩

instance (s : Symbol) : Closes (symbol s) (symbol s) := closes_take _ _

instance (k : Keyword) : Closes (keyword k) (keyword k) := closes_take _ _

instance bind (r r' : Descent α) (f f' : α → Descent β) [hr : Closes r r'] [hf : ∀ a, Closes (f a) (f' a)] :
    Closes (r >>= f) (r' >>= f') := by
  refine ⟨fun h hrf => ?_⟩
  obtain ⟨a, q, hrp, hfq⟩ := exists_of_bind_ok hrf
  obtain ⟨q', hrp', hq'⟩ := hr.closes h hrp
  rw [bind_of_ok hrp']
  exact (hf a).closes hq' hfq

/-- A first part may look at what follows it if something has to follow. -/
instance bind_carries (r r' : Descent α) (f f' : α → Descent β) [hr : Carries r r'] [hneeds : ∀ a, NeedsToken (f a)]
    [hf : ∀ a, Closes (f a) (f' a)] : Closes (r >>= f) (r' >>= f') := by
  refine ⟨fun {more p p' _ _} h hrf => ?_⟩
  obtain ⟨a, q, hrp, hfq⟩ := exists_of_bind_ok hrf
  have hcarries := hr.carries more p p' h
  rw [stop_of_ok hrp, hrp] at hcarries
  obtain ⟨q', hrp', hq'⟩ := hcarries fun hq => absurd hq ((hneeds a).rest_ne_nil hfq)
  rw [bind_of_ok hrp']
  exact (hf a).closes hq' hfq

instance bind_rounds (f f' : Nat → Descent α) [hf : ∀ n m, Closes (f n) (f' (m + n))] :
    Closes (rounds >>= f) (rounds >>= f') := by
  refine ⟨fun {more p p' q a} h hr => ?_⟩
  have hrounds : p'.rest.length + 1 = more.length + (p.rest.length + 1) := by
    rw [h.rest_eq, List.length_append]
    omega
  have hcloses := (hf (p.rest.length + 1) more.length).closes h hr
  rw [← hrounds] at hcloses
  exact hcloses

/-- A choice by the next token. -/
private theorem peek {f f' : Option TokenKind → Descent α} (hneeds : ∀ k, NeedsToken (f k))
    (hf : ∀ k, Closes (f k) (f' k)) : Closes (peekKind >>= f) (peekKind >>= f') := inferInstance

instance (r r' : Descent (Span → α)) [Closes r r'] [NeedsToken r] : Closes (spanned r) (spanned r') := by
  unfold spanned; infer_instance

section Items

variable (e e' : Descent Expr) [Carries e e']

instance (k : Keyword) : Closes (decl e k) (decl e' k) := by unfold decl; infer_instance

instance : Closes (letItem e) (letItem e') := by unfold letItem; infer_instance

instance block (depth m : Nat) : Closes (block e depth) (block e' (m + depth)) := by
  cases depth with
  | zero => exact inferInstanceAs (Closes exhausted _)
  | succ depth =>
    rw [← Nat.add_assoc]
    unfold Descent.block
    infer_instance

variable (b b' : Descent Block) [Closes b b'] [NeedsToken b]

instance : Closes (func b) (func b') := by unfold func; infer_instance

instance : Closes (item e b) (item e' b') := by
  refine peek (fun k => ?_) fun k => ?_
  · split <;> infer_instance
  · split <;> infer_instance

end Items

end Closes

/-! ### The items of the first tokens -/

/-- What comes after depends on the outcome of what comes first alone. -/
private theorem bind_of_eq {r s : Descent α} {p q : Position} (h : r p = s q) (f : α → Descent β) :
    (r >>= f) p = (s >>= f) q := by
  cases hs : s q with
  | ok a q' => rw [bind_of_ok (h.trans hs), bind_of_ok hs]
  | error e q' => rw [bind_of_error (h.trans hs), bind_of_error hs]

section Items

variable {i : Descent Item} {p p' q : Position} {is : List Item} {more : List Token} {fuel n : Nat}

/-- Items that are read up to the end are read with more tokens after them, and then what is made of these. -/
private theorem itemsToEnd_append (i' : Descent Item) [hcloses : Closes i i'] (hreads : ReadsBelow n i)
    (hn : p.rest.length < n) (h : p.Longer more p') (hr : itemsToEnd i fuel p = .ok is q) :
    is.length ≤ p.rest.length ∧ ∃ q' : Position, q'.rest = more ∧
      ∀ rounds, itemsToEnd i' (rounds + is.length) p' =
        (itemsToEnd i' rounds >>= fun js => Pure.pure (is ++ js)) q' := by
  induction fuel generalizing p p' is with
  | zero => cases hr
  | succ fuel ih =>
    unfold itemsToEnd at hr
    rw [peekKind_bind] at hr
    split at hr
    · next hnone =>
      have hp : p.rest = [] := by simpa [Position.kind?] using hnone
      have hrest : p'.rest = more := by rw [h.rest_eq, hp, List.nil_append]
      cases hr
      exact ⟨Nat.zero_le _, p', hrest, fun rounds => (congrFun (bind_pure _) p').symm⟩
    · next hsome =>
      have hmore : p.rest = [] → more = [] := fun hp => absurd (by simp [Position.kind?, hp]) hsome
      obtain ⟨x, q₁, hx, hr⟩ := exists_of_bind_ok hr
      obtain ⟨xs, q₂, hxs, hr⟩ := exists_of_bind_ok hr
      cases hr
      obtain ⟨q₁', hx', hq₁⟩ := hcloses.closes h hx
      have hlength := ((hreads p hn).reaches hx).length
      obtain ⟨hle, q', hrest, hrounds⟩ := ih (by omega) hq₁ hxs
      refine ⟨by rw [List.length_cons]; omega, q', hrest, fun rounds => ?_⟩
      have hsome' : ¬ p'.kind?.isNone = true := by rwa [h.kind?_eq hmore]
      rw [List.length_cons, ← Nat.add_assoc, itemsToEnd, peekKind_bind, if_neg hsome', bind_of_ok hx',
        bind_of_eq (hrounds rounds), bind_assoc]
      simp only [pure_bind, List.cons_append]

end Items

/-! ### The items of the other tokens -/

/-- A part that is carried from here makes what comes after it carried from here. -/
private theorem Continues.bind {r r' : Descent α} {f f' : α → Descent β} {p p' : Position}
    (h : Continues [] (r p) (r' p')) [hf : ∀ a, Carries (f a) (f' a)] :
    Continues [] ((r >>= f) p) ((r' >>= f') p') := by
  cases hr : r p with
  | ok a q =>
    rw [hr] at h
    obtain ⟨q', hr', hq⟩ := h
    rw [bind_of_ok hr, bind_of_ok hr']
    exact (hf a).carries [] q q' hq fun _ => rfl
  | error e q =>
    rw [hr] at h
    rw [bind_of_error hr]
    cases e with
    | exhausted => trivial
    | error e =>
      obtain ⟨q', hr'⟩ := h
      exact ⟨q', bind_of_error hr'⟩

section Anywhere

variable {p p' : Position}

/-- Where a keyword is next, what was before it makes no difference. -/
private theorem Continues.bind_keyword {k : Keyword} {g g' : Span → Descent α} [hg : ∀ s, Carries (g s) (g' s)]
    (hrest : p'.rest = p.rest) (hk : p.kind? = some (.keyword k)) :
    Continues [] ((keyword k >>= g) p) ((keyword k >>= g') p') := by
  have hkind : p'.kind? = p.kind? := by rw [Position.kind?, hrest, Position.kind?]
  have hnext : p.next.Longer [] p'.next := by
    have hpos := Position.length_pos_of_kind hk
    unfold Position.next
    rw [hrest]
    cases hp : p.rest with
    | nil => simp [hp] at hpos
    | cons t ts => exact ⟨(List.append_nil ts).symm, rfl⟩
  have hread {q : Position} (hq : q.kind? = some (.keyword k)) : keyword k q = .ok q.next.last q.next := by
    unfold keyword
    rw [bind_of_ok (take_of_kind hq)]
    rfl
  rw [bind_of_ok (hread hk), bind_of_ok (hread (hkind.trans hk)), hnext.last_eq]
  exact (hg _).carries [] _ _ hnext fun _ => rfl

variable (e e' : Descent Expr) (b b' : Descent Block) [Carries e e'] [Carries b b']

/-- An item is read in the same way wherever its tokens stand. -/
private theorem Continues.item (hrest : p'.rest = p.rest) (hne : p.rest ≠ []) :
    Continues [] (item e b p) (item e' b' p') := by
  have hkind : p'.kind? = p.kind? := by rw [Position.kind?, hrest, Position.kind?]
  unfold Descent.item
  rw [peekKind_bind, peekKind_bind, hkind]
  generalize hk : p.kind? = k
  split
  · exact Continues.bind (Continues.bind_keyword hrest hk)
  · exact Continues.bind_keyword hrest hk
  · refine ⟨p', ?_⟩
    have hunexpected : p'.unexpected .item = p.unexpected .item := by
      obtain ⟨t, ts, hp⟩ := List.exists_cons_of_ne_nil hne
      unfold Position.unexpected
      rw [hrest, hp]
    exact congrArg (fun e => EStateM.Result.error (Stop.error e) p') hunexpected

private theorem Continues.spanned {r r' : Descent (Span → α)} (h : Continues [] (r p) (r' p'))
    (hrest : p'.rest = p.rest) (hne : p.rest ≠ []) : Continues [] (spanned r p) (spanned r' p') := by
  have hspan : p'.nextSpan = p.nextSpan := by
    obtain ⟨t, ts, hp⟩ := List.exists_cons_of_ne_nil hne
    unfold Position.nextSpan
    rw [hrest, hp]
  have hbuild : Continues [] ((r >>= fun build => lastSpan >>= fun last => pure (build (p.nextSpan.through last))) p)
      ((r' >>= fun build => lastSpan >>= fun last => pure (build (p.nextSpan.through last))) p') := h.bind
  rw [← hspan] at hbuild
  have hstart (q : Position) (r : Descent (Span → α)) : Descent.spanned r q =
      (r >>= fun build => lastSpan >>= fun last => Pure.pure (build (q.nextSpan.through last))) q := rfl
  rw [hstart, hstart]
  rw [hspan] at hbuild ⊢
  exact hbuild

end Anywhere

/-- Items are read in the same way wherever their tokens stand, with any number of rounds more. -/
private theorem itemsToEnd_anywhere {i i' : Descent Item} [Carries i i'] {p p' : Position} (hrest : p'.rest = p.rest)
    (hne : p.rest ≠ []) (h : Continues [] (i p) (i' p')) (fuel m : Nat) :
    Continues [] (itemsToEnd i fuel p) (itemsToEnd i' (m + fuel) p') := by
  cases fuel with
  | zero => trivial
  | succ fuel =>
    have hkind : p'.kind? = p.kind? := by rw [Position.kind?, hrest, Position.kind?]
    have hsome : ¬ p.kind?.isNone = true := by
      obtain ⟨t, ts, hp⟩ := List.exists_cons_of_ne_nil hne
      simp [Position.kind?, hp]
    rw [← Nat.add_assoc, itemsToEnd, itemsToEnd, peekKind_bind, peekKind_bind, hkind, if_neg hsome, if_neg hsome]
    exact h.bind

/-! ### Programs -/

/-- An item with its span, in which expressions and blocks nest less than `depth` times. -/
def wholeItem (depth : Nat) : Descent Item := spanned (item (expr depth) (block (expr depth) depth))

private theorem wholeItem_reads (depth : Nat) : ReadsBelow depth (wholeItem depth) := fun p hp =>
  spanned_reads (item_reads (expr_reads depth) (block_reads (expr_reads depth) depth (Nat.le_refl _)) p hp)

instance (depth m : Nat) : Carries (wholeItem depth) (wholeItem (m + depth)) := by unfold wholeItem; infer_instance

instance (depth m : Nat) : Closes (wholeItem depth) (wholeItem (m + depth)) := by unfold wholeItem; infer_instance

private theorem program_start (depth : Nat) (tokens : List Token) : program depth (.start tokens) =
    (itemsToEnd (wholeItem depth) (tokens.length + 1) >>= fun items => Pure.pure (Program.mk items)) (.start tokens) :=
  rfl

end Descent

namespace Parse

open Descent

variable {tokens a b : List Token} {p : Program}

/-- The items of a parse are what the descent reads. -/
private theorem items_eq_ok : parseProgram tokens = .ok p ↔
    ∃ q, itemsToEnd (wholeItem (depthFor tokens)) (tokens.length + 1) (.start tokens) = .ok p.items q := by
  rw [parseProgram_eq_ok, program_start]
  constructor
  · rintro ⟨q, hq⟩
    obtain ⟨items, q', hitems, hp⟩ := exists_of_bind_ok hq
    cases hp
    exact ⟨_, hitems⟩
  · rintro ⟨q, hitems⟩
    exact ⟨q, bind_of_ok hitems⟩

private theorem items_eq_error {e : Located ParseError} : parseProgram tokens = .error e ↔
    ∃ q, itemsToEnd (wholeItem (depthFor tokens)) (tokens.length + 1) (.start tokens) = .error (.error e) q := by
  rw [parseProgram_eq_error, program_start]
  constructor
  · rintro ⟨q, hq⟩
    cases hitems : itemsToEnd (wholeItem (depthFor tokens)) (tokens.length + 1) (.start tokens) with
    | ok items q' =>
      rw [bind_of_ok hitems] at hq
      cases hq
    | error e' q' =>
      rw [bind_of_error hitems] at hq
      cases hq
      exact ⟨_, rfl⟩
  · rintro ⟨q, hitems⟩
    exact ⟨q, bind_of_error hitems⟩

/-- Tokens that are parsed as a program, with others after them, are parsed as this program and then what the others
are parsed as, or fail as these do. -/
theorem parseProgram_append (h : parseProgram a = .ok p) (b : List Token) :
    parseProgram (a ++ b) = (parseProgram b).map fun q => ⟨p.items ++ q.items⟩ := by
  by_cases hb : b = []
  · subst hb
    have hnil : parseProgram [] = .ok ⟨[]⟩ := rfl
    rw [List.append_nil, hnil, h]
    simp [Except.map]
  have hdepth : depthFor (a ++ b) = b.length + depthFor a ∧ depthFor (a ++ b) = a.length + depthFor b := by
    simp only [depthFor, List.length_append]
    omega
  have hcloses : Closes (wholeItem (depthFor a)) (wholeItem (depthFor (a ++ b))) := by
    rw [hdepth.1]
    infer_instance
  have hcarries : Carries (wholeItem (depthFor b)) (wholeItem (depthFor (a ++ b))) := by
    rw [hdepth.2]
    infer_instance
  -- the items of the first tokens
  obtain ⟨q, hitems⟩ := items_eq_ok.1 h
  obtain ⟨hle, q', hrest, hrounds⟩ := itemsToEnd_append (wholeItem (depthFor (a ++ b))) (wholeItem_reads (depthFor a))
    (Nat.lt_succ_self _) (⟨rfl, rfl⟩ : (Position.start a).Longer b (.start (a ++ b))) hitems
  have hfuel : a.length - p.items.length + (b.length + 1) + p.items.length = (a ++ b).length + 1 := by
    have hle : p.items.length ≤ a.length := hle
    rw [List.length_append]
    omega
  have hwhole := hrounds (a.length - p.items.length + (b.length + 1))
  rw [hfuel] at hwhole
  -- and those of the others, which begin where these end
  have hfirst : Continues [] (wholeItem (depthFor b) (.start b)) (wholeItem (depthFor (a ++ b)) q') := by
    rw [hdepth.2]
    exact (Continues.item _ _ _ _ hrest hb).spanned hrest hb
  have hothers := itemsToEnd_anywhere hrest hb hfirst (b.length + 1) (a.length - p.items.length)
  cases hparse : parseProgram b with
  | ok r =>
    obtain ⟨s, hs⟩ := items_eq_ok.1 hparse
    rw [hs] at hothers
    obtain ⟨s', hs', -⟩ := hothers
    rw [bind_of_ok hs'] at hwhole
    exact items_eq_ok.2 ⟨_, hwhole⟩
  | error e =>
    obtain ⟨s, hs⟩ := items_eq_error.1 hparse
    rw [hs] at hothers
    obtain ⟨s', hs'⟩ := hothers
    rw [bind_of_error hs'] at hwhole
    exact items_eq_error.2 ⟨_, hwhole⟩

/-- `let x = 1 ; `, by its tokens. -/
private def declaration : List TokenKind :=
  [.keyword .letKw, .identifier "x", .symbol .assign, .intLiteral "1", .symbol .semicolon]

/-- A declaration that breaks off fails after another one as it does alone. -/
theorem declaration_append : ∃ p, parseProgram (Lexical.spacedTokens declaration) = .ok p ∧
    parseProgram (Lexical.spacedTokens declaration ++ [⟨.keyword .letKw, ⟨12, 3⟩⟩]) =
      .error ⟨⟨15, 0⟩, .unexpectedEof .ident⟩ := by
  obtain ⟨p, hp⟩ : ∃ p, parseProgram (Lexical.spacedTokens declaration) = .ok p := ⟨_, rfl⟩
  have hother : parseProgram [⟨.keyword .letKw, ⟨12, 3⟩⟩] = .error ⟨⟨15, 0⟩, .unexpectedEof .ident⟩ := rfl
  refine ⟨p, hp, ?_⟩
  rw [parseProgram_append hp, hother]
  rfl

end Parse

end Scriptlet
