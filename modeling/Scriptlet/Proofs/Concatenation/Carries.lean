import Scriptlet.Proofs.Descent.Forward

/-!
# Readers and the tokens after what they read

`Carries r r'` says that the reader `r'` does with more tokens at the end what `r` does without them: it reads the same,
or fails with the same error.  This holds where `r` does not stop at the end of its tokens, as it may have seen that
there were no more, and where no tokens are added.  The number of a place makes no difference, and a loop of `r'` may
have more rounds than one of `r`, of which nothing is said when its rounds run out.

Like `Forward` this is a class, so that it is found for a reader from its parts.
-/

namespace Scriptlet

namespace Parse.Position

/-- The place in the same tokens with more of them at the end, whatever its number. -/
structure Longer (more : List Token) (p p' : Position) : Prop where
  rest_eq : p'.rest = p.rest ++ more
  last_eq : p'.last = p.last

namespace Longer

variable {more : List Token} {p p' : Position}

/-- The two places have the same next token, or there are none and none are added. -/
private theorem cases_rest (h : p.Longer more p') (hmore : p.rest = [] → more = []) :
    (∃ t ts, p.rest = t :: ts ∧ p'.rest = t :: (ts ++ more)) ∨ p.rest = [] ∧ p'.rest = [] ∧ more = [] := by
  have hrest := h.rest_eq
  cases hp : p.rest with
  | nil =>
    have hnil := hmore hp
    rw [hp, hnil] at hrest
    exact .inr ⟨rfl, hrest, hnil⟩
  | cons t ts =>
    rw [hp] at hrest
    exact .inl ⟨t, ts, rfl, hrest⟩

/-- More tokens at the end do not change the next one, unless they are the next ones. -/
theorem kind?_eq (h : p.Longer more p') (hmore : p.rest = [] → more = []) : p'.kind? = p.kind? := by
  unfold kind?
  rcases h.cases_rest hmore with ⟨t, ts, hp, hp'⟩ | ⟨hp, hp', -⟩
  · rw [hp, hp']
    rfl
  · rw [hp, hp']

private theorem nextSpan_eq (h : p.Longer more p') (hmore : p.rest = [] → more = []) : p'.nextSpan = p.nextSpan := by
  unfold nextSpan
  rcases h.cases_rest hmore with ⟨t, ts, hp, hp'⟩ | ⟨hp, hp', -⟩
  · rw [hp, hp']
  · rw [hp, hp', eofSpan, eofSpan, h.last_eq]

private theorem unexpected_eq (h : p.Longer more p') (hmore : p.rest = [] → more = []) (x : Expected) :
    p'.unexpected x = p.unexpected x := by
  unfold unexpected
  rcases h.cases_rest hmore with ⟨t, ts, hp, hp'⟩ | ⟨hp, hp', -⟩
  · rw [hp, hp']
  · rw [hp, hp', eofSpan, eofSpan, h.last_eq]

/-- With more tokens at the end both places move on together. -/
theorem next (h : p.Longer more p') (hmore : p.rest = [] → more = []) : p.next.Longer more p'.next := by
  unfold Position.next
  rcases h.cases_rest hmore with ⟨t, ts, hp, hp'⟩ | ⟨hp, hp', -⟩
  · rw [hp, hp']
    exact ⟨rfl, rfl⟩
  · rw [hp, hp']
    exact h

end Longer

end Parse.Position

namespace Descent

open Parse
open Scriptlet.Parser (Level)

variable {α β : Type}

/-! ### Places where readers stop -/

theorem stop_of_ok {p : Position} {r : Descent α} {a : α} {q : Position} (h : r p = .ok a q) : stop r p = q := by
  rw [stop, h]

private theorem stop_of_error {p : Position} {r : Descent α} {e : Stop} {q : Position} (h : r p = .error e q) :
    stop r p = q := by
  rw [stop, h]

private theorem stop_bind_of_ok {p : Position} {r : Descent α} {f : α → Descent β} {a : α} {q : Position}
    (h : r p = .ok a q) : stop (r >>= f) p = stop (f a) q := by
  unfold stop
  rw [bind_of_ok h]

/-! ### More tokens -/

/-- The second outcome is that of the first, with more tokens ahead.  Nothing is said where rounds have run out. -/
def Continues (more : List Token) (R R' : EStateM.Result Stop Position α) : Prop :=
  match R with
  | .ok x q => ∃ q', R' = .ok x q' ∧ q.Longer more q'
  | .error (.error e) _ => ∃ q', R' = .error (.error e) q'
  | .error .exhausted _ => True

/-- The second reader reads with more tokens what the first one reads without them. -/
class Carries (r r' : Descent α) : Prop where
  forward : Forward r
  carries : ∀ (more : List Token) (p p' : Position), p.Longer more p' → ((stop r p).rest = [] → more = []) →
    Continues more (r p) (r' p')

namespace Carries

variable {p p' : Position}

/-! ### Sequences and single tokens -/

instance pure (a : α) : Carries (Pure.pure a : Descent α) (Pure.pure a) :=
  ⟨inferInstance, fun _ _ p' h _ => ⟨p', rfl, h⟩⟩

/-- A reader that stops before the end has begun before it. -/
private theorem rest_of_stop {more : List Token} {r : Descent α} (hr : Forward r) {p : Position}
    (h : (stop r p).rest = [] → more = []) : p.rest = [] → more = [] := by
  intro hp
  have hlength := (hr.reaches p).length
  rw [hp] at hlength
  exact h (List.length_eq_zero_iff.1 (Nat.le_zero.1 hlength))

/-- What comes after a first part is read where that part has stopped, which was before the end if it stops before. -/
instance bind (r r' : Descent α) (f f' : α → Descent β) [hr : Carries r r'] [hf : ∀ a, Carries (f a) (f' a)] :
    Carries (r >>= f) (r' >>= f') where
  forward := by
    have := hr.forward
    have := fun a => (hf a).forward
    infer_instance
  carries more p p' h hmore := by
    have hcarries := hr.carries more p p' h
    cases hrp : r p with
    | ok a q =>
      rw [stop_bind_of_ok hrp] at hmore
      rw [stop_of_ok hrp, hrp] at hcarries
      obtain ⟨q', hrp', hq'⟩ := hcarries (rest_of_stop (hf a).forward hmore)
      rw [bind_of_ok hrp, bind_of_ok hrp']
      exact (hf a).carries more q q' hq' hmore
    | error e q =>
      have herror : (r >>= f) p = .error e q := bind_of_error hrp
      rw [stop_of_error herror] at hmore
      rw [stop_of_error hrp, hrp] at hcarries
      rw [herror]
      cases e with
      | exhausted => trivial
      | error e =>
        obtain ⟨q', hrp'⟩ := hcarries hmore
        exact ⟨q', bind_of_error hrp'⟩

/-- Where there are more tokens a loop may take as many rounds more. -/
instance bind_rounds (f f' : Nat → Descent α) [hf : ∀ n m, Carries (f n) (f' (m + n))] :
    Carries (rounds >>= f) (rounds >>= f') where
  forward := by
    have := fun n => (hf n 0).forward
    infer_instance
  carries more p p' h hmore := by
    have hrounds : p'.rest.length + 1 = more.length + (p.rest.length + 1) := by
      rw [h.rest_eq, List.length_append]
      omega
    have hcarries := (hf (p.rest.length + 1) more.length).carries more p p' h hmore
    rw [← hrounds] at hcarries
    exact hcarries

instance ite (c : Prop) [Decidable c] (r r' s s' : Descent α) [Carries r r'] [Carries s s'] :
    Carries (if c then r else s) (if c then r' else s') := by
  split <;> infer_instance

instance : Carries peekKind peekKind :=
  ⟨inferInstance, fun _ _ p' h hmore => ⟨p', congrArg (EStateM.Result.ok · p') (h.kind?_eq hmore), h⟩⟩

instance : Carries nextSpan nextSpan :=
  ⟨inferInstance, fun _ _ p' h hmore => ⟨p', congrArg (EStateM.Result.ok · p') (h.nextSpan_eq hmore), h⟩⟩

instance : Carries lastSpan lastSpan :=
  ⟨inferInstance, fun _ _ p' h _ => ⟨p', congrArg (EStateM.Result.ok · p') h.last_eq, h⟩⟩

instance : Carries advance advance := by
  refine ⟨inferInstance, fun more p p' h hmore => ⟨p'.next, rfl, h.next fun hp => hmore ?_⟩⟩
  have hnext : p.next = p := by simp [Position.next, hp]
  show p.next.rest = []
  rw [hnext, hp]

instance (x : Expected) : Carries (unexpected x : Descent α) (unexpected x) := by
  refine ⟨inferInstance, fun more p p' h hmore => ⟨p', ?_⟩⟩
  exact congrArg (fun e => EStateM.Result.error (Stop.error e) p') (h.unexpected_eq hmore x)

instance (text : String) : Carries (outOfRange text : Descent α) (outOfRange text) := by
  refine ⟨inferInstance, fun more p p' h hmore => ⟨p', ?_⟩⟩
  exact congrArg (fun s => EStateM.Result.error (Stop.error ⟨s, .literalOutOfRange text⟩) p') (h.nextSpan_eq hmore)

/-- A reader without rounds ends at once. -/
instance exhausted (r' : Descent α) : Carries (exhausted : Descent α) r' :=
  ⟨inferInstance, fun _ _ _ _ _ => trivial⟩

instance (k : TokenKind) : Carries (take k) (take k) := by unfold take; infer_instance

instance (s : Symbol) : Carries (symbol s) (symbol s) := by unfold symbol; infer_instance

instance (k : Keyword) : Carries (keyword k) (keyword k) := by unfold keyword; infer_instance

instance : Carries separator separator := by unfold separator; infer_instance

instance (negative : Bool) (text : String) : Carries (intValue negative text) (intValue negative text) := by
  unfold intValue; split <;> infer_instance

instance (text : String) : Carries (doubleValue text) (doubleValue text) := by
  unfold doubleValue; split <;> infer_instance

/-- A choice by the next token. -/
private theorem peek {f f' : Option TokenKind → Descent α} (h : ∀ k, Carries (f k) (f' k)) :
    Carries (peekKind >>= f) (peekKind >>= f') := inferInstance

instance : Carries ident ident := by
  refine peek fun k => ?_
  split <;> infer_instance

/-! ### The token after a name -/

/-- A name is consumed, so that what comes after it stops after it. -/
private theorem length_stop_lt {name : String} (hk : p.kind? = some (.identifier name)) (g : Ident → Descent α)
    [hg : ∀ a, Forward (g a)] : (stop (ident >>= g) p).rest.length < p.rest.length := by
  have hnext := p.length_next
  have hpos := Position.length_pos_of_kind hk
  have hstop : stop (ident >>= g) p = stop (g ⟨name, p.nextSpan⟩) p.next := by
    unfold stop
    rw [bind_of_ok (ident_of_kind hk)]
  have hreaches := ((hg ⟨name, p.nextSpan⟩).reaches p.next).length
  rw [hstop]
  omega

private theorem ident_of_ne (hk : ∀ name, p.kind? ≠ some (.identifier name)) :
    ident p = .error (.error (p.unexpected .ident)) p := by
  unfold ident
  rw [peekKind_bind]
  cases h : p.kind? with
  | none => rfl
  | some k => cases k <;> first | rfl | exact absurd h (hk _)

/-- Readers of names may be chosen by the token after the next one, since they see it themselves unless the next one
is no name. -/
private theorem second (c : Option TokenKind) (g g' h h' : Ident → Descent α) [hg : ∀ a, Carries (g a) (g' a)]
    [hh : ∀ a, Carries (h a) (h' a)] :
    Carries (peekSecond >>= fun k => if k = c then ident >>= g else ident >>= h)
      (peekSecond >>= fun k => if k = c then ident >>= g' else ident >>= h') := by
  have hforward := fun a => (hg a).forward
  have hforward' := fun a => (hh a).forward
  refine ⟨inferInstance, fun more p p' hp hstop => ?_⟩
  have hsecond (r s : Descent α) : stop (peekSecond >>= fun k => if k = c then r else s) p =
      stop (if p.next.kind? = c then r else s) p := rfl
  rw [hsecond] at hstop
  show Continues more ((if p.next.kind? = c then ident >>= g else ident >>= h) p)
    ((if p'.next.kind? = c then ident >>= g' else ident >>= h') p')
  by_cases hk : ∃ name, p.kind? = some (.identifier name)
  · obtain ⟨name, hk⟩ := hk
    have hpos := Position.length_pos_of_kind hk
    have hnext := p.length_next
    have hne : p.rest = [] → more = [] := fun hnil => absurd hnil (List.length_pos_iff.1 hpos)
    -- if the name is the last token, whoever reads it stops at the end
    have hmore : p.next.rest = [] → more = [] := by
      intro hnil
      rw [hnil, List.length_nil] at hnext
      refine hstop (List.length_eq_zero_iff.1 ?_)
      split
      · have hlt := length_stop_lt hk g
        omega
      · have hlt := length_stop_lt hk h
        omega
    rw [(hp.next hne).kind?_eq hmore]
    split at hstop
    · next hc => simpa only [if_pos hc] using (Carries.bind ident ident g g').carries more p p' hp hstop
    · next hc => simpa only [if_neg hc] using (Carries.bind ident ident h h').carries more p p' hp hstop
  · rw [not_exists] at hk
    -- no name is there, and both readers say so
    have hfail (g : Ident → Descent α) : (ident >>= g) p = .error (.error (p.unexpected .ident)) p :=
      bind_of_error (ident_of_ne hk)
    have hmore : p.rest = [] → more = [] := by
      split at hstop
      · rwa [stop_of_error (hfail g)] at hstop
      · rwa [stop_of_error (hfail h)] at hstop
    have hfail' (g : Ident → Descent α) : (ident >>= g) p' = .error (.error (p.unexpected .ident)) p' := by
      rw [← hp.unexpected_eq hmore]
      exact bind_of_error (ident_of_ne fun name => hp.kind?_eq hmore ▸ hk name)
    have hleft : (if p.next.kind? = c then ident >>= g else ident >>= h) p =
        .error (.error (p.unexpected .ident)) p := by
      split <;> exact hfail _
    have hright : (if p'.next.kind? = c then ident >>= g' else ident >>= h') p' =
        .error (.error (p.unexpected .ident)) p' := by
      split <;> exact hfail' _
    rw [hleft, hright]
    exact ⟨p', rfl⟩

/-! ### Combinations -/

instance (r r' : Descent (Span → α)) [Carries r r'] : Carries (spanned r) (spanned r') := by
  unfold spanned; infer_instance

instance items (item item' : Descent α) [Carries item item'] (fuel m : Nat) :
    Carries (items item fuel) (items item' (m + fuel)) := by
  induction fuel with
  | zero => exact exhausted _
  | succ fuel ih =>
    rw [← Nat.add_assoc]
    unfold Descent.items
    infer_instance

instance (item item' : Descent α) [Carries item item'] : Carries (list item) (list item') := by
  unfold list; infer_instance

/-! ### Expressions -/

instance leftAssocFrom (ops : Level) (operand operand' : Descent Expr) [Carries operand operand']
    (fuel m : Nat) (lhs : Expr) :
    Carries (leftAssocFrom ops operand fuel lhs) (leftAssocFrom ops operand' (m + fuel) lhs) := by
  induction fuel generalizing lhs with
  | zero => exact exhausted _
  | succ fuel ih =>
    rw [← Nat.add_assoc]
    refine peek fun k => ?_
    split <;> infer_instance

instance (ops : Level) (operand operand' : Descent Expr) [Carries operand operand'] :
    Carries (leftAssoc ops operand) (leftAssoc ops operand') := by
  unfold leftAssoc; infer_instance

instance powerFrom (operand operand' : Descent Expr) [Carries operand operand'] (fuel m : Nat) :
    Carries (powerFrom operand fuel) (powerFrom operand' (m + fuel)) := by
  induction fuel with
  | zero => exact exhausted _
  | succ fuel ih =>
    rw [← Nat.add_assoc]
    unfold Descent.powerFrom
    infer_instance

instance unaryFrom (operand operand' : Descent Expr) [Carries operand operand'] (fuel m : Nat) :
    Carries (unaryFrom operand fuel) (unaryFrom operand' (m + fuel)) := by
  induction fuel with
  | zero => exact exhausted _
  | succ fuel ih =>
    rw [← Nat.add_assoc]
    refine peek fun k => ?_
    split <;> infer_instance

section Expressions

variable (inner inner' : Descent Expr) [Carries inner inner']

instance literal (v : Literal) : Carries (literal v) (literal v) := by unfold Descent.literal; infer_instance

instance inputCall : Carries (inputCall inner) (inputCall inner') := by unfold Descent.inputCall; infer_instance

instance parenthesized : Carries (parenthesized inner) (parenthesized inner') := by
  unfold Descent.parenthesized; infer_instance

instance primary : Carries (primary inner) (primary inner') := by
  refine peek fun k => ?_
  split
  case h_8 => exact second _ _ _ _ _
  all_goals infer_instance

instance : Carries (unary inner) (unary inner') := by unfold unary; infer_instance

instance : Carries (power inner) (power inner') := by unfold power; infer_instance

instance : Carries (product inner) (product inner') := by unfold product; infer_instance

instance : Carries (sum inner) (sum inner') := by unfold sum; infer_instance

instance : Carries (relation inner) (relation inner') := by unfold relation; infer_instance

instance logic : Carries (logic inner) (logic inner') := by unfold Descent.logic; infer_instance

end Expressions

instance expr (depth m : Nat) : Carries (expr depth) (expr (m + depth)) := by
  induction depth with
  | zero => exact exhausted _
  | succ depth ih =>
    rw [← Nat.add_assoc]
    exact inferInstanceAs (Carries (Descent.logic _) (Descent.logic _))

/-! ### Parts of statements -/

instance : Carries typeName typeName := by
  refine peek fun k => ?_
  split <;> infer_instance

instance (s : Symbol) : Carries (typeAfter s) (typeAfter s) := by unfold typeAfter; infer_instance

instance : Carries param param := by unfold param; infer_instance

instance (negative : Bool) : Carries (intConstFrom negative) (intConstFrom negative) := by
  refine peek fun k => ?_
  split <;> infer_instance

instance : Carries intConst intConst := by rw [intConst_eq]; infer_instance

instance constValue (negative : Bool) : Carries (constValue negative) (constValue negative) := by
  refine peek fun k => ?_
  split <;> infer_instance

instance : Carries const const := by unfold const; infer_instance

instance constsFrom (fuel m : Nat) : Carries (constsFrom fuel) (constsFrom (m + fuel)) := by
  induction fuel with
  | zero => exact exhausted _
  | succ fuel ih =>
    rw [← Nat.add_assoc]
    unfold Descent.constsFrom
    infer_instance

instance : Carries caseRange caseRange := by unfold caseRange; infer_instance

instance : Carries comparator comparator := by rw [comparator_eq]; infer_instance

set_option synthInstance.maxSize 256 in
instance : Carries forRange forRange := by unfold forRange; infer_instance

/-! ### Statements -/

section Statements

variable (e e' : Descent Expr) (b b' : Descent Block) [Carries e e'] [Carries b b']

instance : Carries (iterable e) (iterable e') := by unfold iterable; infer_instance

instance (k : Keyword) : Carries (decl e k) (decl e' k) := by unfold decl; infer_instance

instance : Carries (printStmt e) (printStmt e') := by unfold printStmt; infer_instance

instance : Carries (returnStmt e) (returnStmt e') := by unfold returnStmt; infer_instance

instance : Carries (forStmt e b) (forStmt e' b') := by unfold forStmt; infer_instance

instance : Carries (whileStmt e b) (whileStmt e' b') := by unfold whileStmt; infer_instance

instance ifFrom (fuel m : Nat) : Carries (ifFrom e b fuel) (ifFrom e' b' (m + fuel)) := by
  induction fuel with
  | zero => exact exhausted _
  | succ fuel ih =>
    rw [← Nat.add_assoc]
    unfold Descent.ifFrom
    infer_instance

instance : Carries (ifStmt e b) (ifStmt e' b') := by unfold ifStmt; infer_instance

instance : Carries (caseClause b) (caseClause b') := by unfold caseClause; infer_instance

instance casesFrom (fuel m : Nat) : Carries (casesFrom b fuel) (casesFrom b' (m + fuel)) := by
  induction fuel with
  | zero => exact exhausted _
  | succ fuel ih =>
    rw [← Nat.add_assoc]
    unfold Descent.casesFrom
    infer_instance

instance : Carries (switchStmt e b) (switchStmt e' b') := by unfold switchStmt; infer_instance

instance : Carries (letItem e) (letItem e') := by unfold letItem; infer_instance

instance : Carries (stmt e b) (stmt e' b') := by
  refine peek fun k => ?_
  split
  case h_9 => exact second _ _ _ _ _
  all_goals infer_instance

instance stmtsFrom (s s' : Descent Stmt) [Carries s s'] (fuel m : Nat) :
    Carries (stmtsFrom s fuel) (stmtsFrom s' (m + fuel)) := by
  induction fuel with
  | zero => exact exhausted _
  | succ fuel ih =>
    rw [← Nat.add_assoc]
    unfold Descent.stmtsFrom
    infer_instance

instance block (depth m : Nat) : Carries (block e depth) (block e' (m + depth)) := by
  induction depth with
  | zero => exact exhausted _
  | succ depth ih =>
    rw [← Nat.add_assoc]
    unfold Descent.block
    infer_instance

instance : Carries (func b) (func b') := by unfold func; infer_instance

instance : Carries (item e b) (item e' b') := by
  refine peek fun k => ?_
  split <;> infer_instance

instance itemsToEnd (i i' : Descent Item) [Carries i i'] (fuel m : Nat) :
    Carries (itemsToEnd i fuel) (itemsToEnd i' (m + fuel)) := by
  induction fuel with
  | zero => exact exhausted _
  | succ fuel ih =>
    rw [← Nat.add_assoc]
    unfold Descent.itemsToEnd
    infer_instance

end Statements

end Carries

end Descent

end Scriptlet
