import Scriptlet.Proofs.Spans.Basic
import Scriptlet.Proofs.Speculation.Ranking

/-!
# How often tokens are used

A token is used when it is consumed and when a checkpoint is opened at it.  A history is thrifty (`Thrifty`) if names
are consumed at most twice and other tokens at most once, and checkpoints are opened at names only, each further on
than the one before.  It stays thrifty when a token is consumed that was not consumed too often yet
(`Thrifty.consume`), and when a checkpoint is opened beyond all tokens that were used (`Thrifty.checkpoint`).
-/

namespace Scriptlet.Parse

open Parse.State Spans

/-! ### Uses -/

/-- The token that an event uses. -/
def Event.use? : Event → Option Nat
  | consume i | checkpoint i => some i
  | _ => none

def Event.isUse (e : Event) : Bool := e.use?.isSome

/-- The token at which an event opens a checkpoint. -/
def Event.opened? : Event → Option Nat
  | checkpoint i => some i
  | _ => none

/-- The token `i` is a name. -/
def isName (ts : List Token) (i : Nat) : Bool :=
  match ts[i]?.map Token.kind with
  | some (.identifier _) => true
  | _ => false

/-- How often the token `i` may be consumed. -/
def allowance (ts : List Token) (i : Nat) : Nat := if isName ts i then 2 else 1

/-- Names are consumed at most twice and other tokens at most once.  At most one checkpoint is opened at each name and
none at other tokens, and each is further on than the one before. -/
structure Thrifty (ts : List Token) (events : List Event) : Prop where
  consumed : ∀ i, events.count (.consume i) ≤ allowance ts i
  opened : ∀ i, events.count (.checkpoint i) ≤ if isName ts i then 1 else 0
  ascending : (events.filterMap Event.opened?).Pairwise (· < ·)

/-- The uses in a history, in their order. -/
def State.used (s : State) : List Event := s.history.reverse.filter Event.isUse

/-- The tokens used all stand before the token `i`. -/
def Below (i : Nat) (events : List Event) : Prop := ∀ e ∈ events, ∀ k ∈ e.use?, k < i

section Thrifty

variable {ts : List Token} {us : List Event} {i k : Nat}

/-- A token that is a name counts as one. -/
theorem isName_of_isAt {name : String} (h : IsAt ts i (.identifier name)) : isName ts i = true := by
  unfold isName
  rw [show ts[i]?.map Token.kind = _ from h]

/-- Every token may be used once. -/
theorem one_le_allowance (ts : List Token) (i : Nat) : 1 ≤ allowance ts i := by
  unfold allowance
  split <;> omega

/-- A token that lies ahead has not been used. -/
theorem Below.count_eq_zero {e : Event} (h : Below i us) (he : e.use? = some k) (hik : i ≤ k) : us.count e = 0 := by
  refine List.count_eq_zero.2 fun hmem => ?_
  have hlt := h e hmem k he
  omega

theorem Below.mono {j : Nat} (h : Below i us) (hij : i ≤ j) : Below j us := fun e he k hk =>
  Nat.lt_of_lt_of_le (h e he k hk) hij

/-- A use of an earlier token does not touch those ahead. -/
theorem Below.append {e : Event} (h : Below i us) (he : ∀ k ∈ e.use?, k < i) : Below i (us ++ [e]) := by
  intro e' he' k hk
  rcases List.mem_append.1 he' with hmem | hmem
  · exact h e' hmem k hk
  · rw [List.mem_singleton.1 hmem] at hk
    exact he k hk

theorem count_append_of_ne {e e' : Event} (h : e' ≠ e) : (us ++ [e']).count e = us.count e := by
  rw [List.count_append, List.count_singleton, if_neg (by simpa using h), Nat.add_zero]

theorem count_append_self (e : Event) : (us ++ [e]).count e = us.count e + 1 := by
  rw [List.count_append, List.count_singleton_self]

/-- A parse that has used no token has been thrifty. -/
theorem Thrifty.nil : Thrifty ts [] := ⟨fun _ => Nat.zero_le _, fun _ => Nat.zero_le _, .nil⟩

/-- A token that was not consumed too often yet is consumed. -/
theorem Thrifty.consume (h : Thrifty ts us) (hi : us.count (.consume i) < allowance ts i) :
    Thrifty ts (us ++ [.consume i]) := by
  have hopened : (us ++ [Event.consume i]).filterMap Event.opened? = us.filterMap Event.opened? := by
    simp [Event.opened?]
  refine ⟨fun k => ?_, fun k => ?_, hopened ▸ h.ascending⟩
  · by_cases hk : i = k
    · subst hk
      rw [count_append_self]
      exact hi
    · rw [count_append_of_ne (by simp [hk])]
      exact h.consumed k
  · rw [count_append_of_ne (by simp)]
    exact h.opened k

/-- A checkpoint is opened at a name beyond all tokens that were used. -/
theorem Thrifty.checkpoint (h : Thrifty ts us) (hi : Below i us) (hname : isName ts i = true) :
    Thrifty ts (us ++ [.checkpoint i]) := by
  have hopened : (us ++ [Event.checkpoint i]).filterMap Event.opened? = us.filterMap Event.opened? ++ [i] := by
    simp [Event.opened?]
  refine ⟨fun k => ?_, fun k => ?_, ?_⟩
  · rw [count_append_of_ne (by simp)]
    exact h.consumed k
  · by_cases hk : i = k
    · subst hk
      have hzero := hi.count_eq_zero (e := .checkpoint i) rfl (Nat.le_refl i)
      have hone : (us ++ [Event.checkpoint i]).count (.checkpoint i) = 1 := by rw [count_append_self, hzero]
      exact Nat.le_of_eq (hone.trans (if_pos hname).symm)
    · rw [count_append_of_ne (by simp [hk])]
      exact h.opened k
  · rw [hopened]
    refine List.pairwise_append.2 ⟨h.ascending, List.pairwise_singleton _ _, fun k hk l hl => ?_⟩
    obtain ⟨e, he, hek⟩ := List.mem_filterMap.1 hk
    rw [List.mem_singleton.1 hl]
    cases e with
    | checkpoint _ =>
      cases hek
      exact hi _ he k rfl
    | _ => cases hek

/-- Only the uses in a history matter. -/
theorem Thrifty.of_used {s : State} (h : Thrifty ts s.used) : Thrifty ts s.history.reverse := by
  have hopened : s.used.filterMap Event.opened? = s.history.reverse.filterMap Event.opened? := by
    unfold used
    rw [List.filterMap_filter]
    congr 1
    funext e
    cases e <;> rfl
  refine ⟨fun i => ?_, fun i => ?_, hopened ▸ h.ascending⟩
  · rw [← List.count_filter (p := Event.isUse) rfl]
    exact h.consumed i
  · rw [← List.count_filter (p := Event.isUse) rfl]
    exact h.opened i

end Thrifty

/-! ### Uses along a parse -/

namespace State

variable {s : State} {p : Position} {marks : List Position} {e : Located ParseError}

private theorem used_of_history {t : State} {e : Event} (h : t.history = e :: s.history) (he : e.isUse = false) :
    t.used = s.used := by
  unfold used
  rw [h, List.reverse_cons, List.filter_append, List.filter_cons_of_neg (by simp [he])]
  exact List.append_nil _

theorem used_log_of_isUse {e : Event} (he : e.isUse = true) : (s.log e).used = s.used ++ [e] := by
  unfold used log
  rw [List.reverse_cons, List.filter_append, List.filter_cons_of_pos he]
  rfl

@[simp] theorem used_enter (c : Production) : (s.log (.enter c)).used = s.used := used_of_history rfl rfl

@[simp] theorem history_record (e : Located ParseError) : (s.record e).history = s.history := by
  unfold record
  split <;> rfl

@[simp] theorem used_commit : s.commit.used = s.used := by
  unfold commit
  split
  · rfl
  · exact used_of_history rfl rfl

@[simp] theorem used_rollback (e : Located ParseError) : (s.rollback e).used = s.used := by
  have hhistory : (s.rollback e).history = .rollback s.position.index e :: s.history := by
    unfold rollback
    simp only
    split
    · exact history_record e
    · exact history_record e
  exact used_of_history hhistory rfl

@[simp] theorem used_abandon (e : Located ParseError) : (s.abandon e).2.used = s.used := by
  have hhistory : (s.abandon e).2.history = .abandon s.position.index e :: s.history := by
    unfold abandon
    simp only
    split
    · exact history_record e
    · exact history_record e
  exact used_of_history hhistory rfl

/-! ### Marks along a parse -/

@[simp] theorem marks_advance : s.advance.marks = s.marks := congrArg (List.map _) (checkpoints_advance s)

@[simp] theorem marks_record (e : Located ParseError) : (s.record e).marks = s.marks := by
  unfold record
  split
  · rfl
  · next c outer hc => simp [marks, hc, position_offer]

@[simp] theorem marks_rollback (e : Located ParseError) : (s.rollback e).marks = s.marks := by
  have hrecord : ((s.log (.rollback s.position.index e)).record e).marks = s.marks := marks_record e
  unfold rollback
  simp only
  split
  · exact hrecord
  · exact hrecord

/-- Committing closes the last checkpoint. -/
theorem marks_commit (h : s.marks = p :: marks) : s.commit.marks = marks := by
  unfold State.marks at h
  unfold commit
  split
  · next hc => simp [hc] at h
  · next c outer hc =>
    obtain ⟨-, rfl⟩ : c.position = p ∧ outer.map Checkpoint.position = marks := by simpa [hc] using h
    cases hbest : c.best with
    | none => rfl
    | some r =>
      cases outer with
      | nil => rfl
      | cons d outer => simp [State.marks, log, position_offer]

/-- Giving up closes the last checkpoint. -/
theorem marks_abandon (h : s.marks = p :: marks) (e : Located ParseError) : (s.abandon e).2.marks = marks := by
  have hrecord : ((s.log (.abandon s.position.index e)).record e).marks = p :: marks := (marks_record e).trans h
  unfold State.marks at hrecord
  unfold abandon
  simp only
  split
  · next hc => simp [hc] at hrecord
  · next c outer hc =>
    rw [hc] at hrecord
    exact (List.cons.inj hrecord).2

end State

end Scriptlet.Parse
