import Scriptlet.Proofs.Descent.Progress

/-!
# How far errors got

Two kinds of states occur in a parse with alternatives.  In a settled state no error met so far lies beyond the
present position.  In a lost state the parse is bound to fail: the error that got furthest lies ahead, it is the
deepest one and the best one of the innermost checkpoint, and whatever is recorded from now on ranks below it.

Opening, closing and returning to a checkpoint lead from settled and lost states to settled and lost ones.  A return
from a settled state makes it a lost one (`Settled.rollback`), which the next token may settle again
(`Lost.settled`).
-/

namespace Scriptlet.Parse

/-- The best error of a checkpoint lies at most at token `m`, and its length is counted from the checkpoint. -/
def Checkpoint.Within (m : Nat) (c : Checkpoint) : Prop :=
  ∀ r, c.best = some r → r.token ≤ m ∧ r.length = r.token - c.position.index

namespace State

/-- The places to return to, the innermost first. -/
def marks (s : State) : List Position := s.checkpoints.map Checkpoint.position

/-- The open checkpoints lie at `marks`, and no error met so far lies beyond token `m`. -/
structure Within (marks : List Position) (m : Nat) (s : State) : Prop where
  marks_eq : s.marks = marks
  checkpoints : ∀ c ∈ s.checkpoints, c.Within m
  deepest : ∀ r, s.deepest = some r → r.token ≤ m

/-- No error met so far lies beyond the present position. -/
def Settled (marks : List Position) (s : State) : Prop := s.Within marks s.position.index

/-- The error that got furthest is `e` at token `m`, before which the parse has fallen back. -/
structure Lost (marks : List Position) (e : Located ParseError) (m : Nat) (s : State) : Prop where
  within : s.Within marks m
  behind : s.position.index < m
  deepest : ∃ r, s.deepest = some r ∧ r.error = e ∧ r.token = m
  best : ∀ c, s.checkpoints.head? = some c → ∃ r, c.best = some r ∧ r.error = e ∧ r.token = m

variable {marks : List Position} {m : Nat} {s : State} {p : Position} {e : Located ParseError}

/-! ### Moving on -/

private theorem Within.mono {m' : Nat} (h : s.Within marks m) (hm : m ≤ m') : s.Within marks m' where
  marks_eq := h.marks_eq
  checkpoints c hc r hr := by
    obtain ⟨h₁, h₂⟩ := h.checkpoints c hc r hr
    exact ⟨by omega, h₂⟩
  deepest r hr := by
    have := h.deepest r hr
    omega

/-- Errors up to the present position do not lie ahead. -/
private theorem Within.settled (h : s.Within marks m) (hm : m ≤ s.position.index) : s.Settled marks := h.mono hm

@[simp] theorem position_advance (s : State) : s.advance.position = s.position.next := by
  unfold advance Position.next
  cases s.position.rest <;> rfl

@[simp] theorem checkpoints_advance (s : State) : s.advance.checkpoints = s.checkpoints := by
  unfold advance
  split <;> rfl

@[simp] theorem deepest_advance (s : State) : s.advance.deepest = s.deepest := by
  unfold advance
  split <;> rfl

/-- An unexpected token is reported by the place alone. -/
theorem unexpected_eq (s : State) (expected : Expected) : s.unexpected expected = s.position.unexpected expected := by
  unfold unexpected Position.unexpected
  rfl

private theorem Within.advance (h : s.Within marks m) : s.advance.Within marks m where
  marks_eq := by rw [State.marks, checkpoints_advance]; exact h.marks_eq
  checkpoints := by rw [checkpoints_advance]; exact h.checkpoints
  deepest := by rw [deepest_advance]; exact h.deepest

private theorem index_le_next (p : Position) : p.index ≤ p.next.index := by
  unfold Position.next
  split
  · exact Nat.le_succ _
  · exact Nat.le_refl _

/-- A settled parser stays so when it consumes a token. -/
theorem Settled.advance (h : s.Settled marks) : s.advance.Settled marks := by
  have hw : s.advance.Within marks s.position.index := Within.advance h
  apply hw.settled
  rw [position_advance]
  exact index_le_next _

/-- The history has no part in this. -/
private theorem Within.log (h : s.Within marks m) (x : Event) : (s.log x).Within marks m := ⟨h.1, h.2, h.3⟩

theorem Settled.log (h : s.Settled marks) (x : Event) : (s.log x).Settled marks := Within.log h x

theorem Lost.log (h : s.Lost marks e m) (x : Event) : (s.log x).Lost marks e m := ⟨h.1.log x, h.2, h.3, h.4⟩

/-! ### Opening and closing checkpoints -/

/-- A settled parser may set a checkpoint. -/
theorem Settled.checkpoint (h : s.Settled marks) : s.checkpoint.Settled (s.position :: marks) where
  marks_eq := congrArg (s.position :: ·) h.marks_eq
  checkpoints c hc r hr := by
    rcases List.mem_cons.1 hc with rfl | hc
    · cases hr
    · exact h.checkpoints c hc r hr
  deepest := h.deepest

/-- The innermost checkpoint of a state with marks. -/
private theorem checkpoints_of_marks (h : s.marks = p :: marks) :
    ∃ c outer, s.checkpoints = c :: outer ∧ c.position = p ∧ outer.map Checkpoint.position = marks := by
  cases hc : s.checkpoints with
  | nil => simp [State.marks, hc] at h
  | cons c outer =>
    simp only [State.marks, hc, List.map_cons, List.cons.injEq] at h
    exact ⟨c, outer, rfl, h.1, h.2⟩

/-- An error that lies at least as far as the best one takes its place. -/
private theorem offer_of_le {c : Checkpoint} {r : Ranked} (hc : c.Within r.token)
    (hr : r.length = r.token - c.position.index) : c.offer r = { c with best := some r } := by
  unfold Checkpoint.offer
  split
  · next old hold =>
    obtain ⟨h₁, h₂⟩ := hc old hold
    rw [if_neg]
    omega
  · rfl

/-- An error that lies less far than the best one is dropped. -/
private theorem offer_of_lt {c : Checkpoint} {r old : Ranked} (hold : c.best = some old)
    (h : r.token < old.token) : c.offer r = c := by
  unfold Checkpoint.offer
  simp only [hold]
  rw [if_pos (Or.inr h)]

theorem position_offer (c : Checkpoint) (r : Ranked) : (c.offer r).position = c.position := by
  unfold Checkpoint.offer
  split
  · split <;> rfl
  · rfl

private theorem offer_within {c : Checkpoint} {r : Ranked} (hc : c.Within m) (hm : r.token ≤ m)
    (hr : r.length = r.token - c.position.index) : (c.offer r).Within m := by
  intro x hx
  unfold Checkpoint.offer at hx
  rw [show (c.offer r).position = c.position from position_offer c r]
  split at hx
  · split at hx
    · exact hc x hx
    · cases hx; exact ⟨hm, hr⟩
  · cases hx; exact ⟨hm, hr⟩

@[simp] theorem position_commit (s : State) : s.commit.position = s.position := by
  unfold commit
  split <;> rfl

@[simp] theorem deepest_commit (s : State) : s.commit.deepest = s.deepest := by
  unfold commit
  split <;> rfl

/-- The checkpoints after the innermost one is closed: its best error, if any, is offered to the next, if any. -/
theorem checkpoints_commit {c : Checkpoint} {outer : List Checkpoint} (hc : s.checkpoints = c :: outer) :
    (s.commit.checkpoints = outer ∧ (c.best = none ∨ outer = [])) ∨
      ∃ r d rest, c.best = some r ∧ outer = d :: rest ∧
        s.commit.checkpoints = d.offer { r with length := r.token - d.position.index } :: rest := by
  unfold commit
  simp only [hc]
  cases hb : c.best with
  | none => exact Or.inl ⟨rfl, Or.inl rfl⟩
  | some r =>
    cases outer with
    | nil => exact Or.inl ⟨rfl, Or.inr rfl⟩
    | cons d rest => exact Or.inr ⟨r, d, rest, rfl, rfl, rfl⟩

private theorem Within.commit (h : s.Within (p :: marks) m) : s.commit.Within marks m := by
  obtain ⟨c, outer, hc, -, hmarks⟩ := checkpoints_of_marks h.marks_eq
  have hmem : ∀ d ∈ outer, d.Within m := fun d hd => h.checkpoints d (by simp [hc, hd])
  have hd : ∀ r, s.commit.deepest = some r → r.token ≤ m := by
    rw [deepest_commit]
    exact h.deepest
  rcases checkpoints_commit hc with ⟨hcs, -⟩ | ⟨r, d, rest, hr, rfl, hcs⟩
  · exact ⟨by rw [State.marks, hcs, hmarks], by rw [hcs]; exact hmem, hd⟩
  · have hb := (h.checkpoints c (by simp [hc]) r hr).1
    refine ⟨?_, ?_, hd⟩
    · rw [State.marks, hcs, ← hmarks, List.map_cons, List.map_cons, position_offer]
    · rw [hcs]
      intro x hx
      rcases List.mem_cons.1 hx with rfl | hx
      · exact offer_within (hmem d (by simp)) hb rfl
      · exact hmem x (by simp [hx])

/-- A settled parser may drop its last checkpoint. -/
theorem Settled.commit (h : s.Settled (p :: marks)) : s.commit.Settled marks := by
  have hw : s.commit.Within marks s.position.index := Within.commit h
  exact hw.settled (Nat.le_of_eq (congrArg Position.index (position_commit s).symm))

/-- Closing a checkpoint hands the error that got furthest to the next one. -/
theorem Lost.commit (h : s.Lost (p :: marks) e m) : s.commit.Lost marks e m where
  within := h.within.commit
  behind := by rw [position_commit]; exact h.behind
  deepest := by rw [deepest_commit]; exact h.deepest
  best := by
    obtain ⟨c, outer, hc, -, -⟩ := checkpoints_of_marks h.within.marks_eq
    obtain ⟨r, hr, he, hm⟩ := h.best c (by rw [hc]; rfl)
    intro d hd
    -- a lost state has a best error in its checkpoint, so there is one to hand on if another checkpoint is open
    rcases checkpoints_commit hc with ⟨hcs, hnone | rfl⟩ | ⟨r', d', rest, hr', rfl, hcs⟩
    · rw [hnone] at hr
      cases hr
    · rw [hcs] at hd
      cases hd
    · obtain rfl : r' = r := Option.some.inj (hr'.symm.trans hr)
      have hw : d'.Within r'.token := by
        rw [hm]
        exact h.within.checkpoints d' (by simp [hc])
      rw [hcs, offer_of_le (r := { r' with length := r'.token - d'.position.index }) hw rfl] at hd
      cases hd
      exact ⟨_, rfl, he, hm⟩

/-! ### Recording errors -/

@[simp] theorem position_record (s : State) (e : Located ParseError) : (s.record e).position = s.position := by
  unfold record
  split <;> rfl

/-- What recording an error at the present position makes of the checkpoints and of the deepest error. -/
theorem record_eq {c : Checkpoint} {outer : List Checkpoint} (hc : s.checkpoints = c :: outer)
    (e : Located ParseError) :
    (s.record e).checkpoints =
        c.offer ⟨e, s.position.index - c.position.index, s.position.index⟩ :: outer ∧
      (s.record e).deepest = match s.deepest with
        | some old =>
          if old.token ≤ s.position.index then some ⟨e, s.position.index - c.position.index, s.position.index⟩
          else some old
        | none => some ⟨e, s.position.index - c.position.index, s.position.index⟩ := by
  constructor
  · unfold record
    simp only [hc]
  · cases hd : s.deepest with
    | none => simp [record, hc, hd]
    | some old => simp [record, hc, hd]

private theorem Within.record (h : s.Within (p :: marks) m) (hm : s.position.index ≤ m) (e : Located ParseError) :
    (s.record e).Within (p :: marks) m := by
  obtain ⟨c, outer, hc, hp, hmarks⟩ := checkpoints_of_marks h.marks_eq
  obtain ⟨hcs, hd⟩ := record_eq hc e
  refine ⟨?_, ?_, ?_⟩
  · rw [State.marks, hcs, List.map_cons, position_offer, hp, hmarks]
  · rw [hcs]
    intro d hd'
    rcases List.mem_cons.1 hd' with rfl | hd'
    · exact offer_within (h.checkpoints c (by simp [hc])) hm rfl
    · exact h.checkpoints d (by simp [hc, hd'])
  · rw [hd]
    intro r hr
    cases hold : s.deepest with
    | none =>
      rw [hold] at hr
      cases hr
      exact hm
    | some old =>
      have hr' : (if old.token ≤ s.position.index then
          some ⟨e, s.position.index - c.position.index, s.position.index⟩ else some old) = some r := by
        rw [hold] at hr
        exact hr
      split at hr'
      · cases hr'; exact hm
      · cases hr'; exact h.deepest _ hold

/-- In a settled state the error recorded becomes the best and the deepest one. -/
private theorem Settled.record_best (h : s.Settled (p :: marks)) (e : Located ParseError) :
    (∃ r, (s.record e).deepest = some r ∧ r.error = e ∧ r.token = s.position.index) ∧
      ∃ c outer, (s.record e).checkpoints = c :: outer ∧
        ∃ r, c.best = some r ∧ r.error = e ∧ r.token = s.position.index := by
  obtain ⟨c, outer, hc, hp, hmarks⟩ := checkpoints_of_marks h.marks_eq
  obtain ⟨hcs, hd⟩ := record_eq hc e
  constructor
  · rw [hd]
    split
    · next old hold =>
      rw [if_pos (h.deepest old hold)]
      exact ⟨_, rfl, rfl, rfl⟩
    · exact ⟨_, rfl, rfl, rfl⟩
  · rw [hcs, offer_of_le (h.checkpoints c (by simp [hc])) rfl]
    exact ⟨_, _, rfl, _, rfl, rfl, rfl⟩

/-- In a lost state what is recorded changes nothing of rank. -/
private theorem Lost.record_best (h : s.Lost (p :: marks) e m) (e' : Located ParseError) :
    (∃ r, (s.record e').deepest = some r ∧ r.error = e ∧ r.token = m) ∧
      ∃ c outer, (s.record e').checkpoints = c :: outer ∧ ∃ r, c.best = some r ∧ r.error = e ∧ r.token = m := by
  obtain ⟨c, outer, hc, hp, hmarks⟩ := checkpoints_of_marks h.within.marks_eq
  obtain ⟨hcs, hd⟩ := record_eq hc e'
  obtain ⟨r, hr, hre, hrm⟩ := h.deepest
  obtain ⟨b, hb, hbe, hbm⟩ := h.best c (by rw [hc]; rfl)
  -- the error of the descent lies ahead of the position at which this one is recorded
  have hbehind := h.behind
  constructor
  · rw [hd, hr]
    simp only
    rw [if_neg (by omega)]
    exact ⟨r, rfl, hre, hrm⟩
  · rw [hcs, offer_of_lt hb (by simp only; omega)]
    exact ⟨c, outer, rfl, b, hb, hbe, hbm⟩

/-! ### After a failure -/

private theorem rollback_eq (h : s.marks = p :: marks) (e : Located ParseError) :
    (s.rollback e).position = p ∧
      (s.rollback e).checkpoints = ((s.log (.rollback s.position.index e)).record e).checkpoints ∧
      (s.rollback e).deepest = ((s.log (.rollback s.position.index e)).record e).deepest := by
  obtain ⟨c, outer, hc, hp, -⟩ := checkpoints_of_marks h
  have hc' : (s.log (.rollback s.position.index e)).checkpoints = c :: outer := hc
  have hcs := (record_eq hc' e).1
  unfold rollback
  simp only [hcs]
  exact ⟨by rw [position_offer, hp], trivial, trivial⟩

/-- A return to a checkpoint is a return to its place. -/
theorem position_rollback (h : s.marks = p :: marks) (e : Located ParseError) : (s.rollback e).position = p :=
  (rollback_eq h e).1

private theorem lost_of_best {c : Checkpoint} {outer : List Checkpoint} (hw : s.Within marks m)
    (hb : s.position.index < m) (hd : ∃ r, s.deepest = some r ∧ r.error = e ∧ r.token = m)
    (hc : s.checkpoints = c :: outer) (hr : ∃ r, c.best = some r ∧ r.error = e ∧ r.token = m) :
    s.Lost marks e m where
  within := hw
  behind := hb
  deepest := hd
  best d hd' := by
    rw [hc] at hd'
    cases hd'
    exact hr

private theorem Within.rollback (h : s.Within (p :: marks) m) (hm : s.position.index ≤ m)
    (e : Located ParseError) : (s.rollback e).Within (p :: marks) m := by
  obtain ⟨-, hcs, hd⟩ := rollback_eq h.marks_eq e
  have hrec := (h.log (.rollback s.position.index e)).record hm e
  exact ⟨by rw [State.marks, hcs]; exact hrec.marks_eq, by rw [hcs]; exact hrec.checkpoints,
    by rw [hd]; exact hrec.deepest⟩

/-- A return from a settled state leaves the error at which it happened ahead. -/
theorem Settled.rollback (h : s.Settled (p :: marks)) (hp : p.index < s.position.index) (e : Located ParseError) :
    (s.rollback e).Lost (p :: marks) e s.position.index := by
  obtain ⟨hpos, hcs, hd⟩ := rollback_eq h.marks_eq e
  obtain ⟨hdeep, c, outer, hc, hbest⟩ := (h.log (.rollback s.position.index e)).record_best e
  exact lost_of_best (Within.rollback h (Nat.le_refl _) e) (by rw [hpos]; exact hp) (by rw [hd]; exact hdeep)
    (by rw [hcs]; exact hc) hbest

/-- A return from a lost state leads to a lost state. -/
theorem Lost.rollback (h : s.Lost (p :: marks) e m) (hp : p.index < m) (e' : Located ParseError) :
    (s.rollback e').Lost (p :: marks) e m := by
  obtain ⟨hpos, hcs, hd⟩ := rollback_eq h.within.marks_eq e'
  obtain ⟨hdeep, c, outer, hc, hbest⟩ := (h.log (.rollback s.position.index e')).record_best e'
  exact lost_of_best (h.within.rollback (Nat.le_of_lt h.behind) e') (by rw [hpos]; exact hp)
    (by rw [hd]; exact hdeep) (by rw [hcs]; exact hc) hbest

/-- A lost state is settled again where the position has caught up with the error. -/
theorem Lost.settled (h : s.Lost marks e m) {t : State} (hc : t.checkpoints = s.checkpoints)
    (hd : t.deepest = s.deepest) (hm : m ≤ t.position.index) : t.Settled marks where
  marks_eq := by rw [State.marks, hc]; exact h.within.marks_eq
  checkpoints := by rw [hc]; exact (h.within.mono hm).checkpoints
  deepest := by rw [hd]; exact (h.within.mono hm).deepest

/-- A lost state stays lost as long as the position does not catch up with the error. -/
theorem Lost.move (h : s.Lost marks e m) {t : State} (hc : t.checkpoints = s.checkpoints)
    (hd : t.deepest = s.deepest) (hm : t.position.index < m) : t.Lost marks e m where
  within := ⟨by rw [State.marks, hc]; exact h.within.marks_eq, by rw [hc]; exact h.within.checkpoints,
    by rw [hd]; exact h.within.deepest⟩
  behind := hm
  deepest := by rw [hd]; exact h.deepest
  best := by rw [hc]; exact h.best

/-- What the last alternative of a choice leaves behind when it fails. -/
private theorem abandon_eq {c : Checkpoint} {outer : List Checkpoint} {e : Located ParseError}
    (hc : ((s.log (.abandon s.position.index e)).record e).checkpoints = c :: outer) :
    s.abandon e = ((c.best.map Ranked.error).getD e,
      { (s.log (.abandon s.position.index e)).record e with checkpoints := outer }) := by
  unfold abandon
  simp only [hc]

/-- The last alternative failed in a settled state: its error is the one to report. -/
theorem Settled.abandon (h : s.Settled (p :: marks)) (e : Located ParseError) :
    (s.abandon e).1 = e ∧ (s.abandon e).2.position = s.position ∧ (s.abandon e).2.Settled marks := by
  have hlog := h.log (.abandon s.position.index e)
  obtain ⟨-, c, outer, hc, r, hr, hre, -⟩ := hlog.record_best e
  have hw := Within.record hlog (Nat.le_refl _) e
  have hpos : (s.abandon e).2.position = s.position := by rw [abandon_eq hc]; exact position_record _ _
  refine ⟨?_, hpos, ?_⟩
  · rw [abandon_eq hc, hr]; exact hre
  · have hmarks : outer.map Checkpoint.position = marks := by
      have := hw.marks_eq
      rw [State.marks, hc] at this
      exact (List.cons.inj this).2
    rw [State.Settled, hpos, abandon_eq hc]
    exact ⟨hmarks, fun d hd => hw.checkpoints d (by rw [hc]; exact List.mem_cons_of_mem _ hd), hw.deepest⟩

/-- The last alternative of an outermost choice failed in a lost state: the error to report is the one that got
furthest. -/
theorem Lost.abandon (h : s.Lost [p] e m) (e' : Located ParseError) :
    (s.abandon e').1 = e ∧ (s.abandon e').2.Lost [] e m := by
  have hlog := h.log (.abandon s.position.index e')
  obtain ⟨hdeep, c, outer, hc, r, hr, hre, -⟩ := hlog.record_best e'
  have hw := hlog.within.record (Nat.le_of_lt h.behind) e'
  have houter : outer = [] := by
    have := hw.marks_eq
    rw [State.marks, hc] at this
    exact List.map_eq_nil_iff.1 (List.cons.inj this).2
  subst houter
  rw [abandon_eq hc]
  refine ⟨by rw [hr]; exact hre, ⟨rfl, fun d hd => absurd hd List.not_mem_nil, hw.deepest⟩, ?_, hdeep, ?_⟩
  · show ((s.log (.abandon s.position.index e')).record e').position.index < m
    rw [position_record]
    exact h.behind
  · intro d hd
    cases hd

/-! ### The whole parse -/

/-- A parser begins settled, without checkpoints. -/
theorem settled_start (tokens : List Token) : (start tokens).Settled [] where
  marks_eq := rfl
  checkpoints c hc := absurd hc List.not_mem_nil
  deepest r hr := by cases hr

/-- An error met in a settled state is the one to report. -/
theorem Settled.finalError (h : s.Settled marks) (e : Located ParseError) : s.finalError e = e := by
  unfold State.finalError
  split
  · next d hd => rw [if_neg (Nat.not_lt.2 (h.deepest d hd))]
  · rfl

/-- In a lost state the error to report is the one that got furthest. -/
theorem Lost.finalError (h : s.Lost marks e m) (e' : Located ParseError) : s.finalError e' = e := by
  obtain ⟨r, hr, hre, hrm⟩ := h.deepest
  unfold State.finalError
  simp only [hr]
  rw [if_pos (by rw [hrm]; exact h.behind), hre]

end State

end Scriptlet.Parse
