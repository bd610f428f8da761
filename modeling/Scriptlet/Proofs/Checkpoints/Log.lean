import Scriptlet.Proofs.Thrift.Uses

/-!
# Parses as their logs tell them

Each event of a log makes one move of a parse (`State.after`), so that every state on the way is found again by a
replay of the log up to there.  `Run s events t` says how the logs of parses are built: a choice opens a checkpoint,
tries its first alternative, and then either commits, or goes back and tries the second, which ends with a commit or
is given up.  A run has these moves in brackets, and closes the checkpoints that it opens (`Run.marks_eq`).

Every checkpoint in the log of a run begins a choice (`Call`) that comes to its end within the run
(`Run.choicesBegin`).
-/

namespace Scriptlet.Parse

namespace State

/-- The state after the move that an event tells of. -/
def after (s : State) : Event → State
  | .enter production => s.log (.enter production)
  | .consume _ => s.advance
  | .checkpoint _ => s.checkpoint
  | .commit _ => s.commit
  | .rollback _ e => s.rollback e
  | .abandon _ e => (s.abandon e).2

/-- The state after the moves of a log. -/
def replay (s : State) (events : List Event) : State := events.foldl after s

/-- The event may come next: a token is there to be consumed, a checkpoint is open to be closed or gone back to, and
the event names the right token. -/
def Fits (s : State) : Event → Prop
  | .enter _ => True
  | .consume i => s.position.rest ≠ [] ∧ i = s.position.index
  | .checkpoint i => i = s.position.index
  | .commit i => s.marks.head?.map Position.index = some i
  | .rollback i _ | .abandon i _ => s.marks ≠ [] ∧ i = s.position.index

/-- Each of the events may come when it does. -/
def FitsAll (s : State) : List Event → Prop
  | [] => True
  | e :: events => s.Fits e ∧ (s.after e).FitsAll events

variable {s t : State} {e : Event} {events events' : List Event} {error : Located ParseError} {mark : Position}
  {marks : List Position}

@[simp] theorem replay_cons (s : State) (e : Event) (events : List Event) :
    s.replay (e :: events) = (s.after e).replay events := rfl

theorem replay_append (s : State) (events events' : List Event) :
    s.replay (events ++ events') = (s.replay events).replay events' := List.foldl_append

/-- A log fits a state if its first part does, and the rest fits what the first part comes to. -/
theorem fitsAll_append :
    s.FitsAll (events ++ events') ↔ s.FitsAll events ∧ (s.replay events).FitsAll events' := by
  induction events generalizing s with
  | nil => exact (iff_of_eq (true_and _)).symm
  | cons e events ih =>
    show s.Fits e ∧ (s.after e).FitsAll (events ++ events') ↔ _
    rw [ih, ← and_assoc]
    rfl

/-! ### What moves add to the log -/

private theorem history_advance (h : s.position.rest ≠ []) :
    s.advance.history = .consume s.position.index :: s.history := by
  unfold advance
  split
  · rfl
  · next hrest => exact absurd hrest h

private theorem history_commit {i : Nat} (h : s.marks.head?.map Position.index = some i) :
    s.commit.history = .commit i :: s.history := by
  unfold commit
  split
  · next hc =>
    rw [marks, hc] at h
    cases h
  · next c outer hc =>
    rw [marks, hc] at h
    have hindex : c.position.index = i := Option.some.inj h
    rw [← hindex]
    rfl

private theorem history_rollback (s : State) (error : Located ParseError) :
    (s.rollback error).history = .rollback s.position.index error :: s.history := by
  unfold rollback
  simp only
  split
  · exact history_record error
  · exact history_record error

private theorem history_abandon (s : State) (error : Located ParseError) :
    (s.abandon error).2.history = .abandon s.position.index error :: s.history := by
  unfold abandon
  simp only
  split
  · exact history_record error
  · exact history_record error

private theorem history_after (h : s.Fits e) : (s.after e).history = e :: s.history := by
  cases e with
  | enter production => rfl
  | consume i =>
    obtain ⟨hrest, rfl⟩ := h
    exact history_advance hrest
  | checkpoint i =>
    cases h
    rfl
  | commit i => exact history_commit h
  | rollback i error =>
    obtain ⟨-, rfl⟩ := h
    exact history_rollback s error
  | abandon i error =>
    obtain ⟨-, rfl⟩ := h
    exact history_abandon s error

/-- A replay leaves the log that it goes by. -/
private theorem history_replay (h : s.FitsAll events) : (s.replay events).history = events.reverse ++ s.history := by
  induction events generalizing s with
  | nil => rfl
  | cons e events ih =>
    obtain ⟨hfits, hrest⟩ := h
    rw [replay_cons, ih hrest, history_after hfits, List.reverse_cons, List.append_assoc]
    rfl

end State

open Parse.State

variable {s t u : State} {events events' : List Event} {i : Nat}

/-! ### Runs -/

/-- The log leads from the first state to the second.  A checkpoint is the beginning of a choice: either its first
alternative succeeds, or the second does, or neither. -/
inductive Run : State → List Event → State → Prop where
  | nil (s : State) : Run s [] s
  | enter {s t : State} {events : List Event} (production : Production)
    (rest : Run (s.log (.enter production)) events t) : Run s (.enter production :: events) t
  | consume {s t : State} {events : List Event} (h : s.position.rest ≠ []) (rest : Run s.advance events t) :
    Run s (.consume s.position.index :: events) t
  | first {s t u : State} {events events' : List Event} (h : Run s.checkpoint events t)
    (rest : Run t.commit events' u) :
    Run s (.checkpoint s.position.index :: (events ++ .commit s.position.index :: events')) u
  | second {s t u v : State} {events events' events'' : List Event} (e : Located ParseError)
    (h : Run s.checkpoint events t) (h' : Run (t.rollback e) events' u) (rest : Run u.commit events'' v) :
    Run s (.checkpoint s.position.index :: (events ++ .rollback t.position.index e ::
      (events' ++ .commit s.position.index :: events''))) v
  | neither {s t u v : State} {events events' events'' : List Event} (e e' : Located ParseError)
    (h : Run s.checkpoint events t) (h' : Run (t.rollback e) events' u) (rest : Run (u.abandon e').2 events'' v) :
    Run s (.checkpoint s.position.index :: (events ++ .rollback t.position.index e ::
      (events' ++ .abandon u.position.index e' :: events''))) v

/-- A choice from its beginning to its end.  The second alternative starts where the choice did. -/
inductive Call : State → List Event → State → Prop where
  | first {s t : State} {events : List Event} (h : Run s.checkpoint events t) :
    Call s (.checkpoint s.position.index :: (events ++ [.commit s.position.index])) t.commit
  | second {s t u : State} {events events' : List Event} (e : Located ParseError) (h : Run s.checkpoint events t)
    (hback : (t.rollback e).position = s.position) (h' : Run (t.rollback e) events' u) :
    Call s (.checkpoint s.position.index :: (events ++ .rollback t.position.index e ::
      (events' ++ [.commit s.position.index]))) u.commit
  | neither {s t u : State} {events events' : List Event} (e e' : Located ParseError)
    (h : Run s.checkpoint events t) (hback : (t.rollback e).position = s.position)
    (h' : Run (t.rollback e) events' u) :
    Call s (.checkpoint s.position.index :: (events ++ .rollback t.position.index e ::
      (events' ++ [.abandon u.position.index e']))) (u.abandon e').2

namespace Run

/-- Runs follow one another. -/
theorem append (h : Run s events t) (h' : Run t events' u) : Run s (events ++ events') u := by
  induction h with
  | nil => exact h'
  | enter production _ ih => exact .enter production (ih h')
  | consume hrest _ ih => exact .consume hrest (ih h')
  | first h _ _ ih =>
    rw [List.cons_append, List.append_assoc]
    exact .first h (ih h')
  | second e h₁ h₂ _ _ _ ih =>
    rw [List.cons_append, List.append_assoc, List.cons_append, List.append_assoc]
    exact .second e h₁ h₂ (ih h')
  | neither e e' h₁ h₂ _ _ _ ih =>
    rw [List.cons_append, List.append_assoc, List.cons_append, List.append_assoc]
    exact .neither e e' h₁ h₂ (ih h')

/-- A run closes the checkpoints that it opens, and leaves the others where they are. -/
theorem marks_eq (h : Run s events t) : t.marks = s.marks := by
  induction h with
  | nil => rfl
  | enter _ _ ih => exact ih
  | consume _ _ ih => exact ih.trans marks_advance
  | first _ _ ih ih' => exact ih'.trans (marks_commit ih)
  | second e _ _ _ ih ih' ih'' => exact ih''.trans (marks_commit (ih'.trans ((marks_rollback e).trans ih)))
  | neither e e' _ _ _ ih ih' ih'' =>
    exact ih''.trans (marks_abandon (ih'.trans ((marks_rollback e).trans ih)) e')

/-- After the first alternative of a choice, its checkpoint is the innermost one. -/
private theorem marks_of_checkpoint (h : Run s.checkpoint events t) : t.marks = s.position :: s.marks := h.marks_eq

private theorem marks_of_rollback (h : Run s.checkpoint events t) {e : Located ParseError}
    (h' : Run (t.rollback e) events' u) : u.marks = s.position :: s.marks :=
  h'.marks_eq.trans ((marks_rollback e).trans h.marks_eq)

/-- A return to a checkpoint is a return to the place where it was set. -/
theorem position_rollback (h : Run s.checkpoint events t) (e : Located ParseError) :
    (t.rollback e).position = s.position := State.position_rollback h.marks_of_checkpoint e

end Run

private theorem fits_commit (h : t.marks = s.position :: s.marks) : t.Fits (.commit s.position.index) := by
  show t.marks.head?.map Position.index = some s.position.index
  rw [h]
  rfl

private theorem fits_rollback (h : t.marks = s.position :: s.marks) (e : Located ParseError) :
    t.Fits (.rollback t.position.index e) := ⟨by rw [h]; exact List.cons_ne_nil _ _, rfl⟩

private theorem fits_abandon (h : t.marks = s.position :: s.marks) (e : Located ParseError) :
    t.Fits (.abandon t.position.index e) := ⟨by rw [h]; exact List.cons_ne_nil _ _, rfl⟩

/-- The events of a run may come when they do, and a replay of them ends where the run does. -/
theorem Run.replays (h : Run s events t) : s.FitsAll events ∧ s.replay events = t := by
  -- after a part, an event that fits leads to the next
  have hthen {s t u : State} {events rest : List Event} {e : Event} (h : s.FitsAll events ∧ s.replay events = t)
      (he : t.Fits e) (hrest : (t.after e).FitsAll rest ∧ (t.after e).replay rest = u) :
      s.FitsAll (events ++ e :: rest) ∧ s.replay (events ++ e :: rest) = u := by
    obtain ⟨hfits, rfl⟩ := h
    rw [fitsAll_append, replay_append]
    exact ⟨⟨hfits, he, hrest.1⟩, hrest.2⟩
  induction h with
  | nil s => exact ⟨trivial, rfl⟩
  | enter production _ ih => exact ⟨⟨trivial, ih.1⟩, ih.2⟩
  | consume hrest _ ih => exact ⟨⟨⟨hrest, rfl⟩, ih.1⟩, ih.2⟩
  | first h _ ih ih' =>
    have hall := hthen ih (fits_commit h.marks_of_checkpoint) ih'
    exact ⟨⟨rfl, hall.1⟩, hall.2⟩
  | second e h₁ h₂ _ ih₁ ih₂ ih' =>
    have hlast := hthen ih₂ (fits_commit (h₁.marks_of_rollback h₂)) ih'
    have hall := hthen ih₁ (fits_rollback h₁.marks_of_checkpoint e) hlast
    exact ⟨⟨rfl, hall.1⟩, hall.2⟩
  | neither e e' h₁ h₂ _ ih₁ ih₂ ih' =>
    have hlast := hthen ih₂ (fits_abandon (h₁.marks_of_rollback h₂) e') ih'
    have hall := hthen ih₁ (fits_rollback h₁.marks_of_checkpoint e) hlast
    exact ⟨⟨rfl, hall.1⟩, hall.2⟩

/-- The events of a run are those it adds to the history. -/
theorem Run.history_eq (h : Run s events t) : t.history = events.reverse ++ s.history := by
  obtain ⟨hfits, rfl⟩ := h.replays
  exact history_replay hfits

/-- A choice is a run, with the events that open and close its checkpoint. -/
theorem Call.run (h : Call s events t) : Run s events t := by
  cases h with
  | first h => exact .first h (.nil _)
  | second e h _ h' => exact .second e h h' (.nil _)
  | neither e e' h _ h' => exact .neither e e' h h' (.nil _)

/-! ### Choices in a log -/

/-- If the next event opens a checkpoint, a choice begins, and it ends within the rest of the log. -/
def ChoiceBegins (s : State) (events : List Event) : Prop :=
  ∀ i more, events = .checkpoint i :: more →
    ∃ body rest, events = body ++ rest ∧ Call s body (s.replay body)

/-- A choice begins wherever a checkpoint is opened. -/
def ChoicesBegin (s : State) : List Event → Prop
  | [] => True
  | e :: events => ChoiceBegins s (e :: events) ∧ ChoicesBegin (s.after e) events

private theorem choiceBegins_append (h : ChoiceBegins s events) (hne : events ≠ []) :
    ChoiceBegins s (events ++ events') := by
  intro i more heq
  obtain ⟨e, events, rfl⟩ := List.exists_cons_of_ne_nil hne
  obtain ⟨rfl, -⟩ := List.cons.inj heq
  obtain ⟨body, rest, hbody, hcall⟩ := h i events rfl
  exact ⟨body, rest ++ events', by rw [hbody, List.append_assoc], hcall⟩

private theorem choicesBegin_append (h : ChoicesBegin s events) (h' : ChoicesBegin (s.replay events) events') :
    ChoicesBegin s (events ++ events') := by
  induction events generalizing s with
  | nil => exact h'
  | cons e events ih =>
    obtain ⟨hhere, hrest⟩ := h
    exact ⟨choiceBegins_append hhere (List.cons_ne_nil e events), ih hrest h'⟩

/-- The event does not open a checkpoint. -/
private theorem choicesBegin_cons {e : Event} (he : ∀ i, e ≠ .checkpoint i) (h : ChoicesBegin (s.after e) events) :
    ChoicesBegin s (e :: events) := by
  refine ⟨fun i more heq => ?_, h⟩
  obtain ⟨rfl, -⟩ := List.cons.inj heq
  exact absurd rfl (he i)

/-- A choice begins with the first event. -/
private theorem choicesBegin_call {more : List Event} (h : Call s (.checkpoint i :: events) t)
    (hmore : ChoicesBegin s.checkpoint (events ++ more)) : ChoicesBegin s (.checkpoint i :: (events ++ more)) := by
  refine ⟨fun j rest _ => ⟨.checkpoint i :: events, more, rfl, ?_⟩, hmore⟩
  obtain ⟨-, hreplay⟩ := h.run.replays
  rw [hreplay]
  exact h

/-- At every checkpoint that a run sets there stands a choice. -/
theorem Run.choicesBegin (h : Run s events t) : ChoicesBegin s events := by
  -- after a part, an event that opens no checkpoint leads to the next
  have hthen {s t : State} {events rest : List Event} {e : Event} (h : Run s events t) (hs : ChoicesBegin s events)
      (he : ∀ i, e ≠ .checkpoint i) (hrest : ChoicesBegin (t.after e) rest) :
      ChoicesBegin s (events ++ e :: rest) := by
    obtain ⟨-, rfl⟩ := h.replays
    exact choicesBegin_append hs (choicesBegin_cons he hrest)
  induction h with
  | nil s => trivial
  | enter production _ ih => exact choicesBegin_cons (by simp) ih
  | consume _ _ ih => exact choicesBegin_cons (by simp) ih
  | @first s t u events events' h _ ih ih' =>
    have hcall := Call.first h
    have hmore := hthen h ih (e := .commit s.position.index) (by simp) ih'
    have hsplit : events ++ .commit s.position.index :: events' =
        (events ++ [.commit s.position.index]) ++ events' := by simp
    rw [hsplit] at hmore ⊢
    exact choicesBegin_call hcall hmore
  | @second s t u v events events' events'' e h₁ h₂ _ ih₁ ih₂ ih' =>
    have hcall := Call.second e h₁ (h₁.position_rollback e) h₂
    have hlast := hthen h₂ ih₂ (e := .commit s.position.index) (by simp) ih'
    have hmore := hthen h₁ ih₁ (e := .rollback t.position.index e) (by simp) hlast
    have hsplit : events ++ .rollback t.position.index e :: (events' ++ .commit s.position.index :: events'') =
        (events ++ .rollback t.position.index e :: (events' ++ [.commit s.position.index])) ++ events'' := by simp
    rw [hsplit] at hmore ⊢
    exact choicesBegin_call hcall hmore
  | @neither s t u v events events' events'' e e' h₁ h₂ _ ih₁ ih₂ ih' =>
    have hcall := Call.neither e e' h₁ (h₁.position_rollback e) h₂
    have hlast := hthen h₂ ih₂ (e := .abandon u.position.index e') (by simp) ih'
    have hmore := hthen h₁ ih₁ (e := .rollback t.position.index e) (by simp) hlast
    have hsplit : events ++ .rollback t.position.index e :: (events' ++ .abandon u.position.index e' :: events'') =
        (events ++ .rollback t.position.index e :: (events' ++ [.abandon u.position.index e'])) ++ events'' := by simp
    rw [hsplit] at hmore ⊢
    exact choicesBegin_call hcall hmore

/-- Where a checkpoint is opened in a log, a choice begins from the state that the log has come to. -/
theorem ChoicesBegin.call {before more : List Event} (h : ChoicesBegin s (before ++ .checkpoint i :: more)) :
    ∃ body rest, .checkpoint i :: more = body ++ rest ∧
      Call (s.replay before) body ((s.replay before).replay body) := by
  induction before generalizing s with
  | nil => exact h.1 i more rfl
  | cons e before ih => exact ih h.2

end Scriptlet.Parse
