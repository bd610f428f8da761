import Mathlib.Data.List.Induction
import Scriptlet.Proofs.Checkpoints.Log
import Scriptlet.Proofs.Spans.Reader

/-!
# The errors that checkpoints keep

An account of the open checkpoints by the log alone: the cursor of each, and all errors that were recorded in it or
handed up to it while it was open (`Frame`).  A state is sound (`State.Sound`) if it agrees with this account.  The
cursors ascend up to that of the parse, every checkpoint keeps the latest of the furthest errors in its account, with a
length that is counted from its cursor, and the deepest error is the latest of the furthest ones of the whole log.

Every move of a parse keeps its state sound, provided that checkpoints are opened beyond those that are open
(`State.Sound.after`).
-/

namespace Scriptlet.Parse

/-! ### The latest of the furthest -/

/-- An error and the token before which it was met. -/
structure Failure where
  error : Located ParseError
  token : Nat
  deriving DecidableEq, Repr

/-- The error and the token of a ranked error. -/
def Ranked.failure (r : Ranked) : Failure := ⟨r.error, r.token⟩

namespace Failure

/-- The latest of the failures that got furthest: none before it got further, and those after it got less far. -/
def IsLatest (f : Failure) (failures : List Failure) : Prop :=
  ∃ before after, failures = before ++ f :: after ∧ (∀ g ∈ before, g.token ≤ f.token) ∧
    ∀ g ∈ after, g.token < f.token

/-- A new failure takes the place of one that did not get further. -/
def supersede : Option Failure → Failure → Option Failure
  | some old, new => if old.token ≤ new.token then some new else some old
  | none, new => some new

/-- The latest of the failures that got furthest, if there are any. -/
def latest (failures : List Failure) : Option Failure := failures.foldl supersede none

variable {f g : Failure} {failures : List Failure} {kept : Option Failure}

private theorem IsLatest.token_le (h : f.IsLatest failures) : ∀ g ∈ failures, g.token ≤ f.token := by
  obtain ⟨before, after, rfl, hbefore, hafter⟩ := h
  intro g hg
  rcases List.mem_append.1 hg with hg | hg
  · exact hbefore g hg
  · rcases List.mem_cons.1 hg with rfl | hg
    · exact Nat.le_refl g.token
    · exact Nat.le_of_lt (hafter g hg)

/-- One more failure is the latest of the furthest if none got further, and otherwise changes nothing. -/
private theorem isLatest_append : f.IsLatest (failures ++ [g]) ↔
    (f = g ∧ ∀ h ∈ failures, h.token ≤ g.token) ∨ (f.IsLatest failures ∧ g.token < f.token) := by
  constructor
  · rintro ⟨before, after, heq, hbefore, hafter⟩
    rcases List.eq_nil_or_concat after with rfl | ⟨after, last, rfl⟩
    · obtain ⟨rfl, hlast⟩ := List.append_inj' heq rfl
      cases hlast
      exact .inl ⟨rfl, hbefore⟩
    · rw [List.concat_eq_append, ← List.cons_append, ← List.append_assoc] at heq
      obtain ⟨rfl, hlast⟩ := List.append_inj' heq rfl
      cases hlast
      simp only [List.concat_eq_append, List.mem_append, List.mem_singleton] at hafter
      exact .inr ⟨⟨before, after, rfl, hbefore, fun h hh => hafter h (.inl hh)⟩, hafter g (.inr rfl)⟩
  · rintro (⟨rfl, hle⟩ | ⟨⟨before, after, rfl, hbefore, hafter⟩, hlt⟩)
    · exact ⟨failures, [], rfl, hle, fun h hh => absurd hh List.not_mem_nil⟩
    · refine ⟨before, after ++ [g], by simp, hbefore, fun h hh => ?_⟩
      rcases List.mem_append.1 hh with hh | hh
      · exact hafter h hh
      · rw [List.mem_singleton.1 hh]
        exact hlt

private theorem latest_append (failures : List Failure) (g : Failure) :
    latest (failures ++ [g]) = supersede (latest failures) g := by
  simp [latest]

private theorem latest_eq_none : latest failures = none ↔ failures = [] := by
  induction failures using List.reverseRecOn with
  | nil => simp [latest]
  | append_singleton failures g ih =>
    rw [latest_append]
    cases latest failures with
    | none => simp [supersede]
    | some old =>
      simp only [supersede]
      split <;> simp

private theorem latest_eq_some : latest failures = some f ↔ f.IsLatest failures := by
  induction failures using List.reverseRecOn generalizing f with
  | nil =>
    constructor
    · intro h
      cases h
    · rintro ⟨before, after, heq, -⟩
      simp at heq
  | append_singleton failures g ih =>
    rw [latest_append, isLatest_append]
    cases hlatest : latest failures with
    | none =>
      obtain rfl := latest_eq_none.1 hlatest
      have hnone : ¬ f.IsLatest [] := fun h => by
        rw [← ih, hlatest] at h
        cases h
      simp [supersede, hnone, eq_comm]
    | some old =>
      have hold : old.IsLatest failures := ih.1 hlatest
      simp only [supersede]
      by_cases hle : old.token ≤ g.token
      · -- none of the others got further than the old one
        have hall : ∀ h ∈ failures, h.token ≤ g.token := fun h hh => Nat.le_trans (hold.token_le h hh) hle
        have hnot : ¬ (f.IsLatest failures ∧ g.token < f.token) := by
          rintro ⟨hf, hlt⟩
          rw [← ih, hlatest] at hf
          cases hf
          omega
        simp only [if_pos hle, hnot, or_false, Option.some.injEq]
        exact ⟨fun h => ⟨h.symm, hall⟩, fun h => h.1.symm⟩
      · have hnot : ¬ ∀ h ∈ failures, h.token ≤ g.token := by
          intro hall
          obtain ⟨before, after, rfl, -⟩ := hold
          exact hle (hall old (by simp))
        rw [if_neg hle, ← hlatest, ih]
        simp only [hnot, and_false, false_or]
        refine ⟨fun hf => ⟨hf, ?_⟩, fun hf => hf.1⟩
        rw [← ih, hlatest] at hf
        cases hf
        omega

/-- What is kept is the latest of the furthest. -/
private theorem keeps_latest (h : kept = latest failures) : ∀ f, kept = some f ↔ f.IsLatest failures := by
  intro f
  rw [h, latest_eq_some]

private theorem eq_latest (h : ∀ f, kept = some f ↔ f.IsLatest failures) : kept = latest failures := by
  apply Option.ext
  intro f
  rw [latest_eq_some]
  exact h f

end Failure

/-! ### The account of a log -/

/-- The failure that an event records. -/
def Event.failure? : Event → Option Failure
  | .rollback i e | .abandon i e => some ⟨e, i⟩
  | .enter _ | .consume _ | .checkpoint _ | .commit _ => none

/-- The failures that a log records, in order. -/
def recorded (events : List Event) : List Failure := events.filterMap Event.failure?

/-- An open checkpoint: its cursor, and the failures recorded or handed up to it while it was open. -/
structure Frame where
  cursor : Nat
  failures : List Failure

namespace Frame

/-- Adds a failure to the innermost checkpoint. -/
def note (f : Failure) : List Frame → List Frame
  | [] => []
  | frame :: outer => { frame with failures := frame.failures ++ [f] } :: outer

/-- The open checkpoints after an event.  One that is committed hands up the latest of its furthest failures; one that
is given up hands up nothing, as its error is met again by the choice around it. -/
def after (frames : List Frame) : Event → List Frame
  | .enter _ | .consume _ => frames
  | .checkpoint i => ⟨i, []⟩ :: frames
  | .commit _ =>
    match frames with
    | [] => []
    | frame :: outer =>
      match Failure.latest frame.failures with
      | some f => note f outer
      | none => outer
  | .rollback i e => note ⟨e, i⟩ frames
  | .abandon _ _ => frames.tail

/-- The open checkpoints after a log, the innermost first. -/
def ofLog (events : List Event) : List Frame := events.foldl after []

variable {frame : Frame} {frames : List Frame} {events : List Event}

private theorem ofLog_append (events : List Event) (e : Event) : ofLog (events ++ [e]) = after (ofLog events) e := by
  simp [ofLog]

private theorem cursor_of_mem_note {f : Failure} (h : frame ∈ note f frames) :
    ∃ g ∈ frames, g.cursor = frame.cursor := by
  cases frames with
  | nil => cases h
  | cons first outer =>
    rcases List.mem_cons.1 h with rfl | h
    · exact ⟨first, List.mem_cons_self, rfl⟩
    · exact ⟨frame, List.mem_cons_of_mem _ h, rfl⟩

private theorem cursor_of_mem_after {e : Event} (h : frame ∈ after frames e) :
    (∃ g ∈ frames, g.cursor = frame.cursor) ∨ e.opened? = some frame.cursor := by
  cases e with
  | enter _ | consume _ => exact .inl ⟨frame, h, rfl⟩
  | checkpoint i =>
    rcases List.mem_cons.1 h with rfl | h
    · exact .inr rfl
    · exact .inl ⟨frame, h, rfl⟩
  | commit i =>
    cases frames with
    | nil => cases h
    | cons first outer =>
      unfold after at h
      simp only at h
      split at h
      · obtain ⟨g, hg, hcursor⟩ := cursor_of_mem_note h
        exact .inl ⟨g, List.mem_cons_of_mem first hg, hcursor⟩
      · exact .inl ⟨frame, List.mem_cons_of_mem first h, rfl⟩
  | rollback i e => exact .inl (cursor_of_mem_note h)
  | abandon i e => exact .inl ⟨frame, List.mem_of_mem_tail h, rfl⟩

/-- The open checkpoints are some of those that have been opened. -/
private theorem cursor_mem_opened (h : frame ∈ ofLog events) : frame.cursor ∈ events.filterMap Event.opened? := by
  induction events using List.reverseRecOn generalizing frame with
  | nil => cases h
  | append_singleton events e ih =>
    rw [ofLog_append] at h
    rw [List.filterMap_append, List.mem_append]
    rcases cursor_of_mem_after h with ⟨g, hg, hcursor⟩ | hopened
    · exact .inl (hcursor ▸ ih hg)
    · exact .inr (by simp [hopened])

end Frame

/-! ### Soundness -/

/-- The position is one in the tokens. -/
structure Position.IsIn (ts : List Token) (p : Position) : Prop where
  index_le : p.index ≤ ts.length
  eq_skip : p = (Position.start ts).skip p.index

/-- A checkpoint agrees with its account.  Its best error, if any, is the latest of the furthest failures in the
account; it was met at or beyond the cursor, and its length is counted from there, so that of two failures at or beyond
the cursor the one with the smaller length is the one at the smaller token. -/
structure Checkpoint.Keeps (ts : List Token) (c : Checkpoint) (frame : Frame) : Prop where
  position : c.position.IsIn ts
  cursor : c.position.index = frame.cursor
  best : ∀ f, c.best.map Ranked.failure = some f ↔ f.IsLatest frame.failures
  ranked : ∀ r, c.best = some r → frame.cursor ≤ r.token ∧ r.length = r.token - frame.cursor
  criteria : ∀ r, c.best = some r → ∀ token, frame.cursor ≤ token →
    (token - frame.cursor < r.length ↔ token < r.token)

/-- The state agrees with the account of its log. -/
structure State.Sound (ts : List Token) (frames : List Frame) (recorded : List Failure) (s : State) : Prop where
  position : s.position.IsIn ts
  checkpoints : List.Forall₂ (Checkpoint.Keeps ts) s.checkpoints frames
  ascending : (s.marks.map Position.index).Pairwise (· > ·)
  top : ∀ mark ∈ s.marks.head?, mark.index ≤ s.position.index
  deepest : ∀ f, s.deepest.map Ranked.failure = some f ↔ f.IsLatest recorded

section Sound

variable {ts : List Token} {c d : Checkpoint} {frame : Frame} {frames : List Frame} {failures : List Failure}
  {r : Ranked} {s : State} {p : Position} {events : List Event}

private theorem Position.IsIn.start (ts : List Token) : (Position.start ts).IsIn ts := ⟨Nat.zero_le _, rfl⟩

private theorem Position.IsIn.next (h : p.IsIn ts) (hrest : p.rest ≠ []) : p.next.IsIn ts ∧ p.index < p.next.index := by
  have hlt : p.index < ts.length := by
    rcases Nat.lt_or_ge p.index ts.length with hlt | hge
    · exact hlt
    · rw [h.eq_skip, Descent.rest_start, List.drop_eq_nil_of_le hge] at hrest
      exact absurd rfl hrest
  have hnext : p.next = (Position.start ts).skip (p.index + 1) := by
    rw [h.eq_skip, Descent.next_start, ← h.eq_skip]
  have hindex : p.next.index = p.index + 1 := by
    rw [hnext, Position.index_skip hlt]
    exact Nat.zero_add _
  refine ⟨⟨?_, ?_⟩, ?_⟩
  · rw [hindex]
    exact hlt
  · rw [hindex]
    exact hnext
  · rw [hindex]
    exact Nat.lt_succ_self _

/-! ### Errors offered to a checkpoint -/

private theorem Checkpoint.keeps_new (h : p.IsIn ts) : Checkpoint.Keeps ts ⟨p, none⟩ ⟨p.index, []⟩ where
  position := h
  cursor := rfl
  best := Failure.keeps_latest rfl
  ranked r hr := by cases hr
  criteria r hr := by cases hr

private theorem Checkpoint.Keeps.of_ranked (hposition : c.position.IsIn ts) (hcursor : c.position.index = frame.cursor)
    (hbest : c.best.map Ranked.failure = Failure.latest frame.failures)
    (hranked : ∀ r, c.best = some r → frame.cursor ≤ r.token ∧ r.length = r.token - frame.cursor) :
    c.Keeps ts frame := by
  refine ⟨hposition, hcursor, Failure.keeps_latest hbest, hranked, fun r hr token hle => ?_⟩
  obtain ⟨hfrom, hlength⟩ := hranked r hr
  rw [hlength]
  omega

/-- An error at or beyond the cursor, with its length counted from there, takes its place in the account. -/
private theorem Checkpoint.Keeps.offer (h : c.Keeps ts frame) (hle : frame.cursor ≤ r.token)
    (hlength : r.length = r.token - frame.cursor) :
    (c.offer r).Keeps ts { frame with failures := frame.failures ++ [r.failure] } := by
  have hkept := Failure.eq_latest h.best
  have hoffer : (c.offer r).best.map Ranked.failure =
      Failure.supersede (c.best.map Ranked.failure) r.failure ∧
        ((c.offer r).best = some r ∨ (c.offer r).best = c.best) := by
    unfold Checkpoint.offer
    cases hold : c.best with
    | none => exact ⟨rfl, .inl rfl⟩
    | some old =>
      have hcriteria := h.criteria old hold r.token hle
      rw [← hlength] at hcriteria
      by_cases hlt : r.token < old.token
      · have hkeep : ¬ old.failure.token ≤ r.failure.token := Nat.not_le.2 hlt
        simp only [hcriteria, or_self, if_pos hlt, hold]
        exact ⟨(if_neg hkeep).symm, .inr trivial⟩
      · have htake : old.failure.token ≤ r.failure.token := Nat.not_lt.1 hlt
        simp only [hcriteria, or_self, if_neg hlt]
        exact ⟨(if_pos htake).symm, .inl trivial⟩
  refine .of_ranked ?_ ?_ ?_ fun r' hr' => ?_
  · rw [State.position_offer]
    exact h.position
  · rw [State.position_offer]
    exact h.cursor
  · rw [hoffer.1, hkept, ← Failure.latest_append]
  · rcases hoffer.2 with hbest | hbest
    · rw [hbest] at hr'
      cases hr'
      exact ⟨hle, hlength⟩
    · rw [hbest] at hr'
      exact h.ranked r' hr'

/-! ### Moves -/

namespace State.Sound

open Parse.State

private theorem start (ts : List Token) : (State.start ts).Sound ts [] [] where
  position := .start ts
  checkpoints := .nil
  ascending := .nil
  top mark hmark := by cases hmark
  deepest := Failure.keeps_latest rfl

/-- The log has no part in this. -/
private theorem log (h : s.Sound ts frames failures) (e : Event) : (s.log e).Sound ts frames failures :=
  ⟨h.position, h.checkpoints, h.ascending, h.top, h.deepest⟩

private theorem advance (h : s.Sound ts frames failures) (hrest : s.position.rest ≠ []) :
    s.advance.Sound ts frames failures := by
  obtain ⟨hposition, hlt⟩ := h.position.next hrest
  refine ⟨?_, ?_, ?_, fun mark hmark => ?_, ?_⟩
  · rw [position_advance]
    exact hposition
  · rw [checkpoints_advance]
    exact h.checkpoints
  · rw [marks_advance]
    exact h.ascending
  · rw [marks_advance] at hmark
    rw [position_advance]
    exact Nat.le_of_lt (Nat.lt_of_le_of_lt (h.top mark hmark) hlt)
  · rw [deepest_advance]
    exact h.deepest

/-- The cursors of the account are those of the state. -/
private theorem cursors (h : s.Sound ts frames failures) : frames.map Frame.cursor = s.marks.map Position.index := by
  have hmap : ∀ {cs : List Checkpoint} {frames : List Frame}, List.Forall₂ (Checkpoint.Keeps ts) cs frames →
      frames.map Frame.cursor = (cs.map Checkpoint.position).map Position.index := by
    intro cs frames h
    induction h with
    | nil => rfl
    | cons hc _ ih => rw [List.map_cons, List.map_cons, List.map_cons, ih, hc.cursor]
  exact hmap h.checkpoints

/-- A checkpoint is opened beyond those that are open. -/
private theorem checkpoint (h : s.Sound ts frames failures) (hlt : ∀ frame ∈ frames, frame.cursor < s.position.index) :
    s.checkpoint.Sound ts (⟨s.position.index, []⟩ :: frames) failures where
  position := h.position
  checkpoints := .cons (Checkpoint.keeps_new h.position) h.checkpoints
  ascending := by
    refine List.pairwise_cons.2 ⟨fun index hindex => ?_, h.ascending⟩
    have hcursor : index ∈ frames.map Frame.cursor := h.cursors ▸ hindex
    obtain ⟨frame, hframe, rfl⟩ := List.mem_map.1 hcursor
    exact hlt frame hframe
  top mark hmark := by
    cases hmark
    exact Nat.le_refl _
  deepest := h.deepest

/-- Recording an error where the parse stands adds it to the account of the innermost checkpoint, and to that of the
whole log. -/
private theorem record (h : s.Sound ts (frame :: frames) failures) (e : Located ParseError) :
    (s.record e).Sound ts (Frame.note ⟨e, s.position.index⟩ (frame :: frames))
      (failures ++ [⟨e, s.position.index⟩]) := by
  obtain ⟨position, checkpoints, deepest, history⟩ := s
  obtain ⟨hposition, hcheckpoints, hascending, htop, hdeepest⟩ := h
  cases hcheckpoints with
  | @cons c _ outer _ hc houter =>
    have hle : frame.cursor ≤ position.index := hc.cursor ▸ htop c.position rfl
    obtain ⟨hcs, hd⟩ := record_eq (s := ⟨position, c :: outer, deepest, history⟩) rfl e
    have hmarks := marks_record (s := ⟨position, c :: outer, deepest, history⟩) e
    have hpos := position_record ⟨position, c :: outer, deepest, history⟩ e
    refine ⟨?_, ?_, ?_, ?_, Failure.keeps_latest ?_⟩
    · rw [hpos]
      exact hposition
    · rw [hcs]
      refine .cons (hc.offer (r := ⟨e, position.index - c.position.index, position.index⟩) hle ?_) houter
      rw [hc.cursor]
    · rw [hmarks]
      exact hascending
    · rw [hmarks, hpos]
      exact htop
    · have hkept := Failure.eq_latest hdeepest
      rw [Failure.latest_append, ← hkept, hd]
      cases deepest with
      | none => rfl
      | some old =>
        unfold Failure.supersede
        by_cases hold : old.token ≤ position.index
        · have hold' : old.failure.token ≤ position.index := hold
          simp only [if_pos hold, Option.map_some, if_pos hold']
          rfl
        · have hold' : ¬ old.failure.token ≤ position.index := hold
          simp only [if_neg hold, Option.map_some, if_neg hold']

private theorem rollback (h : s.Sound ts (frame :: frames) failures) (e : Located ParseError) :
    (s.rollback e).Sound ts (Frame.note ⟨e, s.position.index⟩ (frame :: frames))
      (failures ++ [⟨e, s.position.index⟩]) := by
  have hrecord := (h.log (.rollback s.position.index e)).record e
  unfold State.rollback
  simp only
  split
  · exact hrecord
  · next c outer hc =>
    have hkeeps := hrecord.checkpoints
    rw [hc] at hkeeps
    cases hkeeps with
    | cons hkeep _ =>
      refine ⟨hkeep.position, hrecord.checkpoints, hrecord.ascending, fun mark hmark => ?_, hrecord.deepest⟩
      -- the parse has gone back to the innermost checkpoint
      have hmark' : mark = c.position := by
        have hhead :
            (State.marks { (s.log (.rollback s.position.index e)).record e with position := c.position }).head? =
            some c.position := by
          show (((s.log (.rollback s.position.index e)).record e).checkpoints.map Checkpoint.position).head? = _
          rw [hc]
          rfl
        rw [hhead] at hmark
        cases hmark
        rfl
      exact Nat.le_of_eq (congrArg Position.index hmark')

/-- The cursor of the checkpoint around the innermost one is not beyond the parse. -/
private theorem top_of_pairwise {marks : List Position} {mark : Position} {i : Nat}
    (h : ((mark :: marks).map Position.index).Pairwise (· > ·)) (hle : mark.index ≤ i) :
    ∀ outer ∈ marks.head?, outer.index ≤ i := by
  intro outer houter
  obtain ⟨hlt, -⟩ := List.pairwise_cons.1 h
  have hmem : outer.index ∈ marks.map Position.index := List.mem_map_of_mem (List.mem_of_mem_head? houter)
  have houterlt : outer.index < mark.index := hlt outer.index hmem
  omega

private theorem abandon (h : s.Sound ts (frame :: frames) failures) (e : Located ParseError) :
    (s.abandon e).2.Sound ts frames (failures ++ [⟨e, s.position.index⟩]) := by
  have hrecord := (h.log (.abandon s.position.index e)).record e
  have hkeeps := hrecord.checkpoints
  have hascending := hrecord.ascending
  have htop := hrecord.top
  unfold State.marks at hascending htop
  unfold State.abandon
  simp only
  split
  · next hc =>
    rw [hc] at hkeeps
    cases hkeeps
  · next c outer hc =>
    rw [hc] at hkeeps hascending htop
    cases hkeeps with
    | cons _ houter =>
      refine ⟨hrecord.position, houter, (List.pairwise_cons.1 hascending).2, ?_, hrecord.deepest⟩
      exact top_of_pairwise hascending (htop c.position rfl)

/-- The checkpoint around one that is committed is handed the latest of its furthest errors. -/
private theorem keeps_commit (h : s.Sound ts (frame :: frames) failures) :
    List.Forall₂ (Checkpoint.Keeps ts) s.commit.checkpoints (Frame.after (frame :: frames) (.commit frame.cursor)) := by
  obtain ⟨position, checkpoints, deepest, history⟩ := s
  obtain ⟨-, hcheckpoints, hascending, -, -⟩ := h
  cases hcheckpoints with
  | @cons c _ outer _ hc houter =>
    have hkept := Failure.eq_latest hc.best
    unfold Frame.after
    simp only
    rcases checkpoints_commit (s := ⟨position, c :: outer, deepest, history⟩) rfl with
      ⟨hcs, hnone | rfl⟩ | ⟨r, d, rest, hr, rfl, hcs⟩
    · -- there is no error to hand up
      rw [hnone] at hkept
      rw [hcs, ← hkept]
      exact houter
    · -- there is no checkpoint to hand it to
      cases houter
      rw [hcs]
      split <;> exact .nil
    · rw [hr] at hkept
      rw [hcs, ← hkept]
      cases houter with
      | @cons _ frame' _ frames' hd hrest =>
        have hlt : d.position.index < c.position.index := (List.pairwise_cons.1 hascending).1 _ List.mem_cons_self
        obtain ⟨hfrom, -⟩ := hc.ranked r hr
        have hle : frame'.cursor ≤ r.token := by
          rw [← hd.cursor]
          rw [hc.cursor] at hlt
          omega
        refine .cons (hd.offer (r := { r with length := r.token - d.position.index }) hle ?_) hrest
        rw [hd.cursor]

private theorem commit (h : s.Sound ts (frame :: frames) failures) :
    s.commit.Sound ts (Frame.after (frame :: frames) (.commit frame.cursor)) failures := by
  have hkeeps := h.keeps_commit
  obtain ⟨position, checkpoints, deepest, history⟩ := s
  obtain ⟨hposition, hcheckpoints, hascending, htop, hdeepest⟩ := h
  cases hcheckpoints with
  | @cons c _ outer _ _ _ =>
    have hmarks : (State.commit ⟨position, c :: outer, deepest, history⟩).marks = outer.map Checkpoint.position :=
      marks_commit (p := c.position) rfl
    refine ⟨?_, hkeeps, ?_, ?_, ?_⟩
    · rw [position_commit]
      exact hposition
    · rw [hmarks]
      exact (List.pairwise_cons.1 hascending).2
    · rw [hmarks, position_commit]
      exact top_of_pairwise hascending (htop c.position rfl)
    · rw [deepest_commit]
      exact hdeepest

/-- Where a checkpoint is open, the account has one. -/
private theorem exists_frame (h : s.Sound ts frames failures) (hne : s.marks ≠ []) :
    ∃ frame outer, frames = frame :: outer ∧ s.marks.head?.map Position.index = some frame.cursor := by
  have hcursors := h.cursors
  cases frames with
  | nil => exact absurd (List.map_eq_nil_iff.1 hcursors.symm) hne
  | cons frame outer => exact ⟨frame, outer, rfl, by rw [← List.head?_map, ← hcursors]; rfl⟩

/-- A move keeps the state sound, if it opens no checkpoint at or before one that is open. -/
theorem after {e : Event} (h : s.Sound ts (Frame.ofLog events) (recorded events)) (hfits : s.Fits e)
    (hlt : ∀ i, e = .checkpoint i → ∀ frame ∈ Frame.ofLog events, frame.cursor < i) :
    (s.after e).Sound ts (Frame.ofLog (events ++ [e])) (recorded (events ++ [e])) := by
  have hrecorded : recorded (events ++ [e]) = recorded events ++ e.failure?.toList := by
    unfold recorded
    rw [List.filterMap_append]
    cases hfailure : e.failure? <;> simp [hfailure]
  rw [Frame.ofLog_append, hrecorded]
  cases e with
  | enter production =>
    rw [show (Event.enter production).failure?.toList = [] from rfl, List.append_nil]
    exact h.log (.enter production)
  | consume i =>
    rw [show (Event.consume i).failure?.toList = [] from rfl, List.append_nil]
    exact h.advance hfits.1
  | checkpoint i =>
    rw [show (Event.checkpoint i).failure?.toList = [] from rfl, List.append_nil]
    cases hfits
    exact h.checkpoint (hlt _ rfl)
  | commit i =>
    rw [show (Event.commit i).failure?.toList = [] from rfl, List.append_nil]
    have hne : s.marks ≠ [] := by
      intro hnil
      have hhead : s.marks.head?.map Position.index = some i := hfits
      rw [hnil] at hhead
      cases hhead
    obtain ⟨frame, outer, hframes, -⟩ := h.exists_frame hne
    rw [hframes] at h ⊢
    exact h.commit
  | rollback i error =>
    obtain ⟨hne, rfl⟩ := hfits
    obtain ⟨frame, outer, hframes, -⟩ := h.exists_frame hne
    rw [hframes] at h ⊢
    exact h.rollback error
  | abandon i error =>
    obtain ⟨hne, rfl⟩ := hfits
    obtain ⟨frame, outer, hframes, -⟩ := h.exists_frame hne
    rw [hframes] at h ⊢
    exact h.abandon error

end State.Sound

/-- A log whose events may come when they do, and that opens each checkpoint beyond those before it, leads to a sound
state. -/
theorem sound_replay (hfits : (State.start ts).FitsAll events)
    (hascending : (events.filterMap Event.opened?).Pairwise (· < ·)) :
    ((State.start ts).replay events).Sound ts (Frame.ofLog events) (recorded events) := by
  induction events using List.reverseRecOn with
  | nil => exact .start ts
  | append_singleton events e ih =>
    obtain ⟨hbefore, hlast, -⟩ := State.fitsAll_append.1 hfits
    rw [List.filterMap_append] at hascending
    obtain ⟨hbefore', -, hlt⟩ := List.pairwise_append.1 hascending
    rw [State.replay_append]
    refine (ih hbefore hbefore').after hlast fun i he frame hframe => ?_
    subst he
    exact hlt frame.cursor (Frame.cursor_mem_opened hframe) i (by simp [Event.opened?])

/-- In between, when an alternative has failed and its error has been recorded, the state is sound as well. -/
theorem sound_record {e : Event} {f : Failure} (hfits : (State.start ts).FitsAll (events ++ [e]))
    (hascending : (events.filterMap Event.opened?).Pairwise (· < ·)) (hf : e.failure? = some f) :
    ((((State.start ts).replay events).log e).record f.error).Sound ts (Frame.note f (Frame.ofLog events))
      (recorded events ++ [f]) := by
  obtain ⟨hbefore, hlast, -⟩ := State.fitsAll_append.1 hfits
  have hsound := sound_replay hbefore hascending
  have hhere : ((State.start ts).replay events).marks ≠ [] ∧
      f.token = ((State.start ts).replay events).position.index := by
    cases e with
    | rollback i error | abandon i error =>
      cases hf
      exact hlast
    | enter _ | consume _ | checkpoint _ | commit _ => cases hf
  obtain ⟨frame, outer, hframes, -⟩ := hsound.exists_frame hhere.1
  rw [hframes] at hsound ⊢
  have hrecord := (hsound.log e).record f.error
  have hfailure : f = ⟨f.error, ((State.start ts).replay events).position.index⟩ := by rw [← hhere.2]
  rw [hfailure]
  exact hrecord

end Sound

end Scriptlet.Parse
