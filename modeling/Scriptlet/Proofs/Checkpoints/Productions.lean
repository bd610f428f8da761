import Scriptlet.Proofs.Checkpoints.Failures
import Scriptlet.Proofs.Speculation.Statements
import Scriptlet.Proofs.Thrift.Productions

/-!
# The logs of parses

`Runs x` says that from every state, whatever it comes to, the parser `x` adds the events of a run to the log.  It is a
class, so that it is found for each parser from the parsers that it is put together from; only loops and nesting need
an induction.  A choice is a call (`Runs.orElse`).

The log of a whole parse, then, has its checkpoints in brackets, and every state on the way agrees with the account of
its log (`parse_keeps_account`).
-/

namespace Scriptlet.Parse

open Parse.State
open Scriptlet.Parser

variable {α β : Type}

/-- The parser has come to the end of a run, unless it ran out of depth or rounds. -/
def EndsRun (s : State) : EStateM.Result Stop State α → Prop
  | .ok _ t | .error (.error _) t => ∃ events, Run s events t
  | .error .exhausted _ => True

/-- What the parser does is a run. -/
class Runs (x : Parser α) : Prop where
  endsRun : ∀ s, EndsRun s (x s)

namespace Runs

/-! ### Sequences and single tokens -/

private theorem of_rest {x : Parser α} {s t : State} {events : List Event} (h : Run s events t)
    (hx : EndsRun t (x t)) : EndsRun s (x t) := by
  unfold EndsRun at hx ⊢
  split at hx
  · obtain ⟨events', h'⟩ := hx
    exact ⟨events ++ events', h.append h'⟩
  · obtain ⟨events', h'⟩ := hx
    exact ⟨events ++ events', h.append h'⟩
  · trivial

instance pure (a : α) : Runs (Pure.pure a : Parser α) := ⟨fun s => ⟨[], .nil s⟩⟩

instance bind (x : Parser α) (f : α → Parser β) [hx : Runs x] [hf : ∀ a, Runs (f a)] : Runs (x >>= f) := by
  refine ⟨fun s => ?_⟩
  have hfirst := hx.endsRun s
  cases h : x s with
  | ok a t =>
    rw [h] at hfirst
    obtain ⟨events, hrun⟩ := hfirst
    rw [bind_of_ok h]
    exact of_rest hrun ((hf a).endsRun t)
  | error e t =>
    rw [h] at hfirst
    rw [bind_of_error h]
    cases e with
    | error e => exact hfirst
    | exhausted => trivial

instance ite (c : Prop) [Decidable c] (x y : Parser α) [Runs x] [Runs y] : Runs (if c then x else y) := by
  split <;> infer_instance

instance : Runs peekKind := ⟨fun s => ⟨[], .nil s⟩⟩

instance : Runs nextSpan := ⟨fun s => ⟨[], .nil s⟩⟩

instance : Runs lastSpan := ⟨fun s => ⟨[], .nil s⟩⟩

instance : Runs rounds := ⟨fun s => ⟨[], .nil s⟩⟩

instance (e : Expected) : Runs (unexpected e : Parser α) := ⟨fun s => ⟨[], .nil s⟩⟩

instance (text : String) : Runs (outOfRange text : Parser α) := ⟨fun s => ⟨[], .nil s⟩⟩

instance : Runs (exhausted : Parser α) := ⟨fun _ => trivial⟩

instance (p : Production) : Runs (enter p) := ⟨fun _ => ⟨[.enter p], .enter p (.nil _)⟩⟩

instance : Runs advance := by
  refine ⟨fun s => ?_⟩
  by_cases hrest : s.position.rest = []
  · have hstay : s.advance = s := by
      unfold State.advance
      rw [hrest]
    have hadvance : Parser.advance s = .ok () s := congrArg (EStateM.Result.ok ()) hstay
    rw [hadvance]
    exact ⟨[], .nil s⟩
  · exact ⟨[.consume s.position.index], .consume hrest (.nil s.advance)⟩

/-- A choice is a call: its first alternative succeeds, or it goes back and tries the second. -/
instance orElse (first second : Parser α) [hx : Runs first] [hy : Runs second] : Runs (orElse first second) := by
  refine ⟨fun s => ?_⟩
  have hfirst := hx.endsRun s.checkpoint
  unfold Parser.orElse
  cases h : first s.checkpoint with
  | ok a t =>
    rw [h] at hfirst
    obtain ⟨events, hrun⟩ := hfirst
    exact ⟨_, (Call.first hrun).run⟩
  | error stop t =>
    cases stop with
    | exhausted => trivial
    | error e =>
      rw [h] at hfirst
      obtain ⟨events, hrun⟩ := hfirst
      have hback := hrun.position_rollback e
      have hsecond := hy.endsRun (t.rollback e)
      simp only
      cases h' : second (t.rollback e) with
      | ok a u =>
        rw [h'] at hsecond
        obtain ⟨events', hrun'⟩ := hsecond
        exact ⟨_, (Call.second e hrun hback hrun').run⟩
      | error stop u =>
        cases stop with
        | exhausted => trivial
        | error e' =>
          rw [h'] at hsecond
          obtain ⟨events', hrun'⟩ := hsecond
          exact ⟨_, (Call.neither e e' hrun hback hrun').run⟩

instance (s : Symbol) : Runs (atSymbol s) := by unfold atSymbol; infer_instance

instance (k : Keyword) : Runs (atKeyword k) := by unfold atKeyword; infer_instance

instance (s : Symbol) : Runs (take s) := by unfold take; infer_instance

instance (k : Keyword) : Runs (takeKeyword k) := by unfold takeKeyword; infer_instance

instance (s : Symbol) : Runs (symbol s) := by unfold symbol; infer_instance

instance (k : Keyword) : Runs (keyword k) := by unfold keyword; infer_instance

instance : Runs separator := by unfold separator; infer_instance

instance (negative : Bool) (text : String) : Runs (intValue negative text) := by
  unfold intValue; split <;> infer_instance

instance (text : String) : Runs (doubleValue text) := by unfold doubleValue; split <;> infer_instance

/-- A choice by the next token. -/
private theorem peek {f : Option TokenKind → Parser α} (h : ∀ k, Runs (f k)) : Runs (peekKind >>= f) := inferInstance

instance : Runs ident := by
  refine peek fun k => ?_
  split <;> infer_instance

/-! ### Combinations -/

instance (x : Parser (Span → α)) [Runs x] : Runs (spanned x) := by unfold spanned; infer_instance

instance items (item : Parser α) [Runs item] (fuel : Nat) : Runs (items item fuel) := by
  induction fuel <;> unfold Parser.items <;> infer_instance

instance (item : Parser α) [Runs item] : Runs (list item) := by unfold list; infer_instance

/-! ### Expressions -/

instance leftAssocFrom (ops : Level) (operand : Parser Expr) [Runs operand] (fuel : Nat) (lhs : Expr) :
    Runs (leftAssocFrom ops operand fuel lhs) := by
  induction fuel generalizing lhs with
  | zero => exact inferInstanceAs (Runs exhausted)
  | succ fuel ih =>
    refine peek fun k => ?_
    split <;> infer_instance

instance (ops : Level) (operand : Parser Expr) [Runs operand] : Runs (leftAssoc ops operand) := by
  unfold leftAssoc; infer_instance

instance powerFrom (operand : Parser Expr) [Runs operand] (fuel : Nat) : Runs (powerFrom operand fuel) := by
  induction fuel <;> unfold Parser.powerFrom <;> infer_instance

instance unaryFrom (operand : Parser Expr) [Runs operand] (fuel : Nat) : Runs (unaryFrom operand fuel) := by
  induction fuel with
  | zero => exact inferInstanceAs (Runs exhausted)
  | succ fuel ih =>
    refine peek fun k => ?_
    split <;> infer_instance

section Expressions

variable (inner : Parser Expr) [Runs inner]

instance : Runs (callExpr inner) := by unfold callExpr; infer_instance

instance : Runs nameExpr := by unfold nameExpr; infer_instance

instance : Runs (primary inner) := by
  unfold primary
  refine @bind _ _ _ _ _ fun _ => @bind _ _ _ _ _ fun span => peek fun k => ?_
  split <;> infer_instance

instance : Runs (unary inner) := by unfold unary; infer_instance

instance : Runs (power inner) := by unfold power; infer_instance

instance : Runs (product inner) := by unfold product; infer_instance

instance : Runs (sum inner) := by unfold sum; infer_instance

instance : Runs (relation inner) := by unfold relation; infer_instance

instance : Runs (logic inner) := by unfold logic; infer_instance

end Expressions

instance expr (depth : Nat) : Runs (expr depth) := by
  induction depth <;> unfold Parser.expr <;> infer_instance

/-! ### Parts of statements -/

instance : Runs typeName := by
  refine peek fun k => ?_
  split <;> infer_instance

instance (s : Symbol) : Runs (typeAfter s) := by unfold typeAfter; infer_instance

instance : Runs param := by unfold param; infer_instance

instance : Runs intConst := by
  refine @bind _ _ _ _ _ fun negative => peek fun k => ?_
  split <;> infer_instance

instance (negative : Bool) : Runs (constValue negative) := by
  refine peek fun k => ?_
  split <;> infer_instance

instance : Runs const := by unfold const; infer_instance

instance constsFrom (fuel : Nat) : Runs (constsFrom fuel) := by
  induction fuel <;> unfold Parser.constsFrom <;> infer_instance

instance : Runs caseRange := by unfold caseRange; infer_instance

theorem comparatorOf (first : Const) (others : List Const) : Runs (match others with
    | [] => (Pure.pure (.const first) : Parser Comparator)
    | others => Pure.pure (.oneOf (first :: others))) := by
  split <;> infer_instance

instance : Runs comparator := by
  have := comparatorOf
  unfold comparator
  infer_instance

set_option synthInstance.maxSize 256 in
instance : Runs forRange := by unfold forRange; infer_instance

/-! ### Statements -/

section Statements

variable (e : Parser Expr) (b : Parser Block) [Runs e] [Runs b]

instance : Runs (iterable e) := by unfold iterable; infer_instance

instance (k : Keyword) : Runs (decl e k) := by unfold decl; infer_instance

instance : Runs (printStmt e) := by unfold printStmt; infer_instance

instance : Runs (returnStmt e) := by unfold returnStmt; infer_instance

instance : Runs (assignStmt e) := by unfold assignStmt; infer_instance

instance : Runs (callStmt e) := by unfold callStmt; infer_instance

instance : Runs (forStmt e b) := by unfold forStmt; infer_instance

instance : Runs (whileStmt e b) := by unfold whileStmt; infer_instance

set_option synthInstance.maxSize 256 in
instance ifFrom (fuel : Nat) : Runs (ifFrom e b fuel) := by
  induction fuel <;> unfold Parser.ifFrom <;> infer_instance

instance : Runs (ifStmt e b) := by unfold ifStmt; infer_instance

instance : Runs (caseClause b) := by unfold caseClause; infer_instance

instance casesFrom (fuel : Nat) : Runs (casesFrom b fuel) := by
  induction fuel <;> unfold Parser.casesFrom <;> infer_instance

instance : Runs (switchStmt e b) := by unfold switchStmt; infer_instance

instance : Runs (letItem e) := by unfold letItem; infer_instance

instance : Runs (stmt e b) := by
  refine peek fun k => ?_
  split <;> infer_instance

instance stmtsFrom (s : Parser Stmt) [Runs s] (fuel : Nat) : Runs (stmtsFrom s fuel) := by
  induction fuel <;> unfold Parser.stmtsFrom <;> infer_instance

instance block (depth : Nat) : Runs (block e depth) := by
  induction depth <;> unfold Parser.block <;> infer_instance

instance : Runs (func b) := by unfold func; infer_instance

instance : Runs (item e b) := by unfold item; infer_instance

instance itemsToEnd (i : Parser Item) [Runs i] (fuel : Nat) : Runs (itemsToEnd i fuel) := by
  induction fuel <;> unfold Parser.itemsToEnd <;> infer_instance

end Statements

instance program (depth : Nat) : Runs (program depth) := by unfold Parser.program; infer_instance

instance wholeExpr (depth : Nat) : Runs (wholeExpr depth) := by unfold Parser.wholeExpr; infer_instance

end Runs

/-! ### Whole parses -/

/-- The state in which a parse of the tokens ends. -/
def finish (x : Parser α) (ts : List Token) : State :=
  match x (.start ts) with
  | .ok _ t | .error _ t => t

private theorem history_run (x : Parser α) (ts : List Token) : (x.run ts).history = (finish x ts).history.reverse := by
  unfold Parser.run finish
  cases x (.start ts) with
  | ok _ _ => rfl
  | error stop _ => cases stop <;> rfl

/-- A parser that follows a descent does not run out of depth or rounds. -/
private theorem Follows.endsRun {ts : List Token} {x : Parser α} {y : Descent α} {k : Nat} [hx : Runs x]
    (h : Follows [] Never (.start ts) x y) (hy : Descent.Reads k (.start ts) y) :
    ∃ events, Run (.start ts) events (finish x ts) := by
  have hm := h (settled_start ts)
  have hrun := hx.endsRun (.start ts)
  unfold Descent.Reads at hy
  unfold finish
  rw [show (State.start ts).position = .start ts from rfl] at hm
  generalize x (.start ts) = u, y (.start ts) = v at hm hy hrun
  cases hm with
  | ok _ => exact hrun
  | error _ => exact hrun
  | lost _ => exact hrun
  | stalled _ hR => exact hR.elim
  | exhausted => exact hy.elim

/-- The states of a parse and its log.

The log is that of a run, so that its checkpoints are in brackets; a replay of it ends where the parse does, with no
checkpoint open.  Every state on the way is sound, also those in which an error has just been recorded.  Wherever a
checkpoint is opened a choice begins; when it ends, the same checkpoints are open as before. -/
structure KeepsAccount (ts : List Token) (x : Parser α) : Prop where
  run : Run (.start ts) (x.run ts).history (finish x ts)
  replay : (State.start ts).replay (x.run ts).history = finish x ts
  closed : (finish x ts).checkpoints = []
  sound : ∀ first, first <+: (x.run ts).history →
    ((State.start ts).replay first).Sound ts (Frame.ofLog first) (recorded first)
  failing : ∀ first e f, first ++ [e] <+: (x.run ts).history → e.failure? = some f →
    ((((State.start ts).replay first).log e).record f.error).Sound ts (Frame.note f (Frame.ofLog first))
      (recorded first ++ [f])
  calls : ∀ before i more, (x.run ts).history = before ++ .checkpoint i :: more →
    ∃ body rest, .checkpoint i :: more = body ++ rest ∧
      Call ((State.start ts).replay before) body ((State.start ts).replay (before ++ body)) ∧
        ((State.start ts).replay (before ++ body)).marks = ((State.start ts).replay before).marks

private theorem keepsAccount_of_run {ts : List Token} {x : Parser α} {events : List Event}
    (h : Run (.start ts) events (finish x ts)) (hthrifty : Thrifty ts (x.run ts).history) : KeepsAccount ts x := by
  have hhistory : (x.run ts).history = events := by
    rw [history_run, h.history_eq, List.reverse_append, List.reverse_reverse]
    rfl
  obtain ⟨hfits, hreplay⟩ := h.replays
  have hascending := hthrifty.ascending
  rw [hhistory] at hascending
  -- what is true of the whole log is true of the beginnings of it
  have hbegins {first : List Event} (hfirst : first <+: events) : (State.start ts).FitsAll first ∧
      (first.filterMap Event.opened?).Pairwise (· < ·) := by
    obtain ⟨rest, rfl⟩ := hfirst
    rw [List.filterMap_append] at hascending
    exact ⟨(fitsAll_append.1 hfits).1, (List.pairwise_append.1 hascending).1⟩
  constructor
  · rw [hhistory]
    exact h
  · rw [hhistory]
    exact hreplay
  · have hmarks : (finish x ts).marks = [] := h.marks_eq
    exact List.map_eq_nil_iff.1 hmarks
  · rw [hhistory]
    intro first hfirst
    exact sound_replay (hbegins hfirst).1 (hbegins hfirst).2
  · rw [hhistory]
    intro first e f hfirst hf
    have hbefore : first <+: events := (List.prefix_append first [e]).trans hfirst
    exact sound_record (hbegins hfirst).1 (hbegins hbefore).2 hf
  · rw [hhistory]
    rintro before i more rfl
    obtain ⟨body, rest, hbody, hcall⟩ := h.choicesBegin.call
    refine ⟨body, rest, hbody, ?_⟩
    rw [replay_append]
    exact ⟨hcall, hcall.run.marks_eq⟩

/-- In every parse of a program or of an expression, of any tokens, the states agree with the log. -/
theorem parse_keeps_account (ts : List Token) :
    KeepsAccount ts (program (depthFor ts)) ∧ KeepsAccount ts (wholeExpr (depthFor ts)) := by
  have hdepth : (State.start ts).position.rest.length < depthFor ts := Nat.lt_succ_self _
  obtain ⟨events, hprogram⟩ := Follows.endsRun (program_follows hdepth) (Descent.program_reads hdepth)
  obtain ⟨events', hexpr⟩ := Follows.endsRun (wholeExpr_follows hdepth) (Descent.wholeExpr_reads hdepth)
  constructor
  · exact keepsAccount_of_run hprogram (program_saves _).run
  · exact keepsAccount_of_run hexpr (wholeExpr_saves _).run

end Scriptlet.Parse
