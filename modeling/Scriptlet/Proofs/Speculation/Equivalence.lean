import Scriptlet.Proofs.Speculation.Statements

/-!
# Speculation makes no difference

The result of a parse is that of the descent over the same tokens: the same syntax tree with the same spans, or the
same error with the same span.  So the rules by which errors are ranked, and what becomes of them at a checkpoint,
need not be known to say what a parse comes to.
-/

namespace Scriptlet.Parse

open Parse.State Descent

variable {α : Type}

/-- A parser that follows a descent from the start comes to what the descent comes to. -/
private theorem Follows.run {tokens : List Token} {x : Parser α} {y : Descent α} {k : Nat}
    (h : Follows [] Never (.start tokens) x y) (hy : Reads k (.start tokens) y) :
    y.run tokens = (x.run tokens).result.mapError Stop.error := by
  have hm := h (settled_start tokens)
  unfold Reads at hy
  unfold Descent.run Parser.run
  rw [show (State.start tokens).position = .start tokens from rfl] at hm
  generalize x (.start tokens) = u, y (.start tokens) = v at hm hy
  cases hm with
  | ok hs => rfl
  | error hs => simp only [hs.finalError]; rfl
  | lost hl => simp only [hl.finalError]; rfl
  | stalled _ hR => exact hR.elim
  | exhausted => exact hy.elim

/-- A program is parsed as by the descent without checkpoints, with the same tree or the same error. -/
theorem parseProgram_eq_descent (tokens : List Token) :
    (Descent.program (depthFor tokens)).run tokens = (parseProgram tokens).mapError Stop.error := by
  have hs : (State.start tokens).position.rest.length < depthFor tokens := Nat.lt_succ_self _
  exact Follows.run (program_follows hs) (program_reads hs)

section Program

variable {tokens : List Token}

/-- The program of a parse is what the descent reads. -/
theorem parseProgram_eq_ok {p : Program} :
    parseProgram tokens = .ok p ↔ ∃ q, Descent.program (depthFor tokens) (.start tokens) = .ok p q := by
  have hrun := parseProgram_eq_descent tokens
  unfold Descent.run at hrun
  generalize Descent.program (depthFor tokens) (.start tokens) = u, parseProgram tokens = v at hrun ⊢
  cases u <;> cases v <;> cases hrun <;> simp

/-- The error of a parse is what the descent fails with. -/
theorem parseProgram_eq_error {e : Located ParseError} : parseProgram tokens = .error e ↔
    ∃ q, Descent.program (depthFor tokens) (.start tokens) = .error (.error e) q := by
  have hrun := parseProgram_eq_descent tokens
  unfold Descent.run at hrun
  generalize Descent.program (depthFor tokens) (.start tokens) = u, parseProgram tokens = v at hrun ⊢
  cases u <;> cases v <;> cases hrun <;> simp

end Program

/-- An expression is parsed as by the descent without checkpoints, with the same tree or the same error. -/
theorem parseExpr_eq_descent (tokens : List Token) :
    (Descent.wholeExpr (depthFor tokens)).run tokens = (parseExpr tokens).mapError Stop.error := by
  have hs : (State.start tokens).position.rest.length < depthFor tokens := Nat.lt_succ_self _
  exact Follows.run (wholeExpr_follows hs) (wholeExpr_reads hs)

/-- Reading with alternatives that are undone and errors that are ranked comes to the same as reading ahead by one
token and reporting the first error.  The descent never runs out of depth or rounds, as no parse ends with
`Stop.exhausted`. -/
theorem parse_eq_descent (tokens : List Token) :
    (Descent.program (depthFor tokens)).run tokens = (parseProgram tokens).mapError Stop.error ∧
      (Descent.wholeExpr (depthFor tokens)).run tokens = (parseExpr tokens).mapError Stop.error :=
  ⟨parseProgram_eq_descent tokens, parseExpr_eq_descent tokens⟩

end Scriptlet.Parse
