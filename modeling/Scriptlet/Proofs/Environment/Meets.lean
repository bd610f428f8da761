import Scriptlet.Proofs.Environment.Check

/-!
# What checks come to

`Meets P Q x` says of a check that it comes to a value of which `P` holds, or to an error of which `Q` holds.  There is
one rule for each way to put checks together.
-/

namespace Scriptlet

variable {α β : Type} {P P' : α → Prop} {R : β → Prop} {Q Q' : Located TypeError → Prop} {x y : Checked α}
  {f : α → Checked β}

/-- The check comes to a value of which `P` holds, or to an error of which `Q` holds. -/
def Meets (P : α → Prop) (Q : Located TypeError → Prop) : Checked α → Prop
  | .ok a => P a
  | .error e => Q e

namespace Meets

theorem error {e : Located TypeError} (h : Q e) : Meets P Q (.error e) := h

/-- Errors come from the first part, or from the rest after a result of it. -/
theorem bind (hx : Meets P Q x) (hf : ∀ a, P a → Meets R Q (f a)) : Meets R Q (x >>= f) := by
  cases x with
  | ok a => exact hf a hx
  | error e => exact hx

/-- A weaker condition on results and on errors is met as well. -/
theorem mono (hx : Meets P Q x) (hP : ∀ a, P a → P' a) (hQ : ∀ e, Q e → Q' e) : Meets P' Q' x := by
  cases x with
  | ok a => exact hP a hx
  | error e => exact hQ e hx

theorem ite {c : Prop} [Decidable c] (hx : c → Meets P Q x) (hy : ¬ c → Meets P Q y) :
    Meets P Q (if c then x else y) := by
  by_cases hc : c
  · rw [if_pos hc]
    exact hx hc
  · rw [if_neg hc]
    exact hy hc

/-- A rule that is violated if `c` holds. -/
theorem violated {c : Prop} [Decidable c] {e : Located TypeError} {f : α → Checked β} {y : Checked β} (he : c → Q e)
    (hy : ¬ c → Meets R Q y) : Meets R Q (if c then (throw e : Checked α) >>= f else y) :=
  ite he hy

theorem of_eq_error {e : Located TypeError} (hx : Meets P Q x) (h : x = .error e) : Q e := by
  rw [h] at hx
  exact hx

theorem of_eq_ok {a : α} (hx : Meets P Q x) (h : x = .ok a) : P a := by
  rw [h] at hx
  exact hx

end Meets

end Scriptlet
