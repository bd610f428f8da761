import Scriptlet.Typing.Check

/-!
# What a checker comes to

`Checker.after` is what a checker makes of a state: its value with the state that it leaves, or the error.  The
equations below take a checker apart at its steps, so that a check of a statement is a sequence of values lowered,
steps performed and blocks checked.
-/

namespace Scriptlet.Checker

open Scriptlet.Typing

variable {α β : Type} {s : Typing.State} {scope : ScopeId}

/-- The value of a checker and the state after it. -/
def after (x : Checker α) (s : Typing.State) : Checked (α × Typing.State) :=
  match x s with
  | .ok a t => .ok (a, t)
  | .error e _ => .error e

@[simp] theorem after_pure (a : α) (s : Typing.State) : after (pure a) s = .ok (a, s) := rfl

@[simp] theorem after_throw (e : Located TypeError) (s : Typing.State) :
    after (throw e : Checker α) s = .error e := rfl

@[simp] theorem after_bind (x : Checker α) (f : α → Checker β) (s : Typing.State) :
    after (x >>= f) s = after x s >>= fun r => after (f r.1) r.2 := by
  unfold after
  rw [show (x >>= f) s = _ from EStateM.run_bind x f]
  simp only [EStateM.run]
  cases x s <;> rfl

@[simp] theorem after_get (s : Typing.State) : after (get : Checker Typing.State) s = .ok (s, s) := rfl

@[simp] theorem after_getIr (s : Typing.State) : after getIr s = .ok (s.ir, s) := rfl

@[simp] theorem after_perform (step : Ir.Step) (s : Typing.State) :
    after (perform step) s = .ok ((), s.perform step) := rfl

@[simp] theorem after_lift (c : Checked α) (s : Typing.State) : after (lift c) s = c.map fun a => (a, s) := by
  cases c <;> rfl

@[simp] theorem after_openScope (kind : ScopeKind) (parent : ScopeId) (func : Option String)
    (born : List (String × Var)) (s : Typing.State) : after (openScope kind parent func born) s =
      .ok (s.ir.scopes.size, s.perform (.openScope s.ir.scopes.size kind parent func born)) := rfl

@[simp] theorem ok_bind (a : α) (f : α → Checked β) : (Except.ok a >>= f : Checked β) = f a := rfl

@[simp] theorem error_bind (e : Located TypeError) (f : α → Checked β) :
    (Except.error e >>= f : Checked β) = .error e := rfl

@[simp] theorem lowered_bind {γ : Type} (c : Checked α) (g : α → β) (f : β → Checked γ) :
    (c.map g >>= f) = c >>= fun a => f (g a) := by
  cases c <;> rfl

/-- A check in sequence succeeds if its parts do. -/
theorem bind_eq_ok {c : Checked α} {f : α → Checked β} {b : β} :
    (c >>= f) = .ok b ↔ ∃ a, c = .ok a ∧ f a = .ok b := by
  cases c with
  | ok a => simp
  | error e => simp

/-- A sequence of steps succeeds just if all of them do, each in the state that the last one left. -/
theorem after_bind_eq_ok {x : Checker α} {f : α → Checker β} {r : β × Typing.State} :
    after (x >>= f) s = .ok r ↔ ∃ a t, after x s = .ok (a, t) ∧ after (f a) t = .ok r := by
  rw [after_bind, bind_eq_ok, Prod.exists]

/-- A check that begins with a value found in the representation. -/
theorem after_found (l : Ir → Checked α) (f : α → Checker β) (s : Typing.State) :
    after (getIr >>= fun ir => lift (l ir) >>= f) s = l s.ir >>= fun a => after (f a) s := by
  simp only [after_bind, after_getIr, after_lift, ok_bind, lowered_bind]

/-- What is only found in the representation leaves the state as it is. -/
theorem found_eq_ok {l : Ir → Checked α} {f : α → Checker β} {r : β × Typing.State} :
    after (getIr >>= fun ir => lift (l ir) >>= f) s = .ok r ↔ ∃ a, l s.ir = .ok a ∧ after (f a) s = .ok r := by
  rw [after_found, bind_eq_ok]

/-- The state after a function has entered the table. -/
def registered (s : Typing.State) (name : Ident) (signature : Signature) : Typing.State :=
  { s.perform (.register name.name signature) with declared := (name.name, name.span) :: s.declared }

/-- A name can be registered for one function only. -/
theorem after_register (name : Ident) (signature : Signature) (s : Typing.State) :
    after (register name signature) s =
      if s.ir.ops.contains name.name then
        .error ⟨name.span, .duplicateFunction name.name (s.declared.lookup name.name)⟩
      else .ok ((), registered s name signature) := by
  unfold register
  simp only [after_bind, after_get, ok_bind, after_perform]
  split <;> rfl

/-- The scope of a function begins with its parameters, if their names are distinct. -/
theorem after_openFunc_of_distinct {params : List Param} (h : (splitParams [] params).2 = none) (scope : ScopeId)
    (name : Ident) (s : Typing.State) : after (openFunc scope name params) s =
      .ok (s.ir.scopes.size, s.perform (.openScope s.ir.scopes.size .func scope (some name.name)
        ((splitParams [] params).1.map paramBinding))) := by
  unfold openFunc
  simp only [after_bind, after_openScope, ok_bind, h, after_pure]

/-- The second parameter of a name is an error, at this parameter. -/
theorem after_openFunc_of_duplicate {params : List Param} {p : Param} (h : (splitParams [] params).2 = some p)
    (scope : ScopeId) (name : Ident) (s : Typing.State) :
    after (openFunc scope name params) s = .error ⟨p.name.span, .duplicateParam p.name.name⟩ := by
  unfold openFunc
  simp only [after_bind, after_openScope, ok_bind, h, after_throw]

/-- A check of a program is a check of its items from the initial state. -/
theorem typecheck_eq (p : Program) :
    typecheck p = (after (checkItems .root p.items) .initial).map fun r => r.2.ir := by
  unfold typecheck outcome after
  cases checkItems .root p.items .initial <;> rfl

/-- The representation of a program is what its items leave when all of them are checked. -/
theorem typecheck_eq_ok {p : Program} {ir : Ir} :
    typecheck p = .ok ir ↔ ∃ t, after (checkItems .root p.items) .initial = .ok ((), t) ∧ t.ir = ir := by
  rw [typecheck_eq]
  cases after (checkItems .root p.items) .initial with
  | ok r => simp [Except.map, Prod.ext_iff]
  | error e => simp [Except.map]

/-- The error of a program is the first one among its items. -/
theorem typecheck_eq_error {p : Program} {e : Located TypeError} :
    typecheck p = .error e ↔ after (checkItems .root p.items) .initial = .error e := by
  rw [typecheck_eq]
  cases after (checkItems .root p.items) .initial with
  | ok r => simp [Except.map]
  | error e' => simp [Except.map]

end Scriptlet.Checker
