import Scriptlet.Proofs.Ir.Growth
import Scriptlet.Proofs.Ir.WellFormed
import Scriptlet.Typing.Value

/-!
# Typing rules

The rules for what the representation of a program may hold, without regard to how it is found.  `Value.Typed` gives
values a type, `Guard` says which guards a nested scope of each kind may have, and `Ir.Action` which actions a scope
may take.  They take the types of names as a parameter, since a name is resolved in a scope while the program is
being checked, and by its binding afterwards.
-/

namespace Scriptlet

/-! ### Operators -/

/-- An operator has an alternative for arguments of exactly these types, the first of which has the result `ty`. -/
def Operator.Yields (o : Operator) (types : List Ty) (ty : Ty) : Prop :=
  ∃ (before after : List Signature) (s : Signature), o.alternatives = before ++ s :: after ∧
    (∀ s' ∈ before, s'.args ≠ types) ∧ s.args = types ∧ s.result = ty

/-- What an operator resolves to is the result of its first alternative for the types of the arguments. -/
theorem Operator.resolve_eq_some {o : Operator} {types : List Ty} {ty : Ty} :
    o.resolve types = some ty ↔ o.Yields types ty := by
  simp only [Operator.resolve, Operator.Yields, Option.map_eq_some_iff, List.find?_eq_some_iff_append,
    decide_eq_true_eq]
  constructor
  · rintro ⟨s, ⟨hs, before, after, heq, hbefore⟩, hty⟩
    exact ⟨before, after, s, heq, fun s' hs' => by simpa using hbefore s' hs', hs, hty⟩
  · rintro ⟨before, after, s, heq, hbefore, hs, hty⟩
    exact ⟨s, ⟨hs, before, after, heq, fun s' hs' => by simpa using hbefore s' hs'⟩, hty⟩

/-! ### Values -/

/-- The type of a value, with the operators of the table and the types that `uses` gives to uses of names. -/
inductive Value.Typed (ops : OperatorTable) (uses : String → BindingId → Ty → Prop) : Value → Ty → Prop where
  | atom (ty : Ty) (text : String) : Typed ops uses (.atom ty text) ty
  | ref {name : String} {b : BindingId} {ty : Ty} (h : uses name b ty) : Typed ops uses (.ref name b) ty
  | apply {op : String} {o : Operator} {args : List Var} {ty : Ty} (hop : ops.get? op = some o)
    (hargs : ∀ a ∈ args, Typed ops uses a.value a.ty) (hty : o.Yields (args.map Var.ty) ty) :
    Typed ops uses (.apply op args) ty

/-- A name with its binding occurs in a value. -/
inductive Value.Mentions (name : String) (b : BindingId) : Value → Prop where
  | ref : Mentions name b (.ref name b)
  | arg {op : String} {args : List Var} {a : Var} (ha : a ∈ args) (h : Mentions name b a.value) :
    Mentions name b (.apply op args)

namespace Value

variable {ops ops' : OperatorTable} {uses uses' : String → BindingId → Ty → Prop} {v : Value} {ty : Ty}
  {name : String} {b : BindingId}

/-- More operators and more names leave a value its type. -/
theorem Typed.mono (h : v.Typed ops uses ty) (hops : ∀ op o, ops.get? op = some o → ops'.get? op = some o)
    (huses : ∀ name b ty, uses name b ty → uses' name b ty) : v.Typed ops' uses' ty := by
  induction h with
  | atom ty text => exact .atom ty text
  | ref h => exact .ref (huses _ _ _ h)
  | apply hop _ hty ih => exact .apply (hops _ _ hop) ih hty

/-- Every name in a typed value has a type. -/
theorem Typed.uses_of_mentions (h : v.Typed ops uses ty) (hm : v.Mentions name b) : ∃ ty, uses name b ty := by
  induction h with
  | atom => cases hm
  | ref h =>
    cases hm
    exact ⟨_, h⟩
  | apply _ _ _ ih =>
    cases hm with
    | arg ha hm => exact ih _ ha hm

/-- What has a type is not the mark of a parameter. -/
theorem Typed.isArg (h : v.Typed ops uses ty) : v.isArg = false := by
  cases h <;> rfl

end Value

namespace Ir

/-- The type of a value whose names mean what they mean in a scope. -/
def HasTypeAt (ir : Ir) (scope : Nat) : Value → Ty → Prop :=
  Value.Typed ir.ops fun name b ty => ∃ var, ir.lookup name scope = some (b, var) ∧ var.ty = ty

/-- The type of a value whose names have the types of the bindings they refer to. -/
def HasType (ir : Ir) : Value → Ty → Prop :=
  Value.Typed ir.ops fun name b ty => ∃ var, ir.binding? b = some (name, var) ∧ var.ty = ty

variable {ir ir' : Ir} {scope : Nat} {v : Value} {ty : Ty}

/-- The bindings that the names mean have the types that the names have. -/
theorem WellFormed.hasType (hw : ir.WellFormed) (h : ir.HasTypeAt scope v ty) : ir.HasType v ty := by
  refine Value.Typed.mono h (fun _ _ ho => ho) fun name b ty hu => ?_
  obtain ⟨var, hl, hty⟩ := hu
  exact ⟨var, hw.binding?_of_lookup hl, hty⟩

/-- A value keeps its type when the representation grows. -/
theorem Grows.hasType (hg : ir.Grows ir') (h : ir.HasType v ty) : ir'.HasType v ty := by
  refine Value.Typed.mono h hg.ops fun name b ty hu => ?_
  obtain ⟨var, hb, hty⟩ := hu
  exact ⟨var, hg.binding? hb, hty⟩

end Ir

/-! ### Guards -/

/-- A constant of a type. -/
def Var.Constant (ty : Ty) (c : Var) : Prop := c.ty = ty ∧ ∃ text, c.value = .atom ty text

/-- The guards of nested scopes other than functions, with the variables bound on entering the scope. -/
inductive Guard (T : Value → Ty → Prop) : ScopeKind → List (String × Var) → Option Value → Prop where
  | ifBranch {v : Value} (h : T v .bool) : Guard T .ifBranch [] (some v)
  | elseBranch : Guard T .elseBranch [] none
  | whileLoop {v : Value} (h : T v .bool) : Guard T .loop [] (some v)
  | range {name : String} {span : Span} {first last step : Var} (hf : first.Constant .int) (hl : last.Constant .int)
    (hs : step.Constant .int) :
    Guard T .loop [(name, .mk .arg .int span false)] (some (.apply OpName.iterRange [first, last, step]))
  | string {name : String} {span : Span} {var : Var} (h : T var.value .string) (hty : var.ty = .string) :
    Guard T .loop [(name, .mk .arg .string span false)] (some (.apply OpName.iterString [var]))
  | default : Guard T .caseBranch [] none
  | caseIs {subject c : Var} (hs : T subject.value subject.ty) (hc : c.Constant subject.ty) :
    Guard T .caseBranch [] (some (.apply OpName.caseIs [subject, c]))
  | caseOf {subject : Var} {cs : List Var} (hs : T subject.value subject.ty) (hcs : ∀ c ∈ cs, c.Constant subject.ty) :
    Guard T .caseBranch [] (some (.apply OpName.caseOf (subject :: cs)))
  | caseIn {subject lo hi : Var} (hs : T subject.value .int) (hty : subject.ty = .int) (hlo : lo.Constant .int)
    (hhi : hi.Constant .int) : Guard T .caseBranch [] (some (.apply OpName.caseIn [subject, lo, hi]))

namespace Guard

variable {T T' : Value → Ty → Prop} {kind : ScopeKind} {born : List (String × Var)} {guard : Option Value}

/-- A guard stays one when its values keep their types. -/
theorem mono (h : Guard T kind born guard) (hT : ∀ v ty, T v ty → T' v ty) : Guard T' kind born guard := by
  cases h with
  | ifBranch h => exact .ifBranch (hT _ _ h)
  | elseBranch => exact .elseBranch
  | whileLoop h => exact .whileLoop (hT _ _ h)
  | range hf hl hs => exact .range hf hl hs
  | string h hty => exact .string (hT _ _ h) hty
  | default => exact .default
  | caseIs hs hc => exact .caseIs (hT _ _ hs) hc
  | caseOf hs hcs => exact .caseOf (hT _ _ hs) hcs
  | caseIn hs hty hlo hhi => exact .caseIn (hT _ _ hs) hty hlo hhi

/-- What a guard makes a scope begin with are parameters. -/
theorem isArg_of_mem (h : Guard T kind born guard) : ∀ b ∈ born, b.2.value.isArg = true := by
  cases h <;> simp [Var.value, Value.isArg]

end Guard

private theorem Var.Constant.not_mentions {ty : Ty} {c : Var} {name : String} {b : BindingId} (h : c.Constant ty) :
    ¬ c.value.Mentions name b := by
  obtain ⟨-, text, hv⟩ := h
  rw [hv]
  intro hm
  cases hm

/-- Every name in a guard is in a value that has a type. -/
theorem Guard.exists_of_mentions {T : Value → Ty → Prop} {kind : ScopeKind} {born : List (String × Var)} {v : Value}
    {name : String} {b : BindingId} (h : Guard T kind born (some v)) (hm : v.Mentions name b) :
    ∃ w ty, T w ty ∧ w.Mentions name b := by
  -- a guard applies an action to a typed value and to constants, which mention nothing
  cases h with
  | ifBranch h => exact ⟨_, _, h, hm⟩
  | whileLoop h => exact ⟨_, _, h, hm⟩
  | range hf hl hs =>
    cases hm with
    | arg ha hm =>
      simp only [List.mem_cons, List.not_mem_nil, or_false] at ha
      rcases ha with rfl | rfl | rfl
      · exact absurd hm hf.not_mentions
      · exact absurd hm hl.not_mentions
      · exact absurd hm hs.not_mentions
  | string h _ =>
    cases hm with
    | arg ha hm =>
      rw [List.mem_singleton.1 ha] at hm
      exact ⟨_, _, h, hm⟩
  | caseIs hs hc =>
    cases hm with
    | arg ha hm =>
      simp only [List.mem_cons, List.not_mem_nil, or_false] at ha
      rcases ha with rfl | rfl
      · exact ⟨_, _, hs, hm⟩
      · exact absurd hm hc.not_mentions
  | caseOf hs hcs =>
    cases hm with
    | arg ha hm =>
      rcases List.mem_cons.1 ha with rfl | ha
      · exact ⟨_, _, hs, hm⟩
      · exact absurd hm (hcs _ ha).not_mentions
  | caseIn hs _ hlo hhi =>
    cases hm with
    | arg ha hm =>
      simp only [List.mem_cons, List.not_mem_nil, or_false] at ha
      rcases ha with rfl | rfl | rfl
      · exact ⟨_, _, hs, hm⟩
      · exact absurd hm hlo.not_mentions
      · exact absurd hm hhi.not_mentions

/-! ### Actions -/

namespace Ir

/-- A scope belongs to a function with this signature. -/
def Signed (ir : Ir) (scope : Nat) (signature : Signature) : Prop :=
  ∃ f, (ir.scope scope).func = some f ∧ ir.ops.get? f = some ⟨[signature], true⟩

/-- The actions of a scope: assignments to mutable bindings, `print`, `return`, and calls. -/
inductive Action (ir : Ir) (T : Value → Ty → Prop) (scope : Nat) : String → List Var → Prop where
  | assign {name : String} {b : BindingId} {var new : Var} {span : Span}
    (hb : ir.binding? b = some (name, var)) (hm : var.mutable = true) (ht : T (.ref name b) var.ty)
    (hn : T new.value new.ty) (hty : new.ty = var.ty) :
    Action ir T scope OpName.assign [.mk (.ref name b) var.ty span true, new]
  | print {args : List Var} (h : ∀ a ∈ args, T a.value a.ty ∧ a.ty ≠ .void) : Action ir T scope OpName.print args
  | retVoid {signature : Signature} (hs : ir.Signed scope signature) (hv : signature.result = .void) :
    Action ir T scope OpName.ret []
  | retValue {signature : Signature} {a : Var} (hs : ir.Signed scope signature) (ha : T a.value a.ty)
    (hty : a.ty = signature.result) : Action ir T scope OpName.ret [a]
  | call {op : String} {o : Operator} {args : List Var} {ty : Ty} (hop : ir.ops.get? op = some o)
    (hargs : ∀ a ∈ args, T a.value a.ty) (hty : o.Yields (args.map Var.ty) ty) : Action ir T scope op args

variable {ir ir' : Ir} {T T' : Value → Ty → Prop} {scope : Nat} {op : String} {args : List Var}
  {signature : Signature}

theorem Grows.signed (hg : ir.Grows ir') (hlt : scope < ir.scopes.size) (h : ir.Signed scope signature) :
    ir'.Signed scope signature := by
  obtain ⟨f, hf, hop⟩ := h
  exact ⟨f, (hg.scope scope hlt).func.trans hf, hg.ops _ _ hop⟩

/-- An action stays one when the representation grows and its values keep their types. -/
theorem Grows.action (hg : ir.Grows ir') (hlt : scope < ir.scopes.size) (hT : ∀ v ty, T v ty → T' v ty)
    (h : ir.Action T scope op args) : ir'.Action T' scope op args := by
  cases h with
  | assign hb hm ht hn hty => exact .assign (hg.binding? hb) hm (hT _ _ ht) (hT _ _ hn) hty
  | print h => exact .print fun a ha => ⟨hT _ _ (h a ha).1, (h a ha).2⟩
  | retVoid hs hv => exact .retVoid (hg.signed hlt hs) hv
  | retValue hs ha hty => exact .retValue (hg.signed hlt hs) (hT _ _ ha) hty
  | call hop hargs hty => exact .call (hg.ops _ _ hop) (fun a ha => hT _ _ (hargs a ha)) hty

/-- The arguments of an action have the types that are written with them. -/
theorem Action.typed (h : ir.Action T scope op args) : ∀ a ∈ args, T a.value a.ty := by
  intro a ha
  cases h with
  | assign _ _ ht hn _ =>
    simp only [List.mem_cons, List.not_mem_nil, or_false] at ha
    rcases ha with rfl | rfl
    · exact ht
    · exact hn
  | print h => exact (h a ha).1
  | retVoid => cases ha
  | retValue _ h _ =>
    rw [List.mem_singleton.1 ha]
    exact h
  | call _ hargs _ => exact hargs a ha

end Ir

end Scriptlet
