import Scriptlet.Proofs.Typing.Traversal

/-!
# Checked programs are well typed

The representation of a program that is accepted obeys the typing rules as it stands at the end, with all operators
and bindings: `typecheck_wellTyped`.  Only the names of the actions must not be names of functions.

A rule is checked when an entry is added, in a representation that is still growing.  The invariant
`Building.Typed` holds of the entries so far and of the guards of open scopes; a move justifies what it adds
(`Move.typed`), and what was there before stays justified because operators, bindings and functions stay as they are
(`Ir.Grows`).
-/

namespace Scriptlet

/-- The operators that are actions or guards, and have no signature. -/
def OpName.actions : List String := [print, assign, ret, iterRange, iterString, caseIs, caseOf, caseIn]

namespace Ir

variable {ir ir' : Ir}

/-! ### The rules for entries -/

/-- A binding is a parameter or loop variable, or has a value of its type. -/
def BindingTyped (ir : Ir) (var : Var) : Prop := var.value = .arg ∨ ir.HasType var.value var.ty

/-- A nested scope is of a function and begins with its parameters, or has a guard of its kind. -/
inductive ScopeTyped (ir : Ir) : ScopeKind → List String → Option Value → Nat → Prop where
  | func {id : Nat} {signature : Signature} {born : List (String × Var)} (hid : id < ir.scopes.size)
    (hborn : (ir.scope id).born = born) (hs : ir.Signed id signature) (hargs : signature.args = born.map (·.2.ty)) :
    ScopeTyped ir .func (born.map Prod.fst) none id
  | block {id : Nat} {kind : ScopeKind} {born : List (String × Var)} {guard : Option Value}
    (hid : id < ir.scopes.size) (hborn : (ir.scope id).born = born) (hg : Guard ir.HasType kind born guard) :
    ScopeTyped ir kind (born.map Prod.fst) guard id

/-- An entry of a scope obeys the rules. -/
inductive EntryTyped (ir : Ir) (scope : Nat) : Entry → Prop where
  | newVar {name : String} {var : Var} (h : ir.HasType var.value var.ty) : EntryTyped ir scope (.newVar name var)
  | action {op : String} {args : List Var} (h : ir.Action ir.HasType scope op args) :
    EntryTyped ir scope (.action op args)
  | nested {kind : ScopeKind} {born : List String} {guard : Option Value} {id : Nat}
    (h : ir.ScopeTyped kind born guard id) : EntryTyped ir scope (.scoped kind born guard id)

/-- The representation obeys the rules; no action is an operator of the table, so that it is not taken for a call. -/
structure WellTyped (ir : Ir) : Prop where
  reserved : ∀ op ∈ OpName.actions, ir.ops.get? op = none
  bindings : ∀ id : Nat, ∀ b ∈ (ir.scope id).bindings, ir.BindingTyped b.2
  entries : ∀ id : Nat, ∀ e ∈ (ir.scope id).entries, ir.EntryTyped id e

/-! ### Growth -/

private theorem Grows.bindingTyped (hg : ir.Grows ir') {var : Var} (h : ir.BindingTyped var) : ir'.BindingTyped var :=
  h.imp_right hg.hasType

private theorem Grows.scopeTyped (hg : ir.Grows ir') {kind : ScopeKind} {born : List String} {guard : Option Value}
    {id : Nat} (h : ir.ScopeTyped kind born guard id) : ir'.ScopeTyped kind born guard id := by
  cases h with
  | func hid hborn hs hargs =>
    have hborn' := (hg.scope id hid).born.trans hborn
    exact .func (Nat.lt_of_lt_of_le hid hg.size) hborn' (hg.signed hid hs) hargs
  | block hid hborn h =>
    have hborn' := (hg.scope id hid).born.trans hborn
    exact .block (Nat.lt_of_lt_of_le hid hg.size) hborn' (h.mono fun _ _ => hg.hasType)

private theorem Grows.entryTyped (hg : ir.Grows ir') {scope : Nat} (hlt : scope < ir.scopes.size) {e : Entry}
    (h : ir.EntryTyped scope e) : ir'.EntryTyped scope e := by
  cases h with
  | newVar h => exact .newVar (hg.hasType h)
  | action h => exact .action (hg.action hlt (fun _ _ => hg.hasType) h)
  | nested h => exact .nested (hg.scopeTyped h)

/-- A variable that is declared with a value of its type is a binding of that type. -/
private theorem EntryTyped.bindingTyped {scope : Nat} {e : Entry} {b : String × Var} (h : ir.EntryTyped scope e)
    (hb : e.declared? = some b) : ir.BindingTyped b.2 := by
  cases h with
  | newVar h =>
    cases hb
    exact Or.inr h
  | action | nested => cases hb

namespace WellTyped

private theorem add (h : ir.WellTyped) {id : Nat} {f : Scope → Scope} {e : Entry} (hf : ∀ s, Scope.Adds e s (f s))
    (he : (ir.modifyScope id f).EntryTyped id e) : (ir.modifyScope id f).WellTyped := by
  have hg : ir.Grows (ir.modifyScope id f) := grows_modifyScope ir id fun s => (hf s).extends
  refine ⟨h.reserved, fun other b hb => ?_, fun other e' he' => ?_⟩
  · rcases scope_modifyScope ir id other f with ⟨-, -, ho⟩ | ho
    · rw [ho, ← Array.mem_toList_iff, (hf _).bindings] at hb
      rcases List.mem_append.1 hb with hb | hb
      · exact hg.bindingTyped (h.bindings id b (Array.mem_toList_iff.1 hb))
      · exact he.bindingTyped (Option.mem_toList.1 hb)
    · rw [ho] at hb
      exact hg.bindingTyped (h.bindings other b hb)
  · rcases scope_modifyScope ir id other f with ⟨rfl, hlt, ho⟩ | ho
    · rw [ho, (hf _).entries] at he'
      rcases Array.mem_push.1 he' with he' | rfl
      · exact hg.entryTyped hlt (h.entries other e' he')
      · exact he
    · rw [ho] at he'
      exact hg.entryTyped (lt_of_mem_entries he') (h.entries other e' he')

/-- A new scope has no entries, and no bindings but parameters. -/
private theorem openScope (h : ir.WellTyped) (parent : ScopeId) (func : Option String) {born : List (String × Var)}
    (hborn : ∀ b ∈ born, b.2.value.isArg = true) : (ir.openScope parent func born).WellTyped where
  reserved := h.reserved
  bindings id b hb := by
    rcases scope_openScope ir id parent func born with ⟨-, ho⟩ | ⟨-, ho⟩
    · rw [ho, ← Array.mem_toList_iff, Scope.bindings_bindAll] at hb
      exact Or.inl (Value.eq_arg_of_isArg (hborn b (by simpa [Scope.empty] using hb)))
    · rw [ho] at hb
      exact (grows_openScope ir parent func born).bindingTyped (h.bindings id b hb)
  entries id e he := by
    rw [entries_openScope] at he
    exact (grows_openScope ir parent func born).entryTyped (lt_of_mem_entries he) (h.entries id e he)

private theorem register (h : ir.WellTyped) {name : String} (hfree : ir.ops.contains name = false)
    (hname : name ∉ OpName.actions) (signature : Signature) : (ir.apply (.register name signature)).WellTyped where
  reserved op hop := by
    show ((ir.ops.define? name signature).getD ir.ops).get? op = none
    have hne : op ≠ name := fun heq => hname (heq ▸ hop)
    rw [OperatorTable.get?_define hfree, if_neg hne]
    exact h.reserved op hop
  bindings id b hb := (grows_register hfree signature).bindingTyped (h.bindings id b hb)
  entries id e he := (grows_register hfree signature).entryTyped (lt_of_mem_entries he) (h.entries id e he)

end WellTyped

private theorem wellTyped_initial : initial.WellTyped := by
  refine ⟨by decide, fun id b hb => ?_, fun id e he => ?_⟩
  · rw [scope_initial] at hb
    simp [Scope.empty] at hb
  · rw [scope_initial] at he
    simp [Scope.empty] at he

end Ir

/-! ### The invariant -/

/-- What there is obeys the rules, and so will the entries for the open scopes. -/
structure Building.Typed (b : Building) : Prop where
  coherent : b.Coherent
  wellTyped : b.ir.WellTyped
  frames : ∀ f ∈ b.frames, b.ir.ScopeTyped f.kind (f.born.map Prod.fst) f.guard f.id

variable {b b' : Building}

private theorem typed_initial : Building.Typed ⟨.initial, []⟩ := ⟨coherent_initial, Ir.wellTyped_initial, by simp⟩

/-- Every move adds entries that obey the typing rules. -/
theorem Move.typed (hb : b.Typed) (h : Move (· ∉ OpName.actions) b b') : b'.Typed := by
  have hg := h.grows
  have hc := h.coherent hb.coherent
  have hw := hb.coherent.wellFormed
  have hlt := hb.coherent.chain.current_lt
  have hframes := fun f hf => hg.scopeTyped (hb.frames f hf)
  -- what was typed before is carried over by `hg`; each case types what it adds
  cases h with
  | declare hv _ =>
    have hvalue := hg.hasType (hw.hasType hv)
    exact ⟨hc, hb.wellTyped.add (fun s => s.adds_declare _ hv.isArg _ _ _) (.newVar hvalue), hframes⟩
  | act ha =>
    have haction := hg.action hlt (fun _ _ ht => hg.hasType (hw.hasType ht)) ha
    exact ⟨hc, hb.wellTyped.add (fun s => s.adds_push rfl) (.action haction), hframes⟩
  | @func ir frames name signature born hfree hname hborn hargs =>
    have hbegun := Ir.born_openScope (ir.apply (.register name signature)) (current frames) (some name) hborn
    have hsigned := Ir.signed_openFunc hfree signature (current frames) born
    have hnew := Ir.ScopeTyped.func hc.chain.current_lt hbegun hsigned hargs
    exact ⟨hc, (hb.wellTyped.register hfree hname signature).openScope _ _ hborn,
      List.forall_mem_cons.2 ⟨hnew, hframes⟩⟩
  | @block ir f frames kind born guard hguard =>
    have hborn := hguard.isArg_of_mem
    have hbegun := Ir.born_openScope ir f.id none hborn
    have htyped := hguard.mono fun _ _ ht => hg.hasType (hw.hasType ht)
    have hnew := Ir.ScopeTyped.block hc.chain.current_lt hbegun htyped
    exact ⟨hc, hb.wellTyped.openScope _ _ hborn, List.forall_mem_cons.2 ⟨hnew, hframes⟩⟩
  | close =>
    -- the guard was typed when the scope began, and the entry only takes it over
    obtain ⟨hlast, hrest⟩ := List.forall_mem_cons.1 hframes
    exact ⟨hc, hb.wellTyped.add (fun s => s.adds_push rfl) (.nested hlast), hrest⟩

/-- The representation of a program that is accepted is well typed, if no function of the program has the name of an
action. -/
theorem typecheck_wellTyped {p : Program} {ir : Ir} (hp : ∀ n ∈ p.functionNames, n ∉ OpName.actions)
    (h : typecheck p = .ok ir) : ir.WellTyped :=
  ((typecheck_path hp h).preserves (fun _ _ => Move.typed) typed_initial).wellTyped

/-- `func f(x: Int) -> Int { while x > 0 { return f(x - 1); } return x; }` -/
def countdown : Program :=
  let x (lo : Nat) : Expr := .name "x" ⟨lo, 1⟩
  let next : Expr := .call ⟨"f", ⟨45, 1⟩⟩ [.binary .sub (x 47) (.literal (.int 1) ⟨51, 1⟩) ⟨47, 5⟩] ⟨45, 8⟩
  let loop : Stmt := .whileLoop (.binary .gt (x 30) (.literal (.int 0) ⟨34, 1⟩) ⟨30, 5⟩)
    (.mk [.ret (some next) ⟨38, 16⟩] ⟨36, 20⟩) ⟨24, 32⟩
  ⟨[.func ⟨"f", ⟨5, 1⟩⟩ [⟨⟨"x", ⟨7, 1⟩⟩, ⟨.int, ⟨10, 3⟩⟩⟩] (some ⟨.int, ⟨18, 3⟩⟩)
    (.mk [loop, .ret (some (x 64)) ⟨57, 9⟩] ⟨22, 46⟩) ⟨0, 68⟩]⟩

/-- A function with a loop and a call of itself is well-typed. -/
theorem countdown_wellTyped : (∀ n ∈ countdown.functionNames, n ∉ OpName.actions) ∧
    ∃ ir, typecheck countdown = .ok ir ∧ ir.WellTyped :=
  ⟨by decide, _, rfl, typecheck_wellTyped (p := countdown) (by decide) rfl⟩

end Scriptlet
