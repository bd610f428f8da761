import Scriptlet.Proofs.Environment.Check
import Scriptlet.Proofs.Ir.WellFormed
import Scriptlet.Proofs.Typing.Run

/-!
# Environments and scopes

An environment represents a check under way, seen from a scope, when its blocks are what the scopes on the way to the
root declare and its functions are those in the operator table (`Represents`).  A name then means the same in both
(`Represents.find?`).  Each step of the check has its counterpart: a declaration, a scope that begins or is complete,
and a function that enters the table.
-/

namespace Scriptlet

open Typing

/-- A variable as a name in force. -/
def Local.ofVar (name : String) (var : Var) : Local := ⟨name, var.ty, var.mutable, var.span⟩

/-- A scope that is being checked, and the function it belongs to. -/
structure Layer where
  scope : Nat
  function : Option Function

/-- These names are in force in a scope. -/
structure Layer.Holds (ir : Ir) (l : Layer) (names : List Local) : Prop where
  lt : l.scope < ir.scopes.size
  names : ∀ name, names.find? (·.name = name) = ((ir.scope l.scope).var? name).map (Local.ofVar name)
  func : (ir.scope l.scope).func = l.function.map Function.name

/-- The scopes lie in each other, the innermost first, up to the root, and hold the names of the blocks. -/
inductive Layers (ir : Ir) : List Layer → List (List Local) → Prop where
  | root {l : Layer} {b : List Local} (h : l.Holds ir b) (hp : (ir.scope l.scope).parent = none) : Layers ir [l] [b]
  | inner {l l' : Layer} {ls : List Layer} {b : List Local} {bs : List (List Local)} (h : l.Holds ir b)
    (hp : (ir.scope l.scope).parent = some l'.scope) (hs : Layers ir (l' :: ls) bs) :
    Layers ir (l :: l' :: ls) (b :: bs)

/-- What is in force in a state of the check, seen from the innermost of the scopes. -/
structure Represents (stack : List Layer) (s : Typing.State) (Γ : Env) : Prop where
  wellFormed : s.ir.WellFormed
  layers : Layers s.ir stack Γ.blocks
  contains : ∀ name, s.ir.ops.contains name = !(Γ.signatures name).isEmpty
  alternatives : ∀ name, ((s.ir.ops.get? name).map Operator.alternatives).getD [] = Γ.signatures name
  declared : ∀ name, s.declared.lookup name = (Γ.function? name).map Function.declaredAt
  known : ∀ l ∈ stack, ∀ f, l.function = some f → Γ.signatures f.name = [f.signature]

variable {ir ir' : Ir} {l : Layer} {stack : List Layer} {blocks : List (List Local)} {names : List Local}
  {s : Typing.State} {Γ : Env} {name : String}

/-! ### Looking up names -/

private theorem Layers.lt (h : Layers ir stack blocks) : ∀ l ∈ stack, l.scope < ir.scopes.size := by
  induction h with
  | root h _ =>
    intro l hl
    rw [List.mem_singleton.1 hl]
    exact h.lt
  | inner h _ _ ih =>
    intro l hl
    rcases List.mem_cons.1 hl with rfl | hl
    · exact h.lt
    · exact ih l hl

/-- A scope knows the function that it is part of. -/
theorem Layers.func (h : Layers ir (l :: stack) blocks) :
    (ir.scope l.scope).func = l.function.map Function.name := by
  cases h with
  | root h _ => exact h.func
  | inner h _ _ => exact h.func

/-- A name means the same in the blocks and in the scopes. -/
private theorem Layers.find? (h : Layers ir (l :: stack) blocks) (hw : ir.WellFormed) (name : String) :
    blocks.flatten.find? (·.name = name) = (ir.lookup name l.scope).map fun b => Local.ofVar name b.2 := by
  generalize hst : l :: stack = ls at h
  induction h generalizing l stack with
  | @root l' b h hp =>
    obtain ⟨rfl, -⟩ := List.cons.inj hst
    rw [List.flatten_cons, List.flatten_nil, List.append_nil, h.names]
    cases hv : (ir.scope l.scope).var? name with
    | none => rw [Ir.lookup_of_root (Ir.visible_of_var?_eq_none (hw.indexed _) hv) hp]; rfl
    | some var =>
      obtain ⟨i, hi, -⟩ := Ir.lookup_of_var (hw.indexed _) hv
      rw [hi]
      rfl
  | @inner l' outer ls b bs h hp hs ih =>
    obtain ⟨rfl, -⟩ := List.cons.inj hst
    rw [List.flatten_cons, List.find?_append, h.names]
    cases hv : (ir.scope l.scope).var? name with
    | none =>
      rw [Ir.lookup_of_parent hw.nested (Ir.visible_of_var?_eq_none (hw.indexed _) hv) hp, ← ih rfl]
      rfl
    | some var =>
      obtain ⟨i, hi, -⟩ := Ir.lookup_of_var (hw.indexed _) hv
      rw [hi]
      rfl

/-- The name that is found in the representation is found in the environment, with the same type and place. -/
theorem Represents.find? (h : Represents (l :: stack) s Γ) (name : String) :
    Γ.find? name = (s.ir.lookup name l.scope).map fun b => Local.ofVar name b.2 :=
  h.layers.find? h.wellFormed name

/-! ### Changes to scopes -/

/-- Scopes that keep what they declare hold the same names. -/
private theorem Layer.Holds.congr (h : l.Holds ir names) (hsize : ir.scopes.size ≤ ir'.scopes.size)
    (hvar : ∀ name, (ir'.scope l.scope).var? name = (ir.scope l.scope).var? name)
    (hfunc : (ir'.scope l.scope).func = (ir.scope l.scope).func) : l.Holds ir' names where
  lt := Nat.lt_of_lt_of_le h.lt hsize
  names name := by rw [hvar]; exact h.names name
  func := by rw [hfunc]; exact h.func

private theorem Layers.congr (h : Layers ir stack blocks) (hsize : ir.scopes.size ≤ ir'.scopes.size)
    (hsame : ∀ l ∈ stack, (∀ name, (ir'.scope l.scope).var? name = (ir.scope l.scope).var? name) ∧
      (ir'.scope l.scope).func = (ir.scope l.scope).func ∧ (ir'.scope l.scope).parent = (ir.scope l.scope).parent) :
    Layers ir' stack blocks := by
  induction h with
  | root h hp =>
    obtain ⟨hvar, hfunc, hparent⟩ := hsame _ List.mem_cons_self
    exact .root (h.congr hsize hvar hfunc) (hparent.trans hp)
  | inner h hp _ ih =>
    obtain ⟨hvar, hfunc, hparent⟩ := hsame _ List.mem_cons_self
    exact .inner (h.congr hsize hvar hfunc) (hparent.trans hp) (ih fun l hl => hsame l (List.mem_cons_of_mem _ hl))

private theorem Layers.push (h : Layers ir stack blocks) (id : Nat) (e : Entry) :
    Layers (ir.modifyScope id (·.push e)) stack blocks := by
  refine h.congr (Nat.le_of_eq (Ir.size_modifyScope _ _ _).symm) fun l hl => ?_
  by_cases hid : l.scope = id
  · rw [hid, Ir.scope_modifyScope_self (hid ▸ h.lt l hl)]
    exact ⟨fun _ => rfl, rfl, rfl⟩
  · rw [Ir.scope_modifyScope_of_ne hid]
    exact ⟨fun _ => rfl, rfl, rfl⟩

/-- The scopes around a scope have smaller numbers. -/
private theorem Layers.lt_head (h : Layers ir (l :: stack) blocks) (hw : ir.WellFormed) :
    ∀ l' ∈ stack, l'.scope < l.scope := by
  generalize hst : l :: stack = ls at h
  induction h generalizing l stack with
  | root =>
    obtain ⟨rfl, rfl⟩ := List.cons.inj hst
    intro l' hl'
    cases hl'
  | inner h hp _ ih =>
    obtain ⟨rfl, rfl⟩ := List.cons.inj hst
    intro l' hl'
    have hlt := hw.nested _ _ hp
    rcases List.mem_cons.1 hl' with rfl | hl'
    · exact hlt
    · exact Nat.lt_trans (ih rfl l' hl') hlt

private theorem find?_bind {scope : Scope} (hi : scope.Indexed)
    (h : ∀ n, names.find? (·.name = n) = (scope.var? n).map (Local.ofVar n)) (name : String) (var : Var)
    (n : String) :
    (Local.ofVar name var :: names).find? (·.name = n) = ((scope.bind name var).var? n).map (Local.ofVar n) := by
  rw [hi.var?_bind, List.find?_cons]
  by_cases hn : name = n
  · subst hn
    simp [Local.ofVar]
  · simp only [Local.ofVar, hn, decide_false, if_false]
    exact h n

private theorem Layers.declare (h : Layers ir (l :: stack) (names :: blocks)) (hw : ir.WellFormed) (name : String)
    (var : Var) :
    Layers (ir.apply (.declare l.scope name var)) (l :: stack) ((Local.ofVar name var :: names) :: blocks) := by
  have hlt := h.lt l List.mem_cons_self
  have hself : (ir.apply (.declare l.scope name var)).scope l.scope =
      ((ir.scope l.scope).push (.newVar name var)).bind name var := Ir.scope_modifyScope_self hlt _
  have hsize : (ir.apply (.declare l.scope name var)).scopes.size = ir.scopes.size := Ir.size_modifyScope _ _ _
  have hholds (hh : l.Holds ir names) :
      l.Holds (ir.apply (.declare l.scope name var)) (Local.ofVar name var :: names) := by
    refine ⟨by rw [hsize]; exact hlt, fun n => ?_, by rw [hself]; exact hh.func⟩
    rw [hself]
    exact find?_bind ((hw.indexed l.scope).push _) hh.names name var n
  -- the scopes further out are not touched: their numbers are smaller
  have hbelow := h.lt_head hw
  cases h with
  | root hh hp => exact .root (hholds hh) (by rw [hself]; exact hp)
  | inner hh hp hs =>
    refine .inner (hholds hh) (by rw [hself]; exact hp) (hs.congr (Nat.le_of_eq hsize.symm) fun l' hl' => ?_)
    have hne : l'.scope ≠ l.scope := Nat.ne_of_lt (hbelow l' hl')
    have hother : (ir.apply (.declare l.scope name var)).scope l'.scope = ir.scope l'.scope :=
      Ir.scope_modifyScope_of_ne hne _
    rw [hother]
    exact ⟨fun _ => rfl, rfl, rfl⟩

/-- The names bound on entering a scope, the latest first. -/
private theorem find?_bindAll {scope : Scope} (hi : scope.Indexed)
    (h : ∀ n, names.find? (·.name = n) = (scope.var? n).map (Local.ofVar n)) (born : List (String × Var))
    (n : String) :
    ((born.map fun b => Local.ofVar b.1 b.2).reverse ++ names).find? (·.name = n) =
      ((scope.bindAll born).var? n).map (Local.ofVar n) := by
  induction born generalizing scope names with
  | nil => exact h n
  | cons b born ih =>
    rw [List.map_cons, List.reverse_cons, List.append_assoc]
    exact ih (hi.bind b.1 b.2) (find?_bind hi h b.1 b.2)

private theorem Layers.openScope (h : Layers ir (l :: stack) blocks) (func : Option String) (born : List (String × Var))
    {function : Option Function} (hf : (func <|> (ir.scope l.scope).func) = function.map Function.name) :
    Layers (ir.openScope l.scope func born) (⟨ir.scopes.size, function⟩ :: l :: stack)
      ((born.map fun b => Local.ofVar b.1 b.2).reverse :: blocks) := by
  have hself := Ir.scope_openScope_self ir l.scope func born
  refine .inner ⟨by simp, fun n => ?_, ?_⟩ ?_ (h.congr (by simp) fun l' hl' => ?_)
  · rw [hself, ← List.append_nil (List.map _ _).reverse]
    exact find?_bindAll (Scope.indexed_empty _ _) (fun _ => rfl) born n
  · rw [hself, Scope.func_bindAll]
    exact hf
  · rw [hself, Scope.parent_bindAll]
    rfl
  · have hne : l'.scope ≠ ir.scopes.size := Nat.ne_of_lt (h.lt l' hl')
    rw [Ir.scope_openScope_of_ne hne]
    exact ⟨fun _ => rfl, rfl, rfl⟩

/-! ### Steps -/

/-- A new function adds its signature, and nothing to other names. -/
theorem Env.signatures_cons (h : Γ.signatures name = []) (signature : Signature) (span : Span) (other : String) :
    ({ Γ with functions := ⟨name, signature, span⟩ :: Γ.functions } : Env).signatures other =
      if other = name then [signature] else Γ.signatures other := by
  unfold Env.signatures Env.function? at h ⊢
  rw [List.find?_cons]
  by_cases hn : name = other
  · subst hn
    rw [List.append_eq_nil_iff] at h
    simp [h.1]
  · simp [hn, Ne.symm hn]

namespace Represents

/-- A declaration adds the same variable to both. -/
theorem declare (h : Represents (l :: stack) s Γ) (name : String) (var : Var) :
    Represents (l :: stack) (s.perform (.declare l.scope name var)) (Γ.declare (Local.ofVar name var)) := by
  obtain ⟨blocks, functions⟩ := Γ
  cases blocks with
  | nil => cases h.layers
  | cons names blocks =>
    exact ⟨h.wellFormed.declare _ _ _, h.layers.declare h.wellFormed name var, h.contains, h.alternatives, h.declared,
      h.known⟩

theorem act (h : Represents (l :: stack) s Γ) (op : String) (args : List Var) :
    Represents (l :: stack) (s.perform (.act l.scope op args)) Γ :=
  ⟨h.wellFormed.act _ _ _, h.layers.push _ _, h.contains, h.alternatives, h.declared, h.known⟩

/-- What is declared in a scope is no longer in the environment when the scope is closed. -/
theorem closeScope {inner : Layer} (h : Represents (inner :: l :: stack) s Γ) (id : ScopeId) (kind : ScopeKind)
    (born : List String) (dependency : Option Value) :
    Represents (l :: stack) (s.perform (.closeScope id kind l.scope born dependency)) Γ.leave := by
  obtain ⟨blocks, functions⟩ := Γ
  obtain ⟨hw, hl, hc, ha, hd, hk⟩ := h
  cases hl with
  | inner _ _ hs =>
    exact ⟨hw.closeScope _ _ _ _ _, hs.push _ _, hc, ha, hd, fun l hl => hk l (List.mem_cons_of_mem _ hl)⟩

/-- A scope begins, in the same function or in one that is known. -/
theorem openScope (h : Represents (l :: stack) s Γ) (kind : ScopeKind) (func : Option String)
    (born : List (String × Var)) {function : Option Function}
    (hf : (func <|> (s.ir.scope l.scope).func) = function.map Function.name)
    (hk : ∀ f, function = some f → Γ.signatures f.name = [f.signature]) :
    Represents (⟨s.ir.scopes.size, function⟩ :: l :: stack)
      (s.perform (.openScope s.ir.scopes.size kind l.scope func born))
      (Γ.enter (born.map fun b => Local.ofVar b.1 b.2).reverse) where
  wellFormed := h.wellFormed.openScope (h.layers.lt l List.mem_cons_self) func born
  layers := h.layers.openScope func born hf
  contains := h.contains
  alternatives := h.alternatives
  declared := h.declared
  known l' hl' := by
    rcases List.mem_cons.1 hl' with rfl | hl'
    · exact hk
    · exact h.known l' hl'

/-- A scope that is opened is a block entered, with the variables bound there. -/
theorem openBlock (h : Represents (l :: stack) s Γ) (kind : ScopeKind) (born : List (String × Var)) :
    Represents (⟨s.ir.scopes.size, l.function⟩ :: l :: stack)
      (s.perform (.openScope s.ir.scopes.size kind l.scope none born))
      (Γ.enter (born.map fun b => Local.ofVar b.1 b.2).reverse) := by
  have hf : (none <|> (s.ir.scope l.scope).func) = l.function.map Function.name := by
    rw [h.layers.func]
    cases l.function <;> rfl
  exact h.openScope kind none born hf (h.known l List.mem_cons_self)

/-- A function is added to both if its name is free. -/
theorem register (h : Represents stack s Γ) {name : Ident} (hfree : Γ.signatures name.name = [])
    (signature : Signature) : Represents stack (Checker.registered s name signature)
      { Γ with functions := ⟨name.name, signature, name.span⟩ :: Γ.functions } := by
  have hnew : s.ir.ops.contains name.name = false := by rw [h.contains, hfree]; rfl
  have hsig := Env.signatures_cons hfree signature name.span
  have hget (other : String) : (Checker.registered s name signature).ir.ops.get? other =
      if other = name.name then some ⟨[signature], true⟩ else s.ir.ops.get? other :=
    OperatorTable.get?_define hnew signature other
  refine ⟨h.wellFormed.register _ _, ?_, fun other => ?_, fun other => ?_, fun other => ?_, fun l hl f hf => ?_⟩
  · exact h.layers.congr (Nat.le_refl _) fun l _ => ⟨fun _ => rfl, rfl, rfl⟩
  · unfold OperatorTable.contains
    rw [hget, hsig]
    by_cases ho : other = name.name
    · simp [ho]
    · rw [if_neg ho, if_neg ho]
      exact h.contains other
  · rw [hget, hsig]
    by_cases ho : other = name.name
    · simp [ho]
    · rw [if_neg ho, if_neg ho]
      exact h.alternatives other
  · unfold Env.function?
    rw [List.find?_cons]
    by_cases ho : name.name = other
    · subst ho
      simp [Checker.registered]
    · simp only [ho, decide_false]
      have hl : (Checker.registered s name signature).declared.lookup other = s.declared.lookup other := by
        simp [Checker.registered, List.lookup_cons, beq_false_of_ne (Ne.symm ho)]
      rw [hl]
      exact h.declared other
  · -- the name was free, so it is not that of a function around
    have hold := h.known l hl f hf
    have hne : f.name ≠ name.name := by
      intro heq
      rw [heq, hfree] at hold
      cases hold
    rw [hsig, if_neg hne]
    exact hold

end Represents

end Scriptlet
