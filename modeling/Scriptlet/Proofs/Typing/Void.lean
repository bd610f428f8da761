import Scriptlet.Proofs.Mirror.Functions
import Scriptlet.Proofs.Readable.Source

/-!
# Variables of type `Void`

A declaration must have a value, so that what it declares is not of type `Void`, and what a loop runs over are numbers
or characters.  Nothing is asked of parameters: `compile_void` says that they are the only variables of that type, and
that there are none exactly if no function of the program has a parameter declared so.  A call without a result is then
accepted as an argument, and binds it (`void_bound`).

The variables that a function begins with are its parameters as long as the representation grows, so the invariant
`Ir.Voids` follows the moves of a check.
-/

namespace Scriptlet

open Lexical

namespace Ir

variable {ir ir' : Ir} {id : Nat} {b : String × Var}

/-- A parameter of the function that the scope belongs to, whose parameters are all that the scope begins with. -/
def IsParameter (ir : Ir) (id : Nat) (b : String × Var) : Prop :=
  b ∈ (ir.scope id).born ∧ ∃ signature, ir.Signed id signature ∧ signature.args = (ir.scope id).born.map (·.2.ty)

/-- Variables of type `Void` are parameters. -/
def Voids (ir : Ir) : Prop := ∀ id : Nat, ∀ b ∈ (ir.scope id).bindings, b.2.ty = .void → ir.IsParameter id b

/-- Every function of the program has a scope that begins with its parameters. -/
def Begun (ir : Ir) : Prop := ∀ name signature, ir.ops.get? name = some ⟨[signature], true⟩ →
  ∃ id : Nat, id < ir.scopes.size ∧ signature.args = (ir.scope id).born.map (·.2.ty)

private theorem lt_of_mem_bindings (h : b ∈ (ir.scope id).bindings) : id < ir.scopes.size := by
  rcases Nat.lt_or_ge id ir.scopes.size with hlt | hge
  · exact hlt
  · rw [scope_of_size_le hge] at h
    simp [Scope.empty] at h

/-! ### Growth -/

private theorem IsParameter.grow (h : ir.IsParameter id b) (hlt : id < ir.scopes.size) (hg : ir.Grows ir') :
    ir'.IsParameter id b := by
  obtain ⟨hb, signature, hs, hargs⟩ := h
  have hborn := (hg.scope id hlt).born
  exact ⟨hborn ▸ hb, signature, hg.signed hlt hs, hborn ▸ hargs⟩

/-- With the variables that were there, those of type `Void` stay parameters. -/
private theorem Voids.parameter (h : ir.Voids) (hg : ir.Grows ir') (hb : b ∈ (ir.scope id).bindings)
    (hty : b.2.ty = .void) : ir'.IsParameter id b := (h id b hb hty).grow (lt_of_mem_bindings hb) hg

/-- Functions that were in the table have their scopes still. -/
private theorem Begun.grow (h : ir.Begun) (hg : ir.Grows ir') (hops : ir'.ops = ir.ops) : ir'.Begun := by
  intro name signature hop
  obtain ⟨id, hlt, hargs⟩ := h name signature (hops ▸ hop)
  exact ⟨id, Nat.lt_of_lt_of_le hlt hg.size, (hg.scope id hlt).born ▸ hargs⟩

namespace Voids

private theorem register (h : ir.Voids) {name : String} (hfree : ir.ops.contains name = false) (signature : Signature) :
    (ir.apply (.register name signature)).Voids :=
  fun _ _ hb hty => h.parameter (grows_register hfree signature) hb hty

/-- A new entry, which declares nothing without a value. -/
private theorem add (h : ir.Voids) (target : Nat) {f : Scope → Scope} {e : Entry} (hf : ∀ s, Scope.Adds e s (f s))
    (he : ∀ b, e.declared? = some b → b.2.ty ≠ .void) : (ir.modifyScope target f).Voids := by
  intro id b hb hty
  refine h.parameter (grows_modifyScope ir target fun s => (hf s).extends) ?_ hty
  rcases scope_modifyScope ir target id f with ⟨rfl, -, ho⟩ | ho
  · rw [ho, ← Array.mem_toList_iff, (hf _).bindings] at hb
    rcases List.mem_append.1 hb with hb | hb
    · exact Array.mem_toList_iff.1 hb
    · exact absurd hty (he b (Option.mem_toList.1 hb))
  · rwa [ho] at hb

/-- A new scope, which begins with parameters or with variables that have values. -/
private theorem openScope (h : ir.Voids) (parent : Nat) (func : Option String) {born : List (String × Var)}
    (hborn : ∀ b ∈ born, b.2.ty = .void → (ir.openScope parent func born).IsParameter ir.scopes.size b) :
    (ir.openScope parent func born).Voids := by
  intro id b hb hty
  rcases scope_openScope ir id parent func born with ⟨rfl, ho⟩ | ⟨-, ho⟩
  · rw [ho, ← Array.mem_toList_iff, Scope.bindings_bindAll] at hb
    exact hborn b (by simpa [Scope.empty] using hb) hty
  · rw [ho] at hb
    exact h.parameter (grows_openScope ir parent func born) hb hty

end Voids

private theorem voids_initial : initial.Voids := by
  intro id b hb
  rw [scope_initial] at hb
  simp [Scope.empty] at hb

private theorem begun_initial : initial.Begun := by
  intro name signature hop
  have hbuiltin : OperatorTable.builtins.get? name = some ⟨[signature], true⟩ := hop
  exact absurd hbuiltin (OperatorTable.get?_builtins_ne name signature)

/-- The scope of a function that has just entered the table begins with its parameters. -/
private theorem born_openFunc (ir : Ir) (name : String) (signature : Signature) (parent : Nat)
    {born : List (String × Var)} (hborn : ∀ b ∈ born, b.2.value.isArg = true) :
    (((ir.apply (.register name signature)).openScope parent (some name) born).scope ir.scopes.size).born = born :=
  born_openScope (ir.apply (.register name signature)) parent (some name) hborn

end Ir

/-! ### The invariants -/

/-- No block begins with a variable of type `Void`. -/
private theorem Guard.ty_ne_void {T : Value → Ty → Prop} {kind : ScopeKind} {born : List (String × Var)}
    {guard : Option Value} (h : Guard T kind born guard) : ∀ b ∈ born, b.2.ty ≠ .void := by
  cases h <;> simp [Var.ty]

variable {P : String → Prop} {b b' : Building}

private theorem Move.voids (hb : b.ir.Voids) (h : Move P b b') : b'.ir.Voids := by
  cases h with
  | declare hv hty =>
    refine hb.add _ (fun s => s.adds_declare _ hv.isArg _ _ _) fun b heq => ?_
    cases heq
    exact hty
  | act _ => exact hb.add _ (fun s => s.adds_push rfl) fun _ h => nomatch h
  | @func ir frames name signature born hfree _ hborn hargs =>
    refine (hb.register hfree signature).openScope (current frames) (some name) fun b hmem _ => ?_
    have hbegun := Ir.born_openFunc ir name signature (current frames) hborn
    have hsigned := Ir.signed_openFunc hfree signature (current frames) born
    exact ⟨hbegun.symm ▸ hmem, signature, hsigned, hargs.trans (congrArg _ hbegun.symm)⟩
  | block hguard => exact hb.openScope _ _ fun b hmem hty => absurd hty (hguard.ty_ne_void b hmem)
  | close => exact hb.add _ (fun s => s.adds_push rfl) fun _ h => nomatch h

private theorem Move.begun (hb : b.ir.Begun) (h : Move P b b') : b'.ir.Begun := by
  have hg := h.grows
  cases h with
  | declare | act | block | close => exact hb.grow hg rfl
  | @func ir frames name signature born hfree _ hborn hargs =>
    intro other s hop
    have hget : (ir.apply (.register name signature)).ops.get? other =
        if other = name then some ⟨[signature], true⟩ else ir.ops.get? other :=
      OperatorTable.get?_define hfree signature other
    have hop : (ir.apply (.register name signature)).ops.get? other = some ⟨[s], true⟩ := hop
    rw [hget] at hop
    by_cases ho : other = name
    · rw [if_pos ho] at hop
      cases hop
      have hbegun := Ir.born_openFunc ir name signature (current frames) hborn
      refine ⟨ir.scopes.size, ?_, hargs.trans (congrArg _ hbegun.symm)⟩
      exact Nat.lt_of_lt_of_eq (Nat.lt_succ_self _) (Ir.size_openScope _ _ _ _).symm
    · rw [if_neg ho] at hop
      obtain ⟨id, hlt, hargs⟩ := hb other s hop
      exact ⟨id, Nat.lt_of_lt_of_le hlt hg.size, (hg.scope id hlt).born ▸ hargs⟩

/-! ### Sources -/

/-- The variables of a text that compiles: those of type `Void` are parameters, and there are none exactly if no
function is declared with a parameter of that type. -/
theorem compile_void {src : String} {c : Compilation} (h : compile src = .ok c) :
    (∀ id : Nat, ∀ b ∈ (c.ir.scope id).bindings, b.2.ty = .void → c.ir.IsParameter id b) ∧
      ((∀ id : Nat, ∀ b ∈ (c.ir.scope id).bindings, b.2.ty ≠ .void) ↔
        ∀ f ∈ c.program.functions, .void ∉ f.2.args) := by
  have hir := (compile_eq_ok h).2
  have hpath : Path (fun _ => True) ⟨.initial, []⟩ ⟨c.ir, []⟩ := typecheck_path (fun _ _ => trivial) hir
  have hvoids : c.ir.Voids := hpath.preserves (fun _ _ => Move.voids) Ir.voids_initial
  have hbegun : c.ir.Begun := hpath.preserves (fun _ _ => Move.begun) Ir.begun_initial
  refine ⟨hvoids, fun hnone f hf hvoid => ?_, fun hparams id b hb hty => ?_⟩
  · -- the parameter is among the variables that the function begins with
    obtain ⟨id, -, hargs⟩ := hbegun f.1 f.2 ((mem_functions_iff hir).1 hf)
    rw [hargs] at hvoid
    obtain ⟨b, hb, hty⟩ := List.mem_map.1 hvoid
    exact hnone id b (Array.mem_toList_iff.1 (List.mem_of_mem_filter hb)) hty
  · obtain ⟨hborn, signature, ⟨name, -, hop⟩, hargs⟩ := hvoids id b hb hty
    refine hparams (name, signature) ((mem_functions_iff hir).2 hop) ?_
    rw [hargs, ← hty]
    exact List.mem_map_of_mem hborn

/-- `func g ( ) { } func f ( x : Void ) { f ( g ( ) ) ; } `, by its tokens. -/
private def passing : List TokenKind :=
  [.keyword .funcKw, .identifier "g", .symbol .lparen, .symbol .rparen, .symbol .lbrace, .symbol .rbrace,
    .keyword .funcKw, .identifier "f", .symbol .lparen, .identifier "x", .symbol .colon, .keyword .voidTy,
    .symbol .rparen, .symbol .lbrace, .identifier "f", .symbol .lparen, .identifier "g", .symbol .lparen,
    .symbol .rparen, .symbol .rparen, .symbol .semicolon, .symbol .rbrace]

private theorem compile_passing : ∃ c, compile "func g ( ) { } func f ( x : Void ) { f ( g ( ) ) ; } " = .ok c ∧
    ∃ b ∈ (c.ir.scope 2).bindings, b.2.ty = .void := by
  have hspelled : ∀ k ∈ passing, isSpelled k = true := by decide
  have hsrc : "func g ( ) { } func f ( x : Void ) { f ( g ( ) ) ; } ".toList = spaced passing := rfl
  obtain ⟨lines, h⟩ := compile_spaced hspelled hsrc rfl rfl
  have hvoid (s : Scope) (hs : (s.bindings.toList.any fun b => decide (b.2.ty = .void)) = true) :
      ∃ b ∈ s.bindings, b.2.ty = .void := by
    obtain ⟨b, hb, hty⟩ := List.any_eq_true.1 hs
    exact ⟨b, Array.mem_toList_iff.1 hb, of_decide_eq_true hty⟩
  exact ⟨_, h, hvoid _ rfl⟩

/-- `x` is a parameter of the function that scope 2 belongs to. -/
theorem void_parameter : ∃ c, compile "func g ( ) { } func f ( x : Void ) { f ( g ( ) ) ; } " = .ok c ∧
    ∃ b ∈ (c.ir.scope 2).bindings, c.ir.IsParameter 2 b := by
  obtain ⟨c, h, b, hb, hty⟩ := compile_passing
  exact ⟨c, h, b, hb, (compile_void h).1 2 b hb hty⟩

/-- The parameter of `f` is a variable of type `Void`, which the call binds to what `g` gives. -/
theorem void_bound : ¬ ∀ c, compile "func g ( ) { } func f ( x : Void ) { f ( g ( ) ) ; } " = .ok c →
    ∀ id : Nat, ∀ b ∈ (c.ir.scope id).bindings, b.2.ty ≠ .void := by
  obtain ⟨c, h, b, hb, hty⟩ := compile_passing
  exact fun hnone => hnone c h 2 b hb hty

end Scriptlet
