import Scriptlet.Proofs.Diagnosis.Names
import Scriptlet.Proofs.Environment.Equivalence
import Scriptlet.Proofs.Readable.Source

/-!
# What errors say of the functions of a text

`compile_explained`: where a text fails to compile for a violated rule, what the error says of functions and operators
is right, and a function that is declared again has been declared before in the text itself.  For the function around a
`return` this holds of every program: the check comes out as it does where that function is handed down to the
statements of its body (`Env.check`), and every scope but the root belongs to a function in the table
(`Ir.Owned`), so that nothing depends on what stands in for a missing one.
-/

namespace Scriptlet

open Lexical

/-! ### Scopes and their functions -/

namespace Ir

variable {ir ir' : Ir}

/-- Every scope but the root belongs to a function in the table. -/
def Owned (ir : Ir) : Prop :=
  ∀ id : Nat, id ≠ ScopeId.root → id < ir.scopes.size → ∃ signature, ir.Signed id signature

private theorem owned_initial : initial.Owned := fun _ hne hlt => absurd (Nat.lt_one_iff.1 hlt) hne

/-- Scopes that there were belong to their functions still. -/
private theorem Owned.grow (h : ir.Owned) (hg : ir.Grows ir')
    (hnew : ∀ id : Nat, ir.scopes.size ≤ id → id < ir'.scopes.size → ∃ signature, ir'.Signed id signature) :
    ir'.Owned := by
  intro id hne hlt
  rcases Nat.lt_or_ge id ir.scopes.size with hold | hge
  · obtain ⟨signature, hs⟩ := h id hne hold
    exact ⟨signature, hg.signed hold hs⟩
  · exact hnew id hge hlt

/-- What a scope belongs to is found in the table. -/
private theorem enclosing_eq {id : Nat} {signature : Signature} (h : ir.Signed id signature) :
    ∃ name, (ir.scope id).func = some name ∧ ir.ops.get? name = some ⟨[signature], true⟩ ∧
      Checker.enclosing ir id = (name, signature.result) := by
  obtain ⟨name, hf, hop⟩ := h
  exact ⟨name, hf, hop, by simp [Checker.enclosing, hf, hop]⟩

end Ir

private theorem Move.owned {P : String → Prop} {b b' : Building} (hb : b.Coherent ∧ b.ir.Owned) (h : Move P b b') :
    b'.Coherent ∧ b'.ir.Owned := by
  obtain ⟨hc, ho⟩ := hb
  have hc' := h.coherent hc
  refine ⟨hc', ho.grow h.grows fun id hge hlt => ?_⟩
  -- a scope that is new is the innermost of those that are open now
  have hcurrent : ∀ f frames, b'.frames = f :: frames → f.id = id → ∃ signature, b'.ir.Signed id signature := by
    rintro f frames hframes rfl
    exact (hframes ▸ hc'.chain).signed
  cases h with
  | declare | act | close =>
    have hsize := Nat.lt_of_lt_of_eq hlt (Ir.size_modifyScope _ _ _)
    exact absurd hsize (Nat.not_lt.2 hge)
  | func | block =>
    have hsize := Nat.lt_of_lt_of_eq hlt (Ir.size_openScope _ _ _ _)
    exact hcurrent _ _ rfl (Nat.le_antisymm hge (Nat.le_of_lt_succ hsize))

/-- Every scope but the root of a program that is accepted belongs to a function in its table. -/
private theorem typecheck_owned {p : Program} {ir : Ir} (h : typecheck p = .ok ir) : ir.Owned := by
  have hpath : Path (fun _ => True) ⟨.initial, []⟩ ⟨ir, []⟩ := typecheck_path (fun _ _ => trivial) h
  exact (hpath.preserves (fun _ _ => Move.owned) ⟨coherent_initial, Ir.owned_initial⟩).2

/-! ### Programs and texts -/

/-- What an error of the check of a program says of functions and operators is right. -/
private theorem typecheck_explained {p : Program} {e : Located TypeError} (h : typecheck p = .error e) :
    Explained p.heads p.returns e :=
  (Env.check_accounts p).of_eq_error (check_of_typecheck_error h)

/-- A function whose name the language leaves free has been declared before, if it cannot be declared. -/
private theorem Explained.previous_ne_none {heads : List Function} {returns : List ReturnSite} {e : Located TypeError}
    (h : Explained heads returns e) (hfree : ∀ f ∈ heads, OpName.Free f.name) (name : String) :
    e.value ≠ .duplicateFunction name none := by
  intro he
  obtain ⟨g, hg, rfl, -, ⟨-, hbuiltin⟩ | ⟨f, -, -, hf⟩⟩ := h.duplicate name none he
  · exact (hfree g hg).1 hbuiltin
  · cases hf

/-- The errors of checks: for texts, what they say of functions and operators is right, and no function of a text has a
name of the language; for all programs, so is what they say of returns, for the function around a `return` is always
found. -/
theorem compile_explained :
    (∀ src e rendered, compile src = .error ⟨.type e, rendered⟩ →
      ∃ t p, tokenize src = .ok t ∧ parseProgram t.tokens = .ok p ∧ Explained p.heads p.returns e ∧
        ∀ name, e.value ≠ .duplicateFunction name none) ∧
    ∀ p : Program,
      (∀ e, typecheck p = .error e → Explained p.heads p.returns e) ∧
      (∀ ir, typecheck p = .ok ir → ∀ id : Nat, id ≠ ScopeId.root → id < ir.scopes.size →
        ∃ name signature, (ir.scope id).func = some name ∧ ir.ops.get? name = some ⟨[signature], true⟩ ∧
          Checker.enclosing ir id = (name, signature.result)) ∧
      (typecheck p).map (fun _ => ()) = (Env.check p).map (fun _ => ()) := by
  refine ⟨fun src e rendered h => ?_, fun p => ⟨fun e h => typecheck_explained h, fun ir h id hne hlt => ?_, ?_⟩⟩
  · generalize hf : (⟨.type e, rendered⟩ : Failure) = f at h
    cases failsIn_of_compile h with
    | lexer | parser => cases hf
    | typer ht hp hir =>
      cases hf
      have hexplained := typecheck_explained hir
      exact ⟨_, _, ht, hp, hexplained, hexplained.previous_ne_none (declares_of_parse ht hp).free⟩
  · obtain ⟨signature, hs⟩ := typecheck_owned h id hne hlt
    obtain ⟨name, hfound⟩ := Ir.enclosing_eq hs
    exact ⟨name, signature, hfound⟩
  · cases hir : typecheck p with
    | error e => rw [check_of_typecheck_error hir]; rfl
    | ok ir =>
      obtain ⟨Γ, hΓ⟩ := check_of_typecheck_ok hir
      rw [hΓ]
      rfl

/-- `func f ( ) -> Int { if true { return ; } } `, by its tokens. -/
private def leaving : List TokenKind :=
  [.keyword .funcKw, .identifier "f", .symbol .lparen, .symbol .rparen, .symbol .arrow, .keyword .intTy,
    .symbol .lbrace, .keyword .ifKw, .keyword .trueKw, .symbol .lbrace, .keyword .returnKw, .symbol .semicolon,
    .symbol .rbrace, .symbol .rbrace]

/-- The `return` in the branch is one of `f`. -/
theorem leaving_explained : ∃ (e : Located TypeError) (t : Tokenized) (p : Program),
    e.value = .returnMismatch "f" .int .void ∧
    tokenize "func f ( ) -> Int { if true { return ; } } " = .ok t ∧ parseProgram t.tokens = .ok p ∧
      ∃ r ∈ p.returns, r.func.name = "f" ∧ r.func.signature.result = .int ∧ r.place = e.span := by
  have hspelled : ∀ k ∈ leaving, isSpelled k = true := by decide
  have hsrc : "func f ( ) -> Int { if true { return ; } } ".toList = spaced leaving := rfl
  have hfails : ∃ p e, parseProgram (spacedTokens leaving) = .ok p ∧ typecheck p = .error e ∧
      e.value = .returnMismatch "f" .int .void := ⟨_, _, rfl, rfl, rfl⟩
  obtain ⟨p, e, hp, hir, he⟩ := hfails
  obtain ⟨rendered, h⟩ := compile_spaced_error hspelled hsrc hp hir
  obtain ⟨t, p, ht, hp, hexplained, -⟩ := compile_explained.1 _ _ _ h
  obtain ⟨r, hr, hname, hresult, hplace, -⟩ := hexplained.returned _ _ _ he
  exact ⟨e, t, p, he, ht, hp, r, hr, hname, hresult, hplace⟩

end Scriptlet
