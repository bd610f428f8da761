import Scriptlet.Proofs.Lexical.Spaced
import Scriptlet.Proofs.Mirror.Check
import Scriptlet.Proofs.Mirror.Inverse
import Scriptlet.Proofs.Readable.Source

/-!
# What a representation keeps of its source

`split_eq_of_ir_eq`: two texts with one representation have one program, but for the places, for the types that need not
be written, and for the `switch` statements that default cases belong to.  For the representation of a text reads back
as its program (`raise_eq_of_compile`).

A default case has no guard, so that the representation tells neither the subject of a `switch` without other cases nor
the `switch` that a default case stands in (`default_lost`).
-/

namespace Scriptlet

open Lexical

/-! ### Texts with one representation -/

/-- The texts have one representation, but not one program. -/
def Conflated (src src' : String) : Prop :=
  ∃ c c' : Compilation, compile src = .ok c ∧ compile src' = .ok c' ∧ c.ir = c'.ir ∧ c.program.plain ≠ c'.program.plain

namespace Conflated

/-- The tokens of a function without parameters. -/
def inFunction (body : List TokenKind) : List TokenKind :=
  [.keyword .funcKw, .identifier "f", .symbol .lparen, .symbol .rparen, .symbol .lbrace] ++ body ++ [.symbol .rbrace]

/-- An empty block. -/
def emptyBlock : List TokenKind := [.symbol .lbrace, .symbol .rbrace]

/-- A `switch` on a number with cases. -/
def switch (digit : String) (cases : List TokenKind) : List TokenKind :=
  [.keyword .switchKw, .intLiteral digit, .symbol .lbrace] ++ cases ++ [.symbol .rbrace]

/-- A case of the number one. -/
def caseOne : List TokenKind := [.keyword .caseKw, .intLiteral "1"] ++ emptyBlock

/-- A default case. -/
def default : List TokenKind := .keyword .defaultKw :: emptyBlock

private theorem of_tokens {src src' : String} (kinds kinds' : List TokenKind)
    (hk : ∀ k ∈ kinds ++ kinds', isSpelled k = true) (hsrc : src.toList = spaced kinds)
    (hsrc' : src'.toList = spaced kinds')
    (h : ∃ p p' ir, parseProgram (spacedTokens kinds) = .ok p ∧ parseProgram (spacedTokens kinds') = .ok p' ∧
      typecheck p = .ok ir ∧ typecheck p' = .ok ir ∧ p.plain ≠ p'.plain) : Conflated src src' := by
  obtain ⟨p, p', ir, hp, hp', hir, hir', hne⟩ := h
  rw [List.forall_mem_append] at hk
  obtain ⟨lines, ht⟩ := tokenize_spaced hk.1 hsrc
  obtain ⟨lines', ht'⟩ := tokenize_spaced hk.2 hsrc'
  exact ⟨_, _, compile_of_stages ht hp hir, compile_of_stages ht' hp' hir', rfl, hne⟩

/-- The subject of a `switch` without other cases than the default. -/
private theorem default_subject : Conflated "func f ( ) { switch 1 { default { } } } "
    "func f ( ) { switch 2 { default { } } } " :=
  of_tokens (inFunction (switch "1" default)) (inFunction (switch "2" default)) (by decide) rfl rfl
    ⟨_, _, _, rfl, rfl, rfl, rfl, fun h => by cases h⟩

/-- The `switch` that a default case stands in. -/
private theorem default_switch : Conflated "func f ( ) { switch 1 { case 1 { } default { } } } "
    "func f ( ) { switch 1 { case 1 { } } switch 2 { default { } } } " :=
  of_tokens (inFunction (switch "1" (caseOne ++ default))) (inFunction (switch "1" caseOne ++ switch "2" default))
    (by decide) rfl rfl ⟨_, _, _, rfl, rfl, rfl, rfl, fun h => by cases h⟩

/-- A `switch` without cases. -/
private theorem no_cases : Conflated "func f ( ) { } " "func f ( ) { switch 1 { } } " :=
  of_tokens (inFunction []) (inFunction (switch "1" [])) (by decide) rfl rfl
    ⟨_, _, _, rfl, rfl, rfl, rfl, fun h => by cases h⟩

end Conflated

/-! ### Representations of texts -/

/-- The representation of a text says what its program is, with the default cases apart. -/
theorem raise_eq_of_compile {src : String} {c : Compilation} (h : compile src = .ok c) :
    c.ir.raise = c.program.plain.split :=
  (typecheck_becomes (compile_eq_ok h).2).raise_eq (readable_of_compile h)

/-- Texts with equal representations have equal programs up to places, types that need not be written, and the
`switch` statements that default cases belong to. -/
theorem split_eq_of_ir_eq {src src' : String} {c c' : Compilation} (h : compile src = .ok c)
    (h' : compile src' = .ok c') (hir : c.ir = c'.ir) : c.program.plain.split = c'.program.plain.split := by
  rw [← raise_eq_of_compile h, ← raise_eq_of_compile h', hir]

/-- Two programs are the same with the default cases apart. -/
theorem default_apart : ∃ c c' : Compilation, compile "func f ( ) { switch 1 { default { } } } " = .ok c ∧
    compile "func f ( ) { switch 2 { default { } } } " = .ok c' ∧ c.ir = c'.ir ∧
      c.program.plain.split = c'.program.plain.split := by
  obtain ⟨c, c', h, h', hir, -⟩ := Conflated.default_subject
  exact ⟨c, c', h, h', hir, split_eq_of_ir_eq h h' hir⟩

/-- What default cases and empty `switch` statements stand in or run on is lost. -/
theorem default_lost :
    Conflated "func f ( ) { switch 1 { default { } } } " "func f ( ) { switch 2 { default { } } } " ∧
    Conflated "func f ( ) { switch 1 { case 1 { } default { } } } "
      "func f ( ) { switch 1 { case 1 { } } switch 2 { default { } } } " ∧
    Conflated "func f ( ) { } " "func f ( ) { switch 1 { } } " :=
  ⟨Conflated.default_subject, Conflated.default_switch, Conflated.no_cases⟩

end Scriptlet
