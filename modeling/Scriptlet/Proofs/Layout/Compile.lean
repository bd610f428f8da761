import Scriptlet.Proofs.Layout.Alike
import Scriptlet.Proofs.Layout.Check
import Scriptlet.Proofs.Readable.Source

/-!
# Layout does not change meaning

`compile_layout`: two texts with the same kinds of tokens are compiled to the same, but for the places, whatever blanks,
line breaks and comments they have; if they are not compiled, the same stage fails, for the same reason.
-/

namespace Scriptlet

open Lexical

/-- The error of a stage without its places. -/
def CompileError.bare : CompileError → CompileError
  | lex e => lex ⟨.blank, e.value⟩
  | parse e => parse ⟨.blank, e.value⟩
  | type e => type (bareError e)

/-- Two compilations come to the same but for the places. -/
inductive SameMeaning : Except Failure Compilation → Except Failure Compilation → Prop where
  | ok {c c' : Compilation} (program : c.program.bare = c'.program.bare) (ir : c.ir.bare = c'.ir.bare) :
    SameMeaning (.ok c) (.ok c')
  | error {f f' : Failure} (stage : f.error.stage = f'.error.stage) (error : f.error.bare = f'.error.bare) :
    SameMeaning (.error f) (.error f')

variable {src src' : String} {t t' : Tokenized}

/-- Two texts with the same kinds of tokens mean the same. -/
theorem compile_layout (h : tokenize src = .ok t) (h' : tokenize src' = .ok t')
    (hkinds : t.tokens.map Token.kind = t'.tokens.map Token.kind) : SameMeaning (compile src) (compile src') := by
  have hparse := Parse.parseProgram_kinds hkinds
  rw [compile_eq h, compile_eq h']
  cases hp : parseProgram t.tokens with
  | error e =>
    cases hp' : parseProgram t'.tokens with
    | error e' =>
      rw [hp, hp'] at hparse
      exact .error rfl (congrArg (fun x => CompileError.parse ⟨.blank, x⟩) hparse)
    | ok p' =>
      rw [hp, hp'] at hparse
      exact hparse.elim
  | ok p =>
    cases hp' : parseProgram t'.tokens with
    | error e' =>
      rw [hp, hp'] at hparse
      exact hparse.elim
    | ok p' =>
      rw [hp, hp'] at hparse
      have hbare : p.bare = p'.bare := hparse
      -- the two checks are that of the program without its places
      have hcheck : Checked.bare Ir.bare (typecheck p) = Checked.bare Ir.bare (typecheck p') := by
        rw [← typecheck_bare, ← typecheck_bare, hbare]
      simp only
      cases hir : typecheck p with
      | error e =>
        cases hir' : typecheck p' with
        | error e' =>
          rw [hir, hir'] at hcheck
          exact .error rfl (congrArg CompileError.type (Except.error.inj hcheck))
        | ok ir' =>
          rw [hir, hir'] at hcheck
          cases hcheck
      | ok ir =>
        cases hir' : typecheck p' with
        | error e' =>
          rw [hir, hir'] at hcheck
          cases hcheck
        | ok ir' =>
          rw [hir, hir'] at hcheck
          exact .ok hbare (Except.ok.inj hcheck)

/-- A text with blanks alone, and the same with a comment before it. -/
theorem comment_layout : ∃ t t', tokenize "let x = 1 ; " = .ok t ∧ tokenize "// one\nlet x = 1 ; " = .ok t' ∧
    t.tokens.map Token.kind = t'.tokens.map Token.kind ∧
      SameMeaning (compile "let x = 1 ; ") (compile "// one\nlet x = 1 ; ") := by
  let kinds : List TokenKind :=
    [.keyword .letKw, .identifier "x", .symbol .assign, .intLiteral "1", .symbol .semicolon]
  have hspelled : ∀ k ∈ kinds, isSpelled k = true := by decide
  have hcomment : IsSegment (.comment ('/' :: '/' :: (" one".toList ++ ['\n']))) (spaced kinds) :=
    .comment (by simp [IsLineBreak]) (.inl rfl)
  have hcut : IsCut "// one\nlet x = 1 ; ".toList _ := .cons hcomment (isCut_spaced hspelled)
  have hblanks : "let x = 1 ; ".toList = spaced kinds := rfl
  obtain ⟨lines, h⟩ := tokenize_spaced hspelled hblanks
  obtain ⟨lines', h'⟩ := tokenize_of_isCut hcut
  exact ⟨_, _, h, h', rfl, compile_layout h h' rfl⟩

end Scriptlet
