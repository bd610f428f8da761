import Scriptlet.Compile
import Scriptlet.Proofs.Lexical.Spaced
import Scriptlet.Proofs.Readable.Parsed
import Scriptlet.Proofs.Speculation.Equivalence

/-!
# Every source that compiles has a readable program

`readable_of_compile`: what is parsed from the tokens of a text is readable (`program_gives`), as these are cut out of
the text one after the other (`spelled_of_tokenize`).
-/

namespace Scriptlet

open Lexical

/-! ### Tokens -/

private theorem not_reserved_of_isWord {text : List Char} (h : IsWord text)
    (hk : ∀ k : Keyword, k.text ≠ String.ofList text) : String.ofList text ∉ OpName.reserved :=
  not_mem_of_isWord (by decide) h hk

private theorem len_cut (t : Token) : t.cut.span.len = min t.span.len Span.maxLength :=
  congrArg (min · Span.maxLength) (Nat.add_sub_cancel_left t.span.lo t.span.len)

/-- The tokens of a text follow one another, and their names are words. -/
theorem spelled_of_tokenize {src : String} {t : Tokenized} (h : tokenize src = .ok t) : Spelled t.tokens := by
  obtain ⟨gs, hcut, htokens⟩ := isCut_of_tokenize h
  obtain ⟨⟨hplaced, hpairs⟩, -⟩ := @placed_tokensFrom src [] _ gs hcut rfl
  rw [htokens]
  refine ⟨?_, ?_, ?_⟩
  · intro t ht
    obtain ⟨u, hu, rfl⟩ := List.mem_map.1 ht
    have hpos := (hplaced u hu).1
    rw [len_cut]
    exact Nat.lt_min.2 ⟨hpos, by decide⟩
  · intro t ht name hname
    obtain ⟨u, hu, rfl⟩ := List.mem_map.1 ht
    have hlexeme := (hplaced u hu).2.2
    have hkind : u.kind = .identifier name := hname
    rw [hkind] at hlexeme
    cases hlexeme with
    | identifier hword hk => exact not_reserved_of_isWord hword hk
  · refine List.pairwise_map.2 (hpairs.imp fun {t u} htu => Nat.le_trans ?_ htu)
    unfold Span.hi
    rw [len_cut]
    exact Nat.add_le_add_left (Nat.min_le_left _ _) _

/-! ### Programs -/

/-- The stages after the tokens. -/
theorem compile_eq {src : String} {t : Tokenized} (h : tokenize src = .ok t) : compile src =
    match parseProgram t.tokens with
    | .error e => .error (.of t.lines (.parse e))
    | .ok p =>
      match typecheck p with
      | .error e => .error (.of t.lines (.type e))
      | .ok ir => .ok ⟨t.tokens, t.lines, p, ir⟩ := by
  unfold compile Report.of parseProgram typecheck
  rw [h]
  simp only
  cases (Parse.programOutcome t.tokens).result with
  | error e => rfl
  | ok p =>
    simp only
    cases (Typing.outcome p).result <;> rfl

/-- The stages of a compilation. -/
theorem compile_eq_ok {src : String} {c : Compilation} (h : compile src = .ok c) :
    (∃ t, tokenize src = .ok t ∧ parseProgram t.tokens = .ok c.program) ∧ typecheck c.program = .ok c.ir := by
  cases ht : tokenize src with
  | error e =>
    unfold compile Report.of at h
    rw [ht] at h
    cases h
  | ok t =>
    rw [compile_eq ht] at h
    cases hp : parseProgram t.tokens with
    | error e =>
      rw [hp] at h
      cases h
    | ok p =>
      rw [hp] at h
      simp only at h
      cases hir : typecheck p with
      | error e =>
        rw [hir] at h
        cases h
      | ok ir =>
        rw [hir] at h
        cases h
        exact ⟨⟨t, rfl, hp⟩, hir⟩

/-- A text goes through all stages. -/
theorem compile_of_stages {src : String} {t : Tokenized} {p : Program} {ir : Ir} (ht : tokenize src = .ok t)
    (hp : parseProgram t.tokens = .ok p) (hir : typecheck p = .ok ir) :
    compile src = .ok ⟨t.tokens, t.lines, p, ir⟩ := by
  rw [compile_eq ht, hp]
  simp only [hir]

/-- The stage in which a compilation fails; what is in it is shown with the lines of the text as the lexer found them,
or as they are found without it. -/
inductive FailsIn (src : String) : Failure → Prop where
  | lexer {e : Located LexError} : tokenize src = .error e → FailsIn src (.of (.of src) (.lex e))
  | parser {t : Tokenized} {e : Located ParseError} :
    tokenize src = .ok t → parseProgram t.tokens = .error e → FailsIn src (.of t.lines (.parse e))
  | typer {t : Tokenized} {p : Program} {e : Located TypeError} : tokenize src = .ok t →
    parseProgram t.tokens = .ok p → typecheck p = .error e → FailsIn src (.of t.lines (.type e))

/-- The failure of a text is that of its first stage that fails. -/
theorem failsIn_of_compile {src : String} {f : Failure} (h : compile src = .error f) : FailsIn src f := by
  cases ht : tokenize src with
  | error e =>
    unfold compile Report.of at h
    rw [ht] at h
    cases h
    exact .lexer ht
  | ok t =>
    rw [compile_eq ht] at h
    cases hp : parseProgram t.tokens with
    | error e =>
      rw [hp] at h
      cases h
      exact .parser ht hp
    | ok p =>
      rw [hp] at h
      simp only at h
      cases hir : typecheck p with
      | error e =>
        rw [hir] at h
        cases h
        exact .typer ht hp hir
      | ok ir =>
        rw [hir] at h
        cases h

/-- A text with a blank after each lexeme goes through all stages as these lexemes do. -/
theorem compile_spaced {src : String} {kinds : List TokenKind} {p : Program} {ir : Ir}
    (h : ∀ k ∈ kinds, isSpelled k = true) (hsrc : src.toList = spaced kinds)
    (hp : parseProgram (spacedTokens kinds) = .ok p) (hir : typecheck p = .ok ir) :
    ∃ lines, compile src = .ok ⟨spacedTokens kinds, lines, p, ir⟩ := by
  obtain ⟨lines, ht⟩ := tokenize_spaced h hsrc
  exact ⟨lines, compile_of_stages ht hp hir⟩

/-- A text with a blank after each lexeme violates the rule that these lexemes do. -/
theorem compile_spaced_error {src : String} {kinds : List TokenKind} {p : Program} {e : Located TypeError}
    (h : ∀ k ∈ kinds, isSpelled k = true) (hsrc : src.toList = spaced kinds)
    (hp : parseProgram (spacedTokens kinds) = .ok p) (he : typecheck p = .error e) :
    ∃ rendered, compile src = .error ⟨.type e, rendered⟩ := by
  obtain ⟨lines, ht⟩ := tokenize_spaced h hsrc
  have hfails : compile src = .error (.of lines (.type e)) := by
    rw [compile_eq ht, hp]
    simp only [he]
  exact ⟨_, hfails⟩

/-- A text that compiles has a readable program. -/
theorem readable_of_compile {src : String} {c : Compilation} (h : compile src = .ok c) : c.program.Readable := by
  obtain ⟨⟨t, ht, hparse⟩, -⟩ := compile_eq_ok h
  obtain ⟨q, hp⟩ := Parse.parseProgram_eq_ok.1 hparse
  have hsound : (Parse.Position.start t.tokens).Sound := spelled_of_tokenize ht
  exact (Descent.program_gives _ hsound rfl _ q hp).2.2

end Scriptlet
