import Scriptlet.Proofs.Environment.Equivalence
import Scriptlet.Proofs.Grammar.Equivalence
import Scriptlet.Proofs.Lexical.Lines
import Scriptlet.Proofs.Readable.Source
import Scriptlet.Proofs.Spans.Check
import Scriptlet.Proofs.Spans.Parsed

/-!
# Every diagnostic points into its source

`compile_points`: the error of a text has a place in it, which for a syntax error is a token and for a violated rule
some tokens, and the lines by which the place is shown are those of the text.
-/

namespace Scriptlet

open Lexical

/-- The span is not empty, starts where a token starts and ends where a token ends. -/
structure Span.Joins (ts : List Token) (s : Span) : Prop where
  lt : s.lo < s.hi
  first : ∃ t ∈ ts, s.lo = t.span.lo
  last : ∃ t ∈ ts, s.hi = t.span.hi

private theorem Span.Covers.joins {ts : List Token} {s : Span} {i j : Nat} (h : s.Covers ts i j)
    (hts : Consecutive ts) : s.Joins ts := by
  obtain ⟨t, ht, hlo⟩ := h.first
  obtain ⟨u, hu, hhi⟩ := h.last
  exact ⟨h.lo_lt_hi hts, ⟨t, List.mem_of_getElem? ht, hlo⟩, ⟨u, List.mem_of_getElem? hu, hhi⟩⟩

/-- The place of an error by the tokens of the text.  A syntax error is at a token, or after the last one; a violated
rule is over some tokens, and so are the declarations named with it, which come before. -/
def CompileError.PointsInto (src : String) : CompileError → Prop
  | lex _ => True
  | parse e => ∃ t, tokenize src = .ok t ∧
    ((∃ u ∈ t.tokens, e.span = u.span) ∨ e.span = .empty ((t.tokens.getLast?.map fun u => u.span.hi).getD 0))
  | type e => ∃ t, tokenize src = .ok t ∧ e.span.Joins t.tokens ∧
    ∀ s ∈ e.value.places, s.Joins t.tokens ∧ s.hi ≤ e.span.lo

section Stages

variable {src : String} {t : Tokenized}

/-- A syntax error is at a token, or after the last one. -/
private theorem pointsInto_of_parse {e : Located ParseError} (hlen : src.length ≤ Span.maxLength)
    (ht : tokenize src = .ok t) (he : parseProgram t.tokens = .error e) :
    e.span.hi ≤ src.length ∧ (CompileError.parse e).PointsInto src := by
  have hplaced := placed_of_tokenize hlen ht
  obtain ⟨n, -, -, ⟨u, hu, hspan⟩ | ⟨-, ⟨u, hu, hspan⟩, -⟩, -⟩ := Parse.standsAt_of_error he
  · have hmem := List.mem_of_getElem? hu
    exact ⟨hspan ▸ (hplaced.1 u hmem).2.1, t, ht, .inl ⟨u, hmem, hspan⟩⟩
  · refine ⟨?_, t, ht, .inr ?_⟩
    · rw [hspan, Span.hi_empty]
      exact (hplaced.1 u (List.mem_of_getLast? hu)).2.1
    · rw [hspan, hu]
      rfl

/-- A violated rule is over some tokens. -/
private theorem pointsInto_of_typecheck {p : Program} {e : Located TypeError} (hlen : src.length ≤ Span.maxLength)
    (ht : tokenize src = .ok t) (hp : parseProgram t.tokens = .ok p) (he : typecheck p = .error e) :
    e.span.hi ≤ src.length ∧ (CompileError.type e).PointsInto src := by
  have hplaced := placed_of_tokenize hlen ht
  have hts := consecutive_of_placed hlen hplaced
  obtain ⟨i, j, hs, hplaces⟩ := Env.check_points hts (parseProgram_spans hts hp) (check_of_typecheck_error he)
  have hjoins := hs.joins hts
  refine ⟨?_, t, ht, hjoins, fun s hmem => ?_⟩
  · obtain ⟨u, hu, hhi⟩ := hjoins.last
    exact hhi ▸ (hplaced.1 u hu).2.1
  · obtain ⟨k, l, hcovers, hle⟩ := hplaces s hmem
    exact ⟨hcovers.joins hts, hcovers.hi_le_lo hs hts hle⟩

end Stages

/-- Every diagnostic is shown with the lines of its text, which are those that the lexer finds; and where spans can
measure the text, it points into it. -/
theorem compile_points {src : String} {f : Failure} (h : compile src = .error f) :
    (∀ t, tokenize src = .ok t → t.lines = .of src) ∧ f.rendered = f.error.full (.of src) ∧
      (src.length ≤ Span.maxLength → f.error.span.lo ≤ f.error.span.hi ∧ f.error.span.hi ≤ src.length ∧
        f.error.PointsInto src) := by
  refine ⟨fun t => lines_of_tokenize, ?_⟩
  cases failsIn_of_compile h with
  | lexer he => exact ⟨rfl, fun _ => ⟨Nat.le_add_right _ _, hi_of_tokenize_error he, trivial⟩⟩
  | parser ht he =>
    refine ⟨?_, fun hlen => ⟨Nat.le_add_right _ _, pointsInto_of_parse hlen ht he⟩⟩
    rw [lines_of_tokenize ht]
    rfl
  | typer ht hp he =>
    refine ⟨?_, fun hlen => ⟨Nat.le_add_right _ _, pointsInto_of_typecheck hlen ht hp he⟩⟩
    rw [lines_of_tokenize ht]
    rfl

/-- `let x = 1 ; func f ( ) { x = 2 ; } `, by its tokens. -/
private def reassigned : List TokenKind :=
  [.keyword .letKw, .identifier "x", .symbol .assign, .intLiteral "1", .symbol .semicolon, .keyword .funcKw,
    .identifier "f", .symbol .lparen, .symbol .rparen, .symbol .lbrace, .identifier "x", .symbol .assign,
    .intLiteral "2", .symbol .semicolon, .symbol .rbrace]

/-- The assignment is shown at its place, with that of the declaration before it. -/
theorem reassigned_points : ∃ f, compile "let x = 1 ; func f ( ) { x = 2 ; } " = .error f ∧
    f.error = .type ⟨⟨25, 7⟩, .immutableAssignment "x" ⟨0, 11⟩⟩ ∧
    f.rendered = f.error.full (.of "let x = 1 ; func f ( ) { x = 2 ; } ") ∧
    f.error.PointsInto "let x = 1 ; func f ( ) { x = 2 ; } " := by
  have hspelled : ∀ k ∈ reassigned, isSpelled k = true := by decide
  have hsrc : "let x = 1 ; func f ( ) { x = 2 ; } ".toList = spaced reassigned := rfl
  have hfails : ∃ p, parseProgram (spacedTokens reassigned) = .ok p ∧
      typecheck p = .error ⟨⟨25, 7⟩, .immutableAssignment "x" ⟨0, 11⟩⟩ := ⟨_, rfl, rfl⟩
  obtain ⟨p, hp, he⟩ := hfails
  obtain ⟨rendered, h⟩ := compile_spaced_error hspelled hsrc hp he
  obtain ⟨-, hrendered, hpoints⟩ := compile_points h
  exact ⟨_, h, rfl, hrendered, (hpoints (by decide)).2.2⟩

end Scriptlet
