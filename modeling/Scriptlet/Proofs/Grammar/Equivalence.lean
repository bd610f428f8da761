import Scriptlet.Proofs.Grammar.Completeness
import Scriptlet.Proofs.Speculation.Equivalence

/-!
# The parser reads the grammar

`parseProgram_iff_isProgram`: a parse succeeds just with the tree that the grammar gives for the tokens, and the grammar
never gives two.  `parseProgram_error_first`: a parse that fails blames the first token that no program could have
there, so that the tokens before it can be completed to a program and those up to it cannot.
-/

namespace Scriptlet

open Grammar

namespace Parse

/-! ### Places in a token list -/

namespace Position

private theorem kinds_skip_start (tokens : List Token) (n : Nat) :
    ((start tokens).skip n).kinds = (tokens.map Token.kind).drop n := by
  unfold kinds
  rw [rest_skip, List.map_drop]
  rfl

private theorem expects_start {lim : Nat} {tokens : List Token} {w : Word}
    (h : (tokens.map Token.kind).take lim = w.take lim) : (start tokens).Expects lim (w ++ []) := by
  rw [List.append_nil]
  exact h

end Position

/-- The error stands at the token with the index `m`, or after the last token and says that there are no more. -/
def StandsAt (tokens : List Token) (m : Nat) (e : Located ParseError) : Prop :=
  (∃ t, tokens[m]? = some t ∧ e.span = t.span) ∨
    m = tokens.length ∧ (∃ t, tokens.getLast? = some t ∧ e.span = .empty t.span.hi) ∧ ∃ x, e.value = .unexpectedEof x

private theorem standsAt_of_blames {tokens : List Token} {m : Nat} {e : Located ParseError} (hm : m ≤ tokens.length)
    (hne : tokens ≠ []) (h : ((Position.start tokens).skip m).Blames e) : StandsAt tokens m e := by
  obtain ⟨hspan, heof⟩ := h
  have hrest : ((Position.start tokens).skip m).rest = tokens.drop m := Position.rest_skip _ _
  rcases Nat.lt_or_ge m tokens.length with hlt | hge
  · refine .inl ⟨tokens[m], List.getElem?_eq_getElem hlt, ?_⟩
    rw [hspan, Position.nextSpan, hrest, List.drop_eq_getElem_cons hlt]
  · obtain ⟨n, rfl⟩ : ∃ n, m = n + 1 := ⟨m - 1, by have := List.length_pos_iff.2 hne; omega⟩
    have hn : n < (Position.start tokens).rest.length := hm
    have hnil : tokens.drop (n + 1) = [] := List.drop_eq_nil_of_le hge
    refine .inr ⟨by omega, ⟨tokens[n], ?_, ?_⟩, heof (hrest.trans hnil)⟩
    · rw [List.getLast?_eq_getElem?, show tokens.length - 1 = n by omega]
      exact List.getElem?_eq_getElem hm
    · rw [hspan, Position.nextSpan, hrest, hnil]
      exact congrArg (fun s : Span => Span.empty s.hi) (Position.last_skip hn)

end Parse

namespace Grammar

/-- No word stands for two trees. -/
def Unambiguous {α : Type} (N : Word → α → Prop) : Prop := ∀ ⦃w : Word⦄ ⦃x y : α⦄, N w x → N w y → x = y

/-- The first `m` tokens of the word begin a program.  With the next one they do not, or there is none and they are
not a program. -/
def FirstOffending (w : Word) (m : Nat) : Prop :=
  Viable IsProgram (w.take m) ∧ if m < w.length then ¬ Viable IsProgram (w.take (m + 1)) else ∀ p, ¬ IsProgram w p

end Grammar

namespace Parse

open Descent

variable {tokens : List Token}

/-- A parse comes to what the descent comes to from the start, at a place within the tokens. -/
private theorem parseProgram_cases (tokens : List Token) : ∃ n ≤ tokens.length,
    (∃ p, program (depthFor tokens) (.start tokens) = .ok p ((Position.start tokens).skip n) ∧
      parseProgram tokens = .ok p) ∨
    ∃ e, program (depthFor tokens) (.start tokens) = .error (.error e) ((Position.start tokens).skip n) ∧
      parseProgram tokens = .error e := by
  have hreads : Reads 0 (.start tokens) (program (depthFor tokens)) := program_reads (Nat.lt_succ_self _)
  unfold Reads at hreads
  cases hparse : parseProgram tokens with
  | ok p =>
    obtain ⟨q, hp⟩ := parseProgram_eq_ok.1 hparse
    rw [hp] at hreads
    obtain ⟨n, -, hn, rfl⟩ := hreads
    exact ⟨n, hn, .inl ⟨p, hp, rfl⟩⟩
  | error e =>
    obtain ⟨q, he⟩ := parseProgram_eq_error.1 hparse
    rw [he] at hreads
    obtain ⟨n, -, hn, rfl⟩ := hreads
    exact ⟨n, hn, .inr ⟨e, he, rfl⟩⟩

/-- Items are read up to the end of the tokens. -/
theorem kinds_of_itemsToEnd {i : Descent Item} {fuel : Nat} {p q : Position} {is : List Item}
    (h : itemsToEnd i fuel p = .ok is q) : q.kinds = [] := by
  induction fuel generalizing p is with
  | zero => cases h
  | succ fuel ih =>
    unfold itemsToEnd at h
    rw [peekKind_bind] at h
    split at h
    · next hnone =>
      cases h
      simpa [Position.kind?_eq] using hnone
    · obtain ⟨x, q₁, -, h⟩ := exists_of_bind_ok h
      obtain ⟨xs, q₂, hxs, h⟩ := exists_of_bind_ok h
      cases h
      exact ih hxs

/-- The tokens of a program are a word of its tree. -/
theorem isProgram_of_ok {p : Program} (h : parseProgram tokens = .ok p) :
    IsProgram (tokens.map Token.kind) p.bare := by
  obtain ⟨n, -, ⟨p', hp, hparse⟩ | ⟨e, -, hparse⟩⟩ := parseProgram_cases tokens <;> rw [h] at hparse <;> cases hparse
  have hacc := (program_accepts (depthFor tokens)).acceptsAt (.start tokens)
  unfold AcceptsAt at hacc
  rw [hp] at hacc
  obtain ⟨w, hw, hprogram⟩ := hacc
  obtain ⟨_, _, _, hp⟩ := exists_of_bind_ok hp
  obtain ⟨is, q, his, hp⟩ := exists_of_bind_ok hp
  cases hp
  rw [kinds_of_itemsToEnd his, List.append_nil] at hw
  have hkinds : tokens.map Token.kind = w := hw
  rwa [hkinds]

section Agreement

variable {n lim : Nat} {w : Word} {p : Program}

private theorem index_of_stop (hn : n ≤ tokens.length) : ((Position.start tokens).skip n).index = n :=
  (Position.index_skip (show n ≤ (Position.start tokens).rest.length from hn)).trans (Nat.zero_add n)

/-- A program that agrees with the tokens before `lim` is read, if the descent does not get to `lim`. -/
private theorem le_or_eq_of_ok {q : Program} (hn : n ≤ tokens.length)
    (hq : program (depthFor tokens) (.start tokens) = .ok q ((Position.start tokens).skip n)) (hp : IsProgram w p)
    (hw : (tokens.map Token.kind).take lim = w.take lim) : lim ≤ n ∨ q.bare = p := by
  have htracks := program_tracks (depthFor tokens) hp (Position.expects_start hw) rfl
  unfold TracksAt at htracks
  rw [hq] at htracks
  simp only [index_of_stop hn] at htracks
  exact htracks.imp_right And.left

/-- Where the descent fails, no program agrees with the tokens any further. -/
private theorem le_of_error {e : Located ParseError} (hn : n ≤ tokens.length)
    (he : program (depthFor tokens) (.start tokens) = .error (.error e) ((Position.start tokens).skip n))
    (hp : IsProgram w p) (hw : (tokens.map Token.kind).take lim = w.take lim) : lim ≤ n := by
  have htracks := program_tracks (depthFor tokens) hp (Position.expects_start hw) rfl
  unfold TracksAt at htracks
  rw [he] at htracks
  simpa only [index_of_stop hn] using htracks

end Agreement

/-- A word of the grammar is parsed, as the tree that it stands for. -/
theorem ok_of_isProgram {p : Program} (h : IsProgram (tokens.map Token.kind) p) :
    ∃ q, parseProgram tokens = .ok q ∧ q.bare = p := by
  obtain ⟨n, hn, ⟨q, hq, hparse⟩ | ⟨e, he, -⟩⟩ := parseProgram_cases tokens
  · refine ⟨q, hparse, (le_or_eq_of_ok hn hq h rfl).resolve_left (Nat.not_le_of_lt (Nat.lt_succ_of_le hn))⟩
  · exact absurd (le_of_error hn he h rfl) (Nat.not_succ_le_self n)

private theorem unambiguous_isProgram : Unambiguous IsProgram := by
  intro w x y hx hy
  -- any tokens of these kinds are read as both
  have hkinds : (w.map fun k => (⟨k, .blank⟩ : Token)).map Token.kind = w := by simp [Function.comp_def]
  obtain ⟨q, hq, rfl⟩ := ok_of_isProgram (hkinds.symm ▸ hx)
  obtain ⟨q', hq', rfl⟩ := ok_of_isProgram (hkinds.symm ▸ hy)
  rw [hq] at hq'
  cases hq'
  rfl

/-- A parse gives the trees of the grammar, whatever their spans, and the grammar gives one for each word. -/
theorem parseProgram_iff_isProgram :
    (∀ (tokens : List Token) (p : Program),
      (∃ q, parseProgram tokens = .ok q ∧ q.bare = p.bare) ↔ IsProgram (tokens.map Token.kind) p.bare) ∧
    Unambiguous IsProgram := by
  refine ⟨fun tokens p => ⟨?_, ok_of_isProgram⟩, unambiguous_isProgram⟩
  rintro ⟨q, hq, hbare⟩
  exact hbare ▸ isProgram_of_ok hq

/-- A parse that fails has consumed the beginning of a program, and the error stands at the token after it. -/
theorem standsAt_of_error {tokens : List Token} {e : Located ParseError} (h : parseProgram tokens = .error e) :
    ∃ n ≤ tokens.length,
      program (depthFor tokens) (.start tokens) = .error (.error e) ((Position.start tokens).skip n) ∧
      StandsAt tokens n e ∧ Viable IsProgram ((tokens.map Token.kind).take n) := by
  obtain ⟨n, hn, ⟨p, -, hparse⟩ | ⟨e', he, hparse⟩⟩ := parseProgram_cases tokens <;> rw [h] at hparse <;> cases hparse
  have hacc := (program_accepts (depthFor tokens)).acceptsAt (.start tokens)
  unfold AcceptsAt at hacc
  rw [he] at hacc
  obtain ⟨w, hw, ⟨w', p, hp⟩, hblames⟩ := hacc
  have hne : tokens ≠ [] := by
    rintro rfl
    have hnil : IsProgram (([] : List Token).map Token.kind) ⟨[]⟩ := .nil
    obtain ⟨q, hq, -⟩ := ok_of_isProgram hnil
    rw [h] at hq
    cases hq
  refine ⟨n, hn, he, standsAt_of_blames hn hne hblames, w', p.bare, ?_⟩
  have htake : (tokens.map Token.kind).take n = w := by
    rw [Position.kinds_skip_start] at hw
    exact List.append_cancel_right ((List.take_append_drop n _).trans hw)
  rwa [htake]

/-- A parse that fails blames the first token that no program has there. -/
theorem parseProgram_error_first {tokens : List Token} {e : Located ParseError} (h : parseProgram tokens = .error e) :
    ∃ m ≤ tokens.length, StandsAt tokens m e ∧ FirstOffending (tokens.map Token.kind) m := by
  obtain ⟨n, hn, he, hstands, hviable⟩ := standsAt_of_error h
  refine ⟨n, hn, hstands, hviable, ?_⟩
  split
  · next hlt =>
    rintro ⟨w', p, hp⟩
    refine absurd (le_of_error hn he hp ?_) (Nat.not_succ_le_self n)
    rw [List.take_append_of_le_length (by rw [List.length_take]; omega), List.take_take, Nat.min_self]
  · exact fun p hp => absurd (le_of_error hn he hp rfl) (Nat.not_succ_le_self n)

/-- A declaration that ends before its value: `let x;` -/
def valueless : List Token := [⟨.keyword .letKw, ⟨0, 3⟩⟩, ⟨.identifier "x", ⟨4, 1⟩⟩, ⟨.symbol .semicolon, ⟨5, 1⟩⟩]

/-- The semicolon is the first token that no program has there. -/
theorem valueless_error_first :
    parseProgram valueless = .error ⟨⟨5, 1⟩, .unexpected (.symbol .semicolon) (.symbol .assign)⟩ ∧
      ∃ m ≤ valueless.length, StandsAt valueless m ⟨⟨5, 1⟩, .unexpected (.symbol .semicolon) (.symbol .assign)⟩ ∧
        FirstOffending (valueless.map Token.kind) m :=
  ⟨rfl, parseProgram_error_first rfl⟩

end Parse

end Scriptlet
