import Scriptlet.Proofs.Lexical.Scanning

/-!
# The lexer cuts texts

`tokenize_iff_isCut`: a text is tokenized just when it can be cut into segments, which is possible in one way only, and
the tokens are those of the cut, with the kinds, the texts and the places of its lexemes.
-/

namespace Scriptlet

open Lexical

namespace Scan

variable {src : String} {before ahead : List Char} {tokens : List Token} {s : Scan}

/-! ### The end of the text -/

/-- At the end of the text there is nothing left to scan but a line break that closed it. -/
private theorem run_nil (hs : Between src before [] tokens s) (fuel : Nat) :
    ∃ s', run src (fuel + 1) s = .ok s' ∧ s'.next? = none ∧ s'.tokens.toList = tokens := by
  have hrun {t : Scan} (hnext : t.next? = none) (n : Nat) : run src n t = .ok t := by
    cases n with
    | zero => rfl
    | succ n => simp [run, hnext]
  cases hnext : s.next? with
  | none => exact ⟨s, hrun hnext _, hnext, hs.within.tokens_eq⟩
  | some gt =>
    obtain ⟨u, hstep, hend, hu⟩ := step_closed hs hnext
    exact ⟨u, (run_of_step hnext hstep fuel).trans (hrun hend fuel), hend, hu.within.tokens_eq⟩

/-! ### The whole text -/

/-- A text that is cut into segments is scanned to its end, and their tokens are kept. -/
theorem run_of_isCut {gs : List Segment} (h : IsCut ahead gs) (fuel : Nat)
    (hs : Between src before ahead tokens s) (hfuel : 2 * ahead.length + 1 ≤ fuel) :
    ∃ s', run src fuel s = .ok s' ∧ s'.next? = none ∧
      s'.tokens.toList = tokens ++ (tokensFrom before.length gs).map Token.cut := by
  induction h generalizing s before tokens fuel with
  | nil =>
    obtain ⟨fuel, rfl⟩ : ∃ n, fuel = n + 1 := ⟨fuel - 1, by omega⟩
    simpa [tokensFrom] using run_nil hs fuel
  | @cons g rest gs hg _ ih =>
    have hne : g.text ++ rest = [] → s.state ≠ .initial := fun h =>
      absurd (List.append_eq_nil_iff.1 h).1 hg.text_ne_nil
    obtain ⟨k, s', hk, hrun, hs'⟩ := run_segment hg hs.within hne (by rw [hs.state_eq]; exact munch_of_isSegment hg)
    have hpos := List.length_pos_iff.2 hg.text_ne_nil
    rw [List.length_append] at hfuel
    simp only [List.length_nil] at hk
    obtain ⟨fuel, rfl⟩ : ∃ n, fuel = n + k := ⟨fuel - k, by omega⟩
    obtain ⟨s'', hrun', hend, htokens⟩ := ih fuel hs' (by omega)
    refine ⟨s'', by rw [hrun, hrun'], hend, ?_⟩
    rw [htokens, List.append_assoc, List.length_append, tokensFrom, List.map_append]

/-- What is scanned to its end is cut into segments. -/
theorem isCut_of_run {before ahead : List Char} {tokens : List Token} {s s' : Scan} {fuel : Nat}
    (hs : Between src before ahead tokens s) (hfuel : 2 * ahead.length + 1 ≤ fuel) (hrun : run src fuel s = .ok s') :
    ∃ gs, IsCut ahead gs := by
  by_cases hahead : ahead = []
  · exact ⟨[], hahead ▸ .nil⟩
  have hne : ahead = [] → s.state ≠ .initial := fun h => absurd h hahead
  have hread : Reading s.state [] := hs.state_eq ▸ .initial
  obtain ⟨htext, ⟨g, hg, hend, hseg⟩ | hfail⟩ := munch_spec hread hne rfl
  · -- the segment is scanned, and what comes after it is shorter
    rw [List.nil_append, ← hg] at htext
    obtain ⟨k, t, hk, hrun', ht⟩ := run_segment hseg hs.within hne (by rw [hg, hend])
    have hpos := List.length_pos_iff.2 hseg.text_ne_nil
    have hlength := congrArg List.length htext
    rw [List.length_append] at hlength
    simp only [List.length_nil] at hk
    obtain ⟨fuel, rfl⟩ : ∃ n, fuel = n + k := ⟨fuel - k, by omega⟩
    rw [hrun'] at hrun
    have hshorter : (munch s.state [] ahead).rest.length < ahead.length := by omega
    obtain ⟨gs, hgs⟩ := isCut_of_run ht (by omega) hrun
    exact ⟨g :: gs, htext ▸ .cons hseg hgs⟩
  · obtain ⟨kind, hkind⟩ := Option.isSome_iff_exists.1 hfail
    obtain ⟨k, hk, hrun'⟩ := run_failure hs.within hne rfl hkind
    have hlength := congrArg List.length htext
    rw [List.nil_append, List.length_append] at hlength
    have hpos := List.length_pos_iff.2 hahead
    simp only [List.length_nil] at hk
    obtain ⟨fuel, rfl⟩ : ∃ n, fuel = n + k := ⟨fuel - k, by omega⟩
    rw [hrun'] at hrun
    cases hrun
termination_by ahead.length

end Scan

namespace Lexical

/-! ### Places -/

/-- The tokens stand in the source one after the other, each over its lexeme. -/
def Placed (src : String) (tokens : List Token) : Prop :=
  (∀ t ∈ tokens, 0 < t.span.len ∧ t.span.hi ≤ src.length ∧ IsLexeme t.kind (t.span.substr src).toList) ∧
    tokens.Pairwise fun t u => t.span.hi ≤ u.span.lo

/-- The token of a segment covers it. -/
private theorem tokens_spec {src : String} {before rest : List Char} {g : Segment} (hg : IsSegment g rest)
    (hsrc : src.toList = before ++ (g.text ++ rest)) {t : Token} (ht : t ∈ g.tokens before.length) :
    t.span.lo = before.length ∧ t.span.hi = before.length + g.text.length ∧ 0 < t.span.len ∧
      IsLexeme t.kind (t.span.substr src).toList := by
  have hpos := List.length_pos_iff.2 hg.text_ne_nil
  cases hg with
  | @lexeme kind text _ h _ =>
    obtain rfl := List.mem_singleton.1 ht
    refine ⟨rfl, rfl, hpos, ?_⟩
    have hsubstr : Span.substr ⟨before.length, text.length⟩ src = String.ofList text := by
      simp [Span.substr, hsrc, Segment.text]
    rw [hsubstr, String.toList_ofList]
    exact h
  | _ => cases ht

/-- Each lexeme of a cut lies in its token's span, and these follow one another. -/
theorem placed_tokensFrom {src : String} {before text : List Char} {gs : List Segment} (h : IsCut text gs)
    (hsrc : src.toList = before ++ text) :
    Placed src (tokensFrom before.length gs) ∧ ∀ t ∈ tokensFrom before.length gs, before.length ≤ t.span.lo := by
  induction h generalizing before with
  | nil => exact ⟨⟨by simp [tokensFrom], by simp [tokensFrom]⟩, by simp [tokensFrom]⟩
  | @cons g rest gs hg _ ih =>
    obtain ⟨⟨hplaced, hpairs⟩, hfrom⟩ := ih ((List.append_assoc _ _ _).symm ▸ hsrc)
    rw [List.length_append] at hplaced hpairs hfrom
    have htotal : before.length + (g.text.length + rest.length) = src.length := by
      rw [← String.length_toList, hsrc]
      simp
    refine ⟨⟨fun t ht => ?_, ?_⟩, fun t ht => ?_⟩
    · rcases List.mem_append.1 ht with ht | ht
      · obtain ⟨-, hhi, hpos, hlexeme⟩ := tokens_spec hg hsrc ht
        exact ⟨hpos, by omega, hlexeme⟩
      · exact hplaced t ht
    · have hmine : (g.tokens before.length).Pairwise fun t u => t.span.hi ≤ u.span.lo := by
        cases g <;> simp [Segment.tokens]
      refine List.pairwise_append.2 ⟨hmine, hpairs, fun t ht u hu => ?_⟩
      obtain ⟨-, hhi, -, -⟩ := tokens_spec hg hsrc ht
      rw [hhi]
      exact hfrom u hu
    · rcases List.mem_append.1 ht with ht | ht
      · exact Nat.le_of_eq (tokens_spec hg hsrc ht).1.symm
      · exact Nat.le_trans (Nat.le_add_right _ _) (hfrom t ht)

end Lexical

/-- Two turns for each character and one for the end are enough. -/
theorem fuel_suffices (src : String) : 2 * src.toList.length + 1 ≤ 2 * (src.length + 1) := by
  rw [String.length_toList]
  omega

/-- A text is tokenized if its scan comes to the end, with the tokens and lines found on the way. -/
theorem tokenize_eq_ok {src : String} {t : Tokenized} : tokenize src = .ok t ↔
    ∃ s, Scan.run src (2 * (src.length + 1)) (.start src) = .ok s ∧ t = ⟨s.tokens.toList, s.lines⟩ := by
  unfold tokenize
  cases Scan.run src (2 * (src.length + 1)) (.start src) with
  | ok s => exact ⟨fun h => ⟨s, rfl, (Except.ok.inj h).symm⟩, by rintro ⟨_, ⟨⟩, rfl⟩; rfl⟩
  | error e => exact ⟨nofun, nofun⟩

/-- The error of a text is the one that its scan stops with. -/
theorem tokenize_eq_error {src : String} {e : Located LexError} :
    tokenize src = .error e ↔ Scan.run src (2 * (src.length + 1)) (.start src) = .error e := by
  unfold tokenize
  cases Scan.run src (2 * (src.length + 1)) (.start src) with
  | ok s => exact ⟨nofun, nofun⟩
  | error e' => exact ⟨fun h => congrArg _ (Except.error.inj h), fun h => congrArg _ (Except.error.inj h)⟩

/-- A text that is cut into segments is tokenized by them. -/
theorem tokenize_of_isCut {src : String} {gs : List Segment} (h : IsCut src.toList gs) :
    ∃ lines, tokenize src = .ok ⟨(tokensFrom 0 gs).map Token.cut, lines⟩ := by
  obtain ⟨s, hrun, -, htokens⟩ := Scan.run_of_isCut h _ (Scan.between_start src) (fuel_suffices src)
  have htokens : s.tokens.toList = (tokensFrom 0 gs).map Token.cut := htokens
  exact ⟨s.lines, tokenize_eq_ok.2 ⟨s, hrun, by rw [htokens]⟩⟩

/-- Whatever its length, a text that is tokenized is cut into segments, whose tokens are cut at the greatest length. -/
theorem isCut_of_tokenize {src : String} {t : Tokenized} (ht : tokenize src = .ok t) :
    ∃ gs, IsCut src.toList gs ∧ t.tokens = (tokensFrom 0 gs).map Token.cut := by
  obtain ⟨s, hrun, -⟩ := tokenize_eq_ok.1 ht
  obtain ⟨gs, hgs⟩ := Scan.isCut_of_run (Scan.between_start src) (fuel_suffices src) hrun
  obtain ⟨lines, hok⟩ := tokenize_of_isCut hgs
  rw [hok] at ht
  cases ht
  exact ⟨gs, hgs, rfl⟩

/-- No token is longer than the text. -/
private theorem map_cut_of_placed {src : String} {tokens : List Token} (hlen : src.length ≤ Span.maxLength)
    (h : Placed src tokens) : tokens.map Token.cut = tokens := by
  refine (List.map_congr_left fun t ht => Token.cut_eq ?_).trans (List.map_id _)
  have hhi := (h.1 t ht).2.1
  unfold Span.hi at hhi
  omega

/-- The tokens of a text that spans can measure stand in it one after the other. -/
theorem placed_of_tokenize {src : String} {t : Tokenized} (hlen : src.length ≤ Span.maxLength)
    (ht : tokenize src = .ok t) : Placed src t.tokens := by
  obtain ⟨gs, hcut, htokens⟩ := isCut_of_tokenize ht
  obtain ⟨hplaced, -⟩ := @placed_tokensFrom src [] _ gs hcut rfl
  exact (htokens.trans (map_cut_of_placed hlen hplaced)).symm ▸ hplaced

/-- A text of characters that spans can count is tokenized if and only if it can be cut into segments.  The cut is
unique, and the tokens are those of its lexemes, each at its place. -/
theorem tokenize_iff_isCut {src : String} (hlen : src.length ≤ Span.maxLength) :
    ((∃ t, tokenize src = .ok t) ↔ ∃ gs, IsCut src.toList gs) ∧
      ∀ gs, IsCut src.toList gs → (∀ gs', IsCut src.toList gs' → gs' = gs) ∧
        (∃ lines, tokenize src = .ok ⟨tokensFrom 0 gs, lines⟩) ∧ Placed src (tokensFrom 0 gs) := by
  refine ⟨⟨?_, fun ⟨gs, h⟩ => ?_⟩, fun gs h => ?_⟩
  · rintro ⟨t, ht⟩
    obtain ⟨gs, hgs, -⟩ := isCut_of_tokenize ht
    exact ⟨gs, hgs⟩
  · obtain ⟨lines, ht⟩ := tokenize_of_isCut h
    exact ⟨_, ht⟩
  · obtain ⟨hplaced, -⟩ := @placed_tokensFrom src [] _ gs h rfl
    obtain ⟨lines, hok⟩ := tokenize_of_isCut h
    have hcut : (tokensFrom 0 gs).map Token.cut = tokensFrom 0 gs := map_cut_of_placed hlen hplaced
    rw [hcut] at hok
    exact ⟨fun gs' h' => h'.unique h, ⟨lines, hok⟩, hplaced⟩

/-- A word, a symbol and digits are cut apart without blanks between them. -/
theorem assignment_tokenized : "x=1".length ≤ Span.maxLength ∧ ∃ lines, tokenize "x=1" =
    .ok ⟨[⟨.identifier "x", ⟨0, 1⟩⟩, ⟨.symbol .assign, ⟨1, 1⟩⟩, ⟨.intLiteral "1", ⟨2, 1⟩⟩], lines⟩ := by
  have hword : IsSegment (.lexeme (.identifier "x") ['x']) ['=', '1'] := by
    refine .lexeme (.identifier ⟨'x', [], rfl, by decide, by simp⟩ ?_) ?_
    · rintro ⟨⟩ <;> decide
    · simp only [List.head?_cons, Option.mem_some_iff, forall_eq']
      exact (by decide : ¬ (IsLetter '=' ∨ IsDigit '='))
  have hsymbol : IsSegment (.lexeme (.symbol .assign) ['=']) ['1'] :=
    .lexeme (.symbol .assign) (by simp [EndsBefore])
  have hdigits : IsSegment (.lexeme (.intLiteral "1") ['1']) [] :=
    .lexeme (.int ⟨by simp, by simp [IsDigit]⟩) (by simp)
  have hcut : IsCut "x=1".toList [.lexeme (.identifier "x") ['x'], .lexeme (.symbol .assign) ['='],
      .lexeme (.intLiteral "1") ['1']] := .cons hword (.cons hsymbol (.cons hdigits .nil))
  exact ⟨by decide, ((tokenize_iff_isCut (by decide)).2 _ hcut).2.1⟩

end Scriptlet
