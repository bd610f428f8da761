import Scriptlet.Proofs.Grammar.Equivalence
import Scriptlet.Proofs.Lexical.Joined
import Scriptlet.Proofs.Mirror.Inverse
import Scriptlet.Proofs.Numerals.Uniform
import Scriptlet.Proofs.Numerals.Written

/-!
# Integer literals are exact

A literal counts by its value alone.  What it is read as where it is read is said in `Written`.  Here it stands among
the tokens of a whole program or expression: either it has no part in what comes of them, or what comes of them is made
of its value, and if this is no integer of 64 bits, it is the error (`ReadsExactly`).  A text that is a literal is an
expression of it (`tokenize_alone`, `parseExpr_tokens`).  In the representation an integer is its canonical decimal
(`Text.IsDecimal`), which reads back as this integer.

`integers_exact` puts these together.
-/

namespace Scriptlet

open Parse
open Grammar (Fits)
open Lexical

variable {α : Type}

/-! ### Whole token lists -/

namespace Descent

/-- What is said of the result of a reader.  No descent from the start runs out of rounds. -/
def report : EStateM.Result Stop Position α → Except (Located ParseError) α
  | .ok a _ => .ok a
  | .error (.error e) _ => .error e
  | .error .exhausted p => .error (p.unexpected .eof)

private theorem report_eq {r : Descent α} {tokens : List Token} {result : Except (Located ParseError) α}
    (h : r.run tokens = result.mapError Stop.error) :
    report (r (.start tokens)) = result ∧ ∀ p, r (.start tokens) ≠ .error .exhausted p := by
  unfold run at h
  generalize r (.start tokens) = R at h ⊢
  rcases result with e | a <;> rcases R with ⟨a', q⟩ | ⟨_ | _, q⟩ <;> cases h <;>
    exact ⟨rfl, fun p hp => by cases hp⟩

/-- A program is read up to the end of the tokens. -/
private theorem rest_of_program {depth : Nat} {p q : Position} {program : Program}
    (h : Descent.program depth p = .ok program q) : q.rest = [] := by
  obtain ⟨rounds, _, -, h⟩ := exists_of_bind_ok h
  obtain ⟨items, _, hitems, h⟩ := exists_of_bind_ok h
  cases h
  exact List.map_eq_nil_iff.1 (kinds_of_itemsToEnd hitems)

private theorem rest_of_wholeExpr {depth : Nat} {p q : Position} {e : Expr} (h : wholeExpr depth p = .ok e q) :
    q.rest = [] := by
  obtain ⟨e', q', -, h⟩ := exists_of_bind_ok h
  rw [peekKind_bind] at h
  split at h
  · next hnone =>
    cases h
    simpa [Position.kind?] using hnone
  · cases h

/-! ### A literal among the tokens -/

/-- What comes of a list does not depend on the digits of the literal, or it depends on the value of the literal,
together with the minus before it if that belongs to the literal.  The literal has no part in what comes of the list if
the error is at a token before it, or if there may be no literal. -/
def Gap.ReadsExactly (g : Gap) (parse : String → Except (Located ParseError) α) : Prop :=
  (∃ e, ∃ t ∈ g.before, e.span = t.span ∧ ∀ digits, parse digits = .error e) ∨
  (∃ x, ∀ digits, parse digits = .error ⟨g.span, .unexpected (.intLiteral digits) x⟩) ∨
  ∃ (minus : Option Span) (result : Int → Except (Located ParseError) α),
    (∀ span ∈ minus, g.before.getLast? = some ⟨.symbol .minus, span⟩) ∧
    ∀ digits, parse digits = (⟨minus, digits, g.span⟩ : Numeral).read >>= result

private theorem Gap.rest_ne_nil {g : Gap} {n : Nat} (hn : n ≤ g.before.length) (digits : String) :
    (g.place n digits).rest ≠ [] := by
  rcases Nat.lt_or_eq_of_le hn with hlt | rfl
  · rw [rest_of_lt digits hlt]
    exact List.cons_ne_nil _ _
  · rw [rest_at]
    exact List.cons_ne_nil _ _

private theorem report_taken (g : Gap) (n : Nat) (minus : Option Span) (f : Int → EStateM.Result Stop Position α)
    (digits : String) : report (g.taken n minus.isSome f digits) =
      (⟨minus, digits, g.span⟩ : Numeral).read >>= fun v => report (f v) := by
  rw [Numeral.read_eq, Gap.taken]
  cases Parser.intValue? minus.isSome digits <;> rfl

/-- Readers that see only the value read exactly, if they come to the end of the tokens or to an error. -/
private theorem Meets.readsExactly {g : Gap} {R : String → EStateM.Result Stop Position α} (h : Meets g R)
    (hend : ∀ digits a p, R digits = .ok a p → p.rest = [])
    (hstop : ∀ digits p, R digits ≠ .error .exhausted p) : g.ReadsExactly fun digits => report (R digits) := by
  cases h with
  | before hn a => exact absurd (hend "" a _ rfl) (Gap.rest_ne_nil hn "")
  | error ht he n => exact .inl ⟨_, _, ht, he, fun _ => rfl⟩
  | exhausted n => exact absurd rfl (hstop "" _)
  | unexpected x n => exact .inr (.inl ⟨x, fun _ => rfl⟩)
  | @value negative hsign f n =>
    have hminus : ∃ minus : Option Span, minus.isSome = negative ∧
        ∀ span ∈ minus, g.before.getLast? = some ⟨.symbol .minus, span⟩ := by
      cases negative with
      | false => exact ⟨none, rfl, fun _ h => by cases h⟩
      | true =>
        obtain ⟨⟨kind, span⟩, hlast, rfl⟩ := hsign rfl
        refine ⟨some span, rfl, ?_⟩
        rintro _ ⟨⟩
        exact hlast
    obtain ⟨minus, rfl, hlast⟩ := hminus
    exact .inr (.inr ⟨minus, fun v => report (f v), hlast, report_taken g n minus f⟩)

end Descent

namespace Parse

open Descent (Gap Uniform)

/-- An integer literal anywhere in the tokens counts by its value. -/
def ReadsExactly (parse : List Token → Except (Located ParseError) α) : Prop :=
  ∀ g : Gap, g.ReadsExactly fun digits => parse (g.fill digits)

private theorem readsExactly_of_uniform {parse : List Token → Except (Located ParseError) α} (r : Nat → Descent α)
    [hr : ∀ depth, Uniform (r depth)] (hend : ∀ depth p a q, r depth p = .ok a q → q.rest = [])
    (hparse : ∀ tokens, (r (depthFor tokens)).run tokens = (parse tokens).mapError Stop.error) :
    ReadsExactly parse := by
  intro g
  -- The depth depends on the number of tokens only.
  have hdepth (digits : String) : depthFor (g.fill digits) = depthFor (g.fill "") := by
    rw [depthFor, depthFor, g.length_fill, g.length_fill]
  have hrun (digits : String) := Descent.report_eq (hparse (g.fill digits))
  simp only [hdepth] at hrun
  have hmeets := ((hr (depthFor (g.fill ""))).meets g 0 (Nat.zero_le _)).readsExactly
    (fun digits a p => hend _ _ a p) fun digits => (hrun digits).2
  have hreport (digits : String) : Descent.report (r (depthFor (g.fill "")) (g.place 0 digits)) =
    parse (g.fill digits) := (hrun digits).1
  simpa only [hreport] using hmeets

private theorem parseProgram_readsExactly : ReadsExactly parseProgram :=
  readsExactly_of_uniform Descent.program (fun _ _ _ _ => Descent.rest_of_program) parseProgram_eq_descent

private theorem parseExpr_readsExactly : ReadsExactly parseExpr :=
  readsExactly_of_uniform Descent.wholeExpr (fun _ _ _ _ => Descent.rest_of_wholeExpr) parseExpr_eq_descent

end Parse

/-! ### A literal alone -/

namespace Descent

section End

variable {operand : Descent Expr} {p : Position}

/-- What follows after the last token makes no difference if it keeps the value there. -/
private theorem bind_of_end {f : Expr → Descent Expr} (h : ∀ e q, operand p = .ok e q → q.rest = [])
    (hf : ∀ e index last, f e ⟨[], index, last⟩ = .ok e ⟨[], index, last⟩) : (operand >>= f) p = operand p := by
  rw [bind_eq_goOn]
  cases hr : operand p with
  | error e q => rfl
  | ok e q =>
    have hrest := h e q hr
    obtain ⟨_, index, last⟩ := q
    obtain rfl : _ = _ := hrest
    exact hf e index last

private theorem leftAssoc_of_end {ops : Scriptlet.Parser.Level} (h : ∀ e q, operand p = .ok e q → q.rest = []) :
    leftAssoc ops operand p = operand p :=
  bind_of_end h fun _ _ _ => rfl

private theorem power_of_end {inner : Descent Expr} (h : ∀ e q, unary inner p = .ok e q → q.rest = []) :
    power inner p = unary inner p := by
  have hround : power inner p = (unary inner >>= fun lhs => take (.symbol .starStar) >>= fun found =>
    if found then powerFrom (unary inner) p.rest.length >>= fun rhs => pure (.combine .pow lhs rhs) else pure lhs) p :=
    rfl
  rw [hround]
  exact bind_of_end h fun _ _ _ => rfl

/-- A unary expression that ends with the tokens is a whole one. -/
private theorem wholeExpr_of_end {depth : Nat} (h : ∀ e q, unary (expr depth) p = .ok e q → q.rest = []) :
    wholeExpr (depth + 1) p = unary (expr depth) p := by
  have hpower := power_of_end h
  have hproduct : product (expr depth) p = power (expr depth) p := leftAssoc_of_end (by rwa [hpower])
  have hsum : sum (expr depth) p = product (expr depth) p := leftAssoc_of_end (by rwa [hproduct, hpower])
  have hrelation : relation (expr depth) p = sum (expr depth) p :=
    leftAssoc_of_end (by rwa [hsum, hproduct, hpower])
  have hlogic : expr (depth + 1) p = relation (expr depth) p :=
    leftAssoc_of_end (by rwa [hrelation, hsum, hproduct, hpower])
  have hexpr : expr (depth + 1) p = unary (expr depth) p := by rw [hlogic, hrelation, hsum, hproduct, hpower]
  rw [← hexpr]
  exact bind_of_end (by rwa [hexpr]) fun _ _ _ => rfl

end End

private theorem unary_numeral (inner : Descent Expr) (n : Numeral) : ∃ p, unary inner (.start n.tokens) =
    match Parser.intValue? false n.digits with
    | some v => .ok (n.expr v) ⟨[], n.tokens.length, n.span⟩
    | none => .error (.error ⟨n.span, .literalOutOfRange n.digits⟩) p := by
  obtain ⟨minus, digits, span⟩ := n
  cases minus with
  | none =>
    refine ⟨.start [⟨.intLiteral digits, span⟩], ?_⟩
    change (intValue false digits >>= fun v => literal (.int v)) _ = _
    unfold intValue
    cases Parser.intValue? false digits <;> rfl
  | some minus =>
    refine ⟨⟨[⟨.intLiteral digits, span⟩], 1, minus⟩, ?_⟩
    change ((intValue false digits >>= fun v => literal (.int v)) >>= fun e =>
      pure (Expr.unary .minus e (minus.through e.span))) _ = _
    unfold intValue
    cases Parser.intValue? false digits <;> rfl

end Descent

/-- A literal that is the whole expression. -/
theorem parseExpr_tokens (n : Numeral) : parseExpr n.tokens = (do
    let v ← n.unsigned.read
    return n.expr v) := by
  obtain ⟨p, hunary⟩ := Descent.unary_numeral (Descent.expr n.tokens.length) n
  have hread := n.unsigned.read_eq
  change n.unsigned.read = match Parser.intValue? false n.digits with
    | some v => .ok v
    | none => .error ⟨n.span, .literalOutOfRange n.digits⟩ at hread
  have hwhole : Descent.wholeExpr (depthFor n.tokens) (.start n.tokens) =
      Descent.unary (Descent.expr n.tokens.length) (.start n.tokens) := by
    refine Descent.wholeExpr_of_end fun e q h => ?_
    rw [hunary] at h
    split at h <;> cases h
    rfl
  rw [← (Descent.report_eq (parseExpr_eq_descent n.tokens)).1, hwhole, hunary, hread]
  cases Parser.intValue? false n.digits <;> rfl

/-- The literal in a text of its own. -/
def Numeral.alone (negative : Bool) (digits : String) : Numeral :=
  if negative then ⟨some (.ofBounds 0 1), digits, .ofBounds 1 (1 + digits.length)⟩
  else ⟨none, digits, .ofBounds 0 digits.length⟩

/-- This text. -/
def Numeral.text (n : Numeral) : String := if n.minus.isSome then "-" ++ n.digits else n.digits

/-- The tokens of the text, which may be longer than any span. -/
theorem tokenize_alone (negative : Bool) {digits : String} (h : Lexical.IsDigits digits.toList) :
    ∃ lines, tokenize (Numeral.alone negative digits).text = .ok ⟨(Numeral.alone negative digits).tokens, lines⟩ := by
  have hdigits : Lexical.IsSegment (.lexeme (.intLiteral digits) digits.toList) [] := by
    have hlexeme := Lexical.IsLexeme.int h
    rw [String.ofList_toList] at hlexeme
    exact .lexeme hlexeme fun c hc => by cases hc
  have hcut := Lexical.IsCut.cons hdigits .nil
  rw [List.append_nil] at hcut
  cases negative with
  | false =>
    obtain ⟨lines, htokens⟩ := tokenize_of_isCut hcut
    refine ⟨lines, ?_⟩
    rw [show (Numeral.alone false digits).text = digits from rfl, htokens]
    simp [Numeral.alone, Numeral.tokens, tokensFrom, Segment.tokens, Token.cut, Span.hi, String.length_toList]
  | true =>
    have hminus : Lexical.IsSegment (.lexeme (.symbol .minus) ['-']) digits.toList := by
      refine .lexeme (.symbol .minus) fun c hc hgreater => ?_
      have hdigit := h.2 c (List.mem_of_mem_head? hc)
      rw [hgreater] at hdigit
      exact absurd hdigit (by decide)
    have htext : (Numeral.alone true digits).text.toList = ['-'] ++ digits.toList := by
      simp [Numeral.alone, Numeral.text]
    have hboth : Lexical.IsCut (Numeral.alone true digits).text.toList
        [.lexeme (.symbol .minus) ['-'], .lexeme (.intLiteral digits) digits.toList] := by
      rw [htext]
      exact .cons hminus hcut
    obtain ⟨lines, htokens⟩ := tokenize_of_isCut hboth
    refine ⟨lines, ?_⟩
    rw [htokens]
    simp [Numeral.alone, Numeral.tokens, tokensFrom, Segment.tokens, Segment.text, Token.cut, Span.hi,
      String.length_toList]

/-! ### The representation -/

/-- The argument is this integer, as its canonical decimal. -/
def Var.IsInteger (v : Var) (n : Int) : Prop :=
  ∃ (text : String) (span : Span), Text.IsDecimal n text ∧ v = .mk (.atom .int text) .int span false

private theorem Var.isInteger_ofLiteral (n : Int) (span : Span) : (Var.ofLiteral (.int n) span).IsInteger n :=
  ⟨_, span, Text.isDecimal_toString n, rfl⟩

private theorem Iterable.lower_range (ir : Ir) (scope : ScopeId) {first last step : Int} (span : Span) (h : step ≠ 0) :
    ∃ x y z : Var, (Iterable.range first last step span).lower ir scope =
        .ok (.apply OpName.iterRange [x, y, z], .int) ∧
      x.IsInteger first ∧ y.IsInteger last ∧ z.IsInteger step := by
  refine ⟨_, _, _, ?_, Var.isInteger_ofLiteral first span, Var.isInteger_ofLiteral last span,
    Var.isInteger_ofLiteral step span⟩
  rw [Iterable.lower, if_neg h]
  rfl

private theorem Comparator.lower_range {subject : Var} (lo hi : Int) (span : Span) (h : subject.ty = .int) :
    ∃ x y : Var, (Comparator.range lo hi span).lower subject = .ok (.apply OpName.caseIn [subject, x, y]) ∧
      x.IsInteger lo ∧ y.IsInteger hi := by
  refine ⟨_, _, ?_, Var.isInteger_ofLiteral lo span, Var.isInteger_ofLiteral hi span⟩
  rw [Comparator.lower, if_pos h]
  rfl

/-! ### Integers from the text to the representation -/

/-- An integer literal is exact. -/
theorem integers_exact :
    (∀ n : Int, Fits n ↔ -2 ^ 63 ≤ n ∧ n ≤ 2 ^ 63 - 1) ∧
    (∀ (inner : Parser Expr) (n : Numeral), (Parser.unary inner).ReadsAs n.tokens (do
      let v ← n.unsigned.read
      return n.expr v)) ∧
    (∀ n : Numeral, Parser.const.ReadsAs n.tokens (do
      let v ← n.read
      return ⟨.int v, n.extent⟩)) ∧
    (∀ (expr : Parser Expr) (first last step : Numeral) (range lparen comma comma' rparen : Span),
      (Parser.iterable expr).ReadsAs (Parser.forRangeTokens first last step range lparen comma comma' rparen) (do
        let a ← first.read
        let b ← last.read
        let c ← step.read
        return .range a b c (range.through rparen))) ∧
    (∀ (lo hi : Numeral) (range lparen comma rparen : Span),
      Parser.comparator.ReadsAs (Parser.caseRangeTokens lo hi range lparen comma rparen) (do
        let a ← lo.read
        let b ← hi.read
        return .range a b (range.through rparen))) ∧
    (∀ n : Numeral, parseExpr n.tokens = (do
      let v ← n.unsigned.read
      return n.expr v)) ∧
    (∀ (negative : Bool) (digits : String), IsDigits digits.toList → ∃ lines,
      tokenize (Numeral.alone negative digits).text = .ok ⟨(Numeral.alone negative digits).tokens, lines⟩) ∧
    ReadsExactly parseProgram ∧ ReadsExactly parseExpr ∧
    (∀ (ir : Ir) (scope : ScopeId) (n : Int) (span : Span), ∃ text : String, Text.IsDecimal n text ∧
      (Expr.literal (.int n) span).lower ir scope = .ok (.atom .int text, .int)) ∧
    (∀ (ir : Ir) (scope : ScopeId) (first last step : Int) (span : Span), step ≠ 0 → ∃ x y z : Var,
      (Iterable.range first last step span).lower ir scope = .ok (.apply OpName.iterRange [x, y, z], .int) ∧
      x.IsInteger first ∧ y.IsInteger last ∧ z.IsInteger step) ∧
    (∀ (n : Int) (span : Span), ∃ x : Var, (Const.mk (.int n) span).lower .int = .ok x ∧ x.IsInteger n) ∧
    (∀ (subject : Var) (lo hi : Int) (span : Span), subject.ty = .int → ∃ x y : Var,
      (Comparator.range lo hi span).lower subject = .ok (.apply OpName.caseIn [subject, x, y]) ∧
      x.IsInteger lo ∧ y.IsInteger hi) ∧
    (∀ (n : Int) (text : String), Text.IsDecimal n text → Text.integer text.toList = n) := by
  refine ⟨fun n => ?_, Parser.unary_readsAs, Parser.const_readsAs, Parser.iterable_readsAs, Parser.comparator_readsAs,
    parseExpr_tokens, fun negative _ => tokenize_alone negative, parseProgram_readsExactly, parseExpr_readsExactly,
    fun _ _ n _ => ⟨_, Text.isDecimal_toString n, rfl⟩, fun ir scope _ _ _ => Iterable.lower_range ir scope,
    fun n span => ⟨_, rfl, Var.isInteger_ofLiteral n span⟩, fun _ => Comparator.lower_range,
    fun _ _ => Text.IsDecimal.integer_eq⟩
  have hlimit : (Parser.intLimit : Int) = 2 ^ 63 := by decide
  rw [Fits, hlimit]
  omega

/-- The least integer is a constant, but no expression, as its digits are one too much without the minus. -/
theorem least_integer_exact :
    (∃ lines, tokenize "-9223372036854775808" = .ok ⟨(Numeral.alone true "9223372036854775808").tokens, lines⟩) ∧
    parseExpr (Numeral.alone true "9223372036854775808").tokens =
      .error ⟨⟨1, 19⟩, .literalOutOfRange "9223372036854775808"⟩ ∧
    Parser.const.ReadsAs (Numeral.alone true "9223372036854775808").tokens (.ok ⟨.int (-2 ^ 63), ⟨0, 20⟩⟩) := by
  obtain ⟨-, -, hconst, -, -, hexpr, htokens, -⟩ := integers_exact
  refine ⟨htokens true "9223372036854775808" (by simp [IsDigits, IsDigit]), ?_, ?_⟩
  · rw [hexpr]
    rfl
  · exact hconst _

end Scriptlet
