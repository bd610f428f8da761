import Scriptlet.Proofs.Grammar.Productions
import Scriptlet.Proofs.Grammar.Tracking

/-!
# Every word of the grammar is read

The converse of `Productions`: one lemma for each production of the descent, in the order of the grammar.  A word is
taken apart by the rules that derive it, and its first token is the one by which the reader chooses among them.
Operators of a level are the exception, since the reader meets them from left to right and the rules from right to
left: `leftAssoc_extends` goes through them by the nesting of the tree, and says what remains to be read after each.
The result for whole programs is `program_tracks`.
-/

namespace Scriptlet

/-! ### The ends of expressions -/

/-- The ranks are counted from the loosest. -/
def Rank.level : Rank → Nat
  | logic => 0
  | relation => 1
  | sum => 2
  | product => 3
  | power => 4
  | unary => 5
  | primary => 6

private theorem Rank.Left.level_lt {r r' : Rank} (h : r.Left r') : r.level < r'.level := by cases h <;> decide

private theorem Rank.Left.unique {r r₁ r₂ : Rank} (h₁ : r.Left r₁) (h₂ : r.Left r₂) : r₁ = r₂ := by
  cases h₁ <;> cases h₂ <;> rfl

private theorem BinaryOp.symbol_inj {op op' : BinaryOp} (h : op.symbol = op'.symbol) : op = op' := by
  cases op <;> cases op' <;> first | rfl | cases h

namespace Grammar

variable {r r' : Rank} {k : Option TokenKind}

/-- The token does not continue an expression of the rank. -/
def Ends (r : Rank) (k : Option TokenKind) : Prop :=
  k ≠ some (.symbol .lparen) ∧ ∀ op : BinaryOp, r.level ≤ op.rank.level → k ≠ some (.symbol op.symbol)

private theorem Ends.mono (h : Ends r k) (hr : r.level ≤ r'.level) : Ends r' k :=
  ⟨h.1, fun op hop => h.2 op (Nat.le_trans hr hop)⟩

/-- Looser operators end an expression. -/
private theorem ends_operator (op : BinaryOp) (h : op.rank.level < r.level) : Ends r (some (.symbol op.symbol)) := by
  refine ⟨by cases op <;> decide, fun op' hop' heq => ?_⟩
  injection heq with heq
  injection heq with heq
  rw [BinaryOp.symbol_inj heq] at h
  omega

private theorem ends_symbol {s : Symbol} (hs : s ≠ .lparen) (h : ∀ op : BinaryOp, s ≠ op.symbol) :
    Ends r (some (.symbol s)) :=
  ⟨by simpa using hs, fun op _ => by simpa using h op⟩

private theorem ends_rparen : Ends r (some (.symbol .rparen)) := ends_symbol (by decide) (by rintro ⟨⟩ <;> decide)

private theorem ends_comma : Ends r (some (.symbol .comma)) := ends_symbol (by decide) (by rintro ⟨⟩ <;> decide)

private theorem ends_semicolon : Ends r (some (.symbol .semicolon)) := ends_symbol (by decide) (by rintro ⟨⟩ <;> decide)

private theorem ends_lbrace : Ends r (some (.symbol .lbrace)) := ends_symbol (by decide) (by rintro ⟨⟩ <;> decide)

/-! ### The beginnings of words -/

/-- The tokens that expressions begin with. -/
def opensExpr : TokenKind → Bool
  | .intLiteral _ | .floatLiteral _ | .stringLiteral _ | .identifier _ => true
  | .keyword k => k == .trueKw || k == .falseKw || k == .inputKw
  | .symbol s => s == .lparen || s == .plus || s == .minus || s == .not
  | .malformed _ => false

/-- The tokens that parameters begin with. -/
def opensParam : TokenKind → Bool
  | .identifier _ => true
  | _ => false

/-- Every word of the relation begins with a token that `opens` allows. -/
def Opens {α : Type} (opens : TokenKind → Bool) (N : Word → α → Prop) : Prop :=
  ∀ ⦃w : Word⦄ ⦃y : α⦄, N w y → ∃ k w', w = k :: w' ∧ opens k = true

private theorem Derives.opens {r : Rank} {w : Word} {e : Expr} (h : Derives r w e) :
    ∃ k w', w = k :: w' ∧ opensExpr k = Bool.true := by
  match h with
  | .operand _ h | .base h | .primary h => exact h.opens
  | .left _ _ _ h _ | .pow h _ =>
    obtain ⟨k, w', rfl, hk⟩ := h.opens
    exact ⟨k, _, rfl, hk⟩
  | .signed op _ => exact ⟨_, _, rfl, by cases op <;> rfl⟩
  | .int _ | .double _ | .string _ | .name _ | .true | .false | .parens _ | .input _ | .call _ _ =>
    exact ⟨_, _, rfl, rfl⟩

private theorem opens_expr : Opens opensExpr IsExpr := fun _ _ => Derives.opens

/-- A constant is one token, which a minus may precede. -/
private theorem IsConst.shape {w : Word} {c : Const} (h : IsConst w c) : ∃ (negative : Bool) (k : TokenKind),
    w = (if negative then [.symbol .minus, k] else [k]) ∧ k ≠ .symbol .minus ∧ k ≠ .keyword .rangeKw := by
  cases h with
  | int h =>
    cases h with
    | plain _ => exact ⟨Bool.false, _, rfl, by simp, by simp⟩
    | negative _ => exact ⟨Bool.true, _, rfl, by simp, by simp⟩
  | negative _ => exact ⟨Bool.true, _, rfl, by simp, by simp⟩
  | _ => exact ⟨Bool.false, _, rfl, by simp, by simp⟩

private theorem IsBlock.head {w : Word} {b : Block} (h : IsBlock w b) : ∃ w', w = .symbol .lbrace :: w' := by
  cases h with
  | mk _ => exact ⟨_, rfl⟩

private theorem IsBlock.ends {w w' : Word} {b : Block} (h : IsBlock w b) : Ends r (w ++ w').head? := by
  obtain ⟨w', rfl⟩ := h.head
  exact ends_lbrace

private theorem IsIf.head {w : Word} {s : Stmt} (h : IsIf w s) : ∃ w', w = .keyword .ifKw :: w' := by
  cases h <;> exact ⟨_, rfl⟩

private theorem IsCase.head {w : Word} {c : Case} (h : IsCase w c) : ∃ k w', w = k :: w' ∧ k ≠ .symbol .rbrace := by
  cases h <;> exact ⟨_, _, rfl, by simp⟩

/-- No statement begins with what may come after a statement. -/
private theorem IsStmt.head {w : Word} {s : Stmt} (h : IsStmt w s) :
    ∃ k w', w = k :: w' ∧ k ≠ .symbol .rbrace ∧ k ≠ .keyword .elseKw := by
  cases h with
  | letDecl h | varDecl h =>
    cases h with
    | mk _ _ _ => exact ⟨_, _, rfl, by simp, by simp⟩
  | branch h =>
    obtain ⟨w', rfl⟩ := h.head
    exact ⟨_, _, rfl, by simp, by simp⟩
  | _ => exact ⟨_, _, rfl, by simp, by simp⟩

private theorem IsItem.head {w : Word} {i : Item} (h : IsItem w i) : ∃ k w', w = k :: w' := by
  cases h with
  | letDecl h =>
    cases h with
    | mk _ _ _ => exact ⟨_, _, rfl⟩
  | func _ _ _ _ => exact ⟨_, _, rfl⟩

end Grammar

namespace Descent

open Parse Grammar
open Scriptlet.Parser (Level unaryOp?)

/-! ### Lists -/

section Lists

variable {α β : Type} {Follow : Option TokenKind → Prop} {Item : Word → β → Prop} {g : α → β} {item : Descent α}
  [Forward item]

/-- The items are told from the closing parenthesis and from commas by their first tokens. -/
private theorem items_tracks {opens : TokenKind → Bool} (hi : Tracks Follow Item (g · = ·) item) (ho : Opens opens Item)
    (hrparen : opens (.symbol .rparen) = false) (hcomma : opens (.symbol .comma) = false)
    (hF : Follow (some (.symbol .rparen)) ∧ Follow (some (.symbol .comma))) (fuel : Nat) :
    Tracks (fun _ => True) (Listed Item) (fun xs ys => xs.map g = ys) (items item fuel) := by
  induction fuel with
  | zero => exact .exhausted
  | succ fuel ih =>
    intro lim w w' ys p hN hw _
    have hitem {w₁ w₂ : Word} {y : β} (hy : Item w₁ y) (hw : p.Expects lim (w₁ ++ w₂)) (hF : Follow w₂.head?)
        (hf : ∀ x q, g x = y → q.Expects lim w₂ →
          TracksAt lim (fun xs => xs.map g = ys) w'
            (separator >>= fun _ => items item fuel >>= fun xs => pure (x :: xs)) q) :
        TracksAt lim (fun xs => xs.map g = ys) w' (items item (fuel + 1)) p := by
      obtain ⟨k, w', rfl, hk⟩ := ho hy
      have hne : k ≠ .symbol .rparen ∧ k ≠ .symbol .comma := by
        constructor <;> rintro rfl <;> simp_all
      refine .take_false hw (by simpa using hne.1) (.of_lt fun hp => .peek hp hw ?_)
      rw [if_neg (by simpa using hne.2)]
      exact (hi hy hw hF).bind hf
    cases hN with
    | nil => exact .take_true hw fun q hq => .pure rfl hq
    | last hy =>
      rw [List.append_assoc] at hw
      refine hitem hy hw hF.1 fun x q hx hq => .separator_rparen hq ?_
      refine (ih .nil hq trivial).map fun xs hxs => ?_
      simp [hxs, hx]
    | cons hy hys =>
      rw [List.append_assoc] at hw
      refine hitem hy hw hF.2 fun x q hx hq => .separator_comma hq fun q' hq' => ?_
      refine (ih hys hq' trivial).map fun xs hxs => ?_
      simp [hxs, hx]

private theorem list_tracks {opens : TokenKind → Bool} (hi : Tracks Follow Item (g · = ·) item) (ho : Opens opens Item)
    (hrparen : opens (.symbol .rparen) = false) (hcomma : opens (.symbol .comma) = false)
    (hF : Follow (some (.symbol .rparen)) ∧ Follow (some (.symbol .comma))) {lim : Nat} {w w' : Word} {ys : List β}
    {p : Position} (h : Listed Item w ys) (hw : p.Expects lim (.symbol .lparen :: (w ++ w'))) :
    TracksAt lim (·.map g = ys) w' (list item) p :=
  .symbol hw fun _ _ hq => .rounds fun n => items_tracks hi ho hrparen hcomma hF n h hq trivial

end Lists

/-! ### Expressions -/

section Expressions

variable {r r' : Rank} {operand : Descent Expr} [Forward operand]

/-- An expression of a level is read up to the place where operators of the level may extend it. -/
private theorem leftAssoc_extends {r r' : Rank} {ops : Level} (hl : r.Left r') (hops : IsLevel ops r)
    (ho : Tracks (Ends r') (Derives r') (·.bare = ·) operand) {w : Word} {y : Expr} (h : Derives r w y)
    {lim : Nat} {w₁ w₂ : Word} {Good : Expr → Prop} {p : Position} (hw : p.Expects lim (w ++ w₁))
    (hF : Ends r' w₁.head?) (hfrom : ∀ n lhs q, lhs.bare = y → q.Expects lim w₁ →
      TracksAt lim Good w₂ (leftAssocFrom ops operand n lhs) q) :
    TracksAt lim Good w₂ (leftAssoc ops operand) p := by
  match h with
  | .operand hl' h =>
    cases hl.unique hl'
    exact (ho h hw hF).bind fun lhs q hlhs hq => .rounds fun n => hfrom n lhs q hlhs hq
  | .left op hl' hr hlhs hrhs =>
    cases hl.unique hl'
    rw [List.append_assoc] at hw
    refine leftAssoc_extends hl hops ho hlhs hw (ends_operator op (hr ▸ hl.level_lt)) fun n lhs q hlhs hq => ?_
    -- the operator and its right operand are what extends the left one
    cases n with
    | zero => exact .exhausted
    | succ n =>
      refine .of_lt fun hi => .peek hi hq ?_
      rw [List.cons_append, List.head?_cons, hops.op?_eq_some.2 ⟨rfl, hr⟩]
      refine .advance hq fun hq => (ho hrhs hq hF).bind fun rhs q' hrhs hq' => hfrom n _ q' ?_ hq'
      rw [Expr.bare_combine, hlhs, hrhs]
  | .base _ | .pow _ _ | .primary _ | .signed _ _ => cases hl
  | .int _ | .double _ | .string _ | .name _ | .true | .false | .parens _ | .input _ | .call _ _ => cases hl

private theorem leftAssoc_tracks {ops : Level} (hl : r.Left r') (hops : IsLevel ops r)
    (ho : Tracks (Ends r') (Derives r') (·.bare = ·) operand) :
    Tracks (Ends r) (Derives r) (·.bare = ·) (leftAssoc ops operand) := by
  intro lim w w' y p h hw hF
  refine leftAssoc_extends hl hops ho h hw (hF.mono (Nat.le_of_lt hl.level_lt)) fun n lhs q hlhs hq => ?_
  cases n with
  | zero => exact .exhausted
  | succ n =>
    refine .of_lt fun hi => .peek hi hq ?_
    have hnone : ops.op? w'.head? = none := by
      refine Option.eq_none_iff_forall_ne_some.2 fun op hop => ?_
      obtain ⟨hk, hr⟩ := hops.op?_eq_some.1 hop
      exact hF.2 op (Nat.le_of_eq (congrArg _ hr.symm)) hk
    rw [hnone]
    exact .pure hlhs hq

private theorem powerFrom_tracks (ho : Tracks (Ends .unary) (Derives .unary) (·.bare = ·) operand) (fuel : Nat) :
    Tracks (Ends .power) (Derives .power) (·.bare = ·) (powerFrom operand fuel) := by
  induction fuel with
  | zero => exact .exhausted
  | succ fuel ih =>
    intro lim w w' y p h hw hF
    cases h with
    | operand hl _ => cases hl
    | left _ hl _ _ _ => cases hl
    | base h =>
      refine (ho h hw (hF.mono (by decide))).bind fun lhs q hlhs hq => .take_false hq (hF.2 .pow (by decide)) ?_
      exact .pure hlhs hq
    | pow hlhs hrhs =>
      rw [List.append_assoc] at hw
      refine (ho hlhs hw (ends_operator .pow (by decide))).bind fun lhs q hlhs hq => .take_true hq fun q' hq' => ?_
      refine (ih hrhs hq' hF).map fun rhs hrhs => ?_
      simp only [Expr.bare_combine, hlhs, hrhs]

/-- No primary expression begins with a prefix operator. -/
private theorem unaryOp?_of_primary {w w' : Word} {e : Expr} (h : Derives .primary w e) :
    unaryOp? (w ++ w').head? = none := by
  cases h with
  | operand hl _ => cases hl
  | left _ hl _ _ _ => cases hl
  | _ => rfl

private theorem unaryFrom_tracks (ho : Tracks (Ends .primary) (Derives .primary) (·.bare = ·) operand)
    (fuel : Nat) : Tracks (Ends .unary) (Derives .unary) (·.bare = ·) (unaryFrom operand fuel) := by
  induction fuel with
  | zero => exact .exhausted
  | succ fuel ih =>
    intro lim w w' y p h hw hF
    refine .of_lt fun hi => .peek hi hw ?_
    cases h with
    | operand hl _ => cases hl
    | left _ hl _ _ _ => cases hl
    | primary h =>
      rw [unaryOp?_of_primary h]
      exact ho h hw (hF.mono (by decide))
    | signed op h =>
      rw [List.cons_append, List.head?_cons, unaryOp?_eq_some.2 rfl]
      refine .nextSpan fun start => .advance hw fun hq => (ih h hq hF).map fun e he => ?_
      simp only [Expr.bare, he]

variable {inner : Descent Expr} [Forward inner]

/-- The arguments of a call. -/
private theorem args_tracks (hi : Tracks (Ends .logic) IsExpr (·.bare = ·) inner) {lim : Nat} {w w' : Word}
    {ys : List Expr} {p : Position} (h : Listed IsExpr w ys) (hw : p.Expects lim (.symbol .lparen :: (w ++ w'))) :
    TracksAt lim (fun es => es.map Expr.bare = ys) w' (list inner) p :=
  list_tracks hi opens_expr rfl rfl ⟨ends_rparen, ends_comma⟩ h hw

private theorem literal_tracks {lim : Nat} {k : TokenKind} {w : Word} {p : Position} (v : Literal)
    (hw : p.Expects lim (k :: w)) : TracksAt lim (fun e => e.bare = .literal v .blank) w (literal v) p :=
  .nextSpan fun _ => .advance hw fun hq => .pure rfl hq

private theorem primary_tracks (hi : Tracks (Ends .logic) IsExpr (·.bare = ·) inner) :
    Tracks (Ends .primary) (Derives .primary) (·.bare = ·) (primary inner) := by
  intro lim w w' y p h hw hF
  refine .of_lt fun hp => .peek hp hw ?_
  cases h with
  | operand hl _ => cases hl
  | left _ hl _ _ _ => cases hl
  | int h =>
    simp only [List.cons_append, List.head?_cons, Descent.intValue, intValue?_eq_some.2 h]
    exact literal_tracks _ hw
  | double h =>
    simp only [List.cons_append, List.head?_cons, Descent.doubleValue, doubleValue?_eq_some.2 h]
    exact literal_tracks _ hw
  | string text => exact literal_tracks _ hw
  | true => exact literal_tracks _ hw
  | false => exact literal_tracks _ hw
  | parens h =>
    rw [List.cons_append, List.append_assoc] at hw
    refine .nextSpan fun _ => .advance hw fun hq => (hi h hq ends_rparen).bind fun e q he hq => ?_
    refine .symbol hq fun _ q hq => .pure ?_ hq
    simpa using he
  | input h =>
    refine .nextSpan fun _ => .advance hw fun hq => (args_tracks hi h hq).bind fun es q hes hq => ?_
    refine .lastSpan fun _ => .pure ?_ hq
    simp [Expr.bare, Ident.bare, Expr.bareList_eq, hes]
  | call f h =>
    refine .peekSecond hp hw fun k hk => ?_
    split
    · refine .ident hw fun i hi' hq => (args_tracks hi h hq).bind fun es q hes hq => ?_
      refine .lastSpan fun _ => .pure ?_ hq
      simp [Expr.bare, Ident.bare, Expr.bareList_eq, hes, hi']
    · next hne =>
      -- the token after the name has not been compared
      refine .ident hw fun i _ _ => .of_le ?_
      exact Nat.le_of_not_lt fun hlt => hne (by simpa using hk hlt)
  | name n =>
    refine .peekSecond hp hw fun k hk => ?_
    split
    · next heq =>
      refine .ident hw fun i _ _ => .of_le ?_
      exact Nat.le_of_not_lt fun hlt => hF.1 (by simpa [heq] using (hk hlt).symm)
    · refine .ident hw fun i hi' hq => .pure ?_ hq
      simp [Expr.bare, hi']

private theorem logic_tracks (hi : Tracks (Ends .logic) IsExpr (·.bare = ·) inner) :
    Tracks (Ends .logic) IsExpr (·.bare = ·) (logic inner) := by
  have hunary : Tracks (Ends .unary) (Derives .unary) (·.bare = ·) (unary inner) :=
    .rounds (unaryFrom_tracks (primary_tracks hi))
  have hpower : Tracks (Ends .power) (Derives .power) (·.bare = ·) (power inner) :=
    .rounds (powerFrom_tracks hunary)
  have hproduct := leftAssoc_tracks .product isLevel_product hpower
  have hsum := leftAssoc_tracks .sum isLevel_sum hproduct
  have hrelation := leftAssoc_tracks .relation isLevel_relation hsum
  exact leftAssoc_tracks .logic isLevel_logic hrelation

private theorem expr_tracks (depth : Nat) : Tracks (Ends .logic) IsExpr (·.bare = ·) (expr depth) := by
  induction depth with
  | zero => exact .exhausted
  | succ depth ih => exact logic_tracks ih

end Expressions

/-! ### Parts of statements -/

private theorem typeName_tracks {lim : Nat} {ty : Ty} {w : Word} {p : Position}
    (hw : p.Expects lim (.keyword ty.keyword :: w)) : TracksAt lim (·.ty = ty) w typeName p := by
  refine .of_lt fun hi => .peek hi hw ?_
  rw [List.head?_cons, typeOf?_eq_some.2 rfl]
  exact .nextSpan fun _ => .advance hw fun hq => .pure rfl hq

private theorem typeAfter_tracks (s : Symbol) :
    Tracks (· ≠ some (.symbol s)) (IsTypeAfter s) (fun t y => t.map TypeName.bare = y) (typeAfter s) := by
  intro lim w w' y p h hw hF
  cases h with
  | absent => exact .take_false hw hF (.pure rfl hw)
  | present ty =>
    refine .take_true hw fun q hq => (typeName_tracks hq).map fun t ht => ?_
    simp [TypeName.bare, ht]

private theorem param_tracks : Tracks (fun _ => True) IsParam (·.bare = ·) param := by
  intro lim w w' y p h hw _
  cases h with
  | mk n ty =>
    refine .ident hw fun i hi hq => .symbol hq fun _ q hq => (typeName_tracks hq).map fun t ht => ?_
    simp [Param.bare, Ident.bare, TypeName.bare, hi, ht]

private theorem intConst_tracks : Tracks (fun _ => True) IsIntConst (· = ·) intConst := by
  have hfrom {negative : Bool} {text : String} {n : Int} {lim : Nat} {w : Word} {p : Position}
      (hn : IsInt negative text n) (hw : p.Expects lim (.intLiteral text :: w)) :
      TracksAt lim (· = n) w (intConstFrom negative) p := by
    refine .of_lt fun hi => .peek hi hw ?_
    simp only [List.head?_cons, Descent.intValue, intValue?_eq_some.2 hn, pure_bind]
    exact .advance hw fun hq => .pure rfl hq
  intro lim w w' n p h hw _
  rw [intConst_eq]
  cases h with
  | plain hn => exact .take_false hw (by simp) (hfrom hn hw)
  | negative hn => exact .take_true hw fun q hq => hfrom hn hq

private theorem constValue_tracks {negative : Bool} {k : TokenKind} {c : Const} {lim : Nat} {w : Word} {p : Position}
    (h : IsConst (if negative then [.symbol .minus, k] else [k]) c) (hk : k ≠ .symbol .minus)
    (hw : p.Expects lim (k :: w)) : TracksAt lim (fun v => ⟨v, .blank⟩ = c) (k :: w) (constValue negative) p := by
  refine .of_lt fun hi => .peek hi hw ?_
  cases negative with
  | false =>
    cases h with
    | int h =>
      cases h with
      | plain hn =>
        simp only [List.head?_cons, Descent.intValue, intValue?_eq_some.2 hn, pure_bind]
        exact .pure rfl hw
    | double hx =>
      simp only [List.head?_cons, Descent.doubleValue, doubleValue?_eq_some.2 hx, pure_bind]
      exact .pure rfl hw
    | string text => exact .pure rfl hw
    | true => exact .pure rfl hw
    | false => exact .pure rfl hw
  | true =>
    cases h with
    | int h =>
      cases h with
      | negative hn =>
        simp only [List.head?_cons, Descent.intValue, intValue?_eq_some.2 hn, pure_bind]
        exact .pure rfl hw
    | negative hx =>
      simp only [List.head?_cons, Descent.doubleValue, doubleValue?_eq_some.2 hx, pure_bind]
      exact .pure rfl hw

private theorem const_tracks : Tracks (fun _ => True) IsConst (·.bare = ·) const := by
  refine .spanned fun lim w w' c p h hw _ => ?_
  obtain ⟨negative, k, rfl, hk, _⟩ := h.shape
  cases negative with
  | false =>
    refine .take_false hw (by simpa using hk) ((constValue_tracks h hk hw).bind fun v q hv hq => ?_)
    exact .advance hq fun hq => .pure (fun _ => hv) hq
  | true =>
    refine .take_true hw fun q hq => (constValue_tracks h hk hq).bind fun v q hv hq => ?_
    exact .advance hq fun hq => .pure (fun _ => hv) hq

private theorem constsFrom_tracks (fuel : Nat) : Tracks (· ≠ some (.symbol .comma)) (Repeated (AfterComma IsConst))
    (·.map Const.bare = ·) (constsFrom fuel) := by
  induction fuel with
  | zero => exact .exhausted
  | succ fuel ih =>
    intro lim w w' cs p h hw hF
    cases h with
    | nil => exact .take_false hw hF (.pure rfl hw)
    | cons hc hcs =>
      obtain ⟨w₁, rfl, hc⟩ := hc
      rw [List.append_assoc] at hw
      refine .take_true hw fun q hq => (const_tracks hc hq trivial).bind fun c q hc hq => ?_
      refine (ih hcs hq hF).map fun cs hcs => ?_
      simp only [List.map_cons, hc, hcs]

private theorem caseRange_tracks :
    Tracks (fun _ => True) (fun w c => ∃ lo hi, c = .range lo hi .blank ∧ IsComparator w c)
      (fun b y => ∀ s, (b s).bare = y) caseRange := by
  rintro lim w w' y p ⟨lo, hi, rfl, h⟩ hw _
  cases h with
  | range hlo hhi =>
    simp only [List.cons_append, List.append_assoc, List.nil_append] at hw
    refine .keyword hw fun _ q hq => .symbol hq fun _ q hq => ?_
    refine (intConst_tracks hlo hq trivial).bind fun lo q hlo hq => ?_
    refine .symbol hq fun _ q hq => (intConst_tracks hhi hq trivial).bind fun hi q hhi hq => ?_
    refine .symbol hq fun _ q hq => .pure (fun _ => ?_) hq
    simp only [Comparator.bare, hlo, hhi]

private theorem comparator_tracks : Tracks (· ≠ some (.symbol .comma)) IsComparator (·.bare = ·) comparator := by
  have hconsts {w w₁ w₂ : Word} {c : Const} {cs : List Const} {y : Comparator} {lim : Nat} {p : Position}
      (hc : IsConst w c) (hcs : Repeated (AfterComma IsConst) w₁ cs) (hw : p.Expects lim (w ++ (w₁ ++ w₂)))
      (hF : w₂.head? ≠ some (.symbol .comma))
      (hy : ∀ first others, first.bare = c → others.map Const.bare = cs → (comparatorOf first others).bare = y) :
      TracksAt lim (·.bare = y) w₂ comparator p := by
    obtain ⟨negative, k, hshape, -, hk⟩ := hc.shape
    refine .of_lt fun hi => ?_
    rw [comparator_eq]
    refine .peek hi hw ?_
    rw [if_neg (by cases negative <;> simp [hshape, hk])]
    refine (const_tracks hc hw trivial).bind fun first q hfirst hq => .rounds fun n => ?_
    exact (constsFrom_tracks n hcs hq hF).map fun others hothers => hy first others hfirst hothers
  intro lim w w' y p h hw hF
  cases h with
  | const hc =>
    refine hconsts hc .nil hw hF fun first others hfirst hothers => ?_
    rw [List.map_eq_nil_iff.1 hothers]
    simp only [comparatorOf, Comparator.bare, hfirst]
  | oneOf hc hcs hne =>
    rw [List.append_assoc] at hw
    refine hconsts hc hcs hw hF fun first others hfirst hothers => ?_
    cases others with
    | nil => exact absurd hothers.symm hne
    | cons c cs => simp only [comparatorOf, Comparator.bare, List.map_cons, hfirst, ← hothers]
  | range hlo hhi =>
    refine .of_lt fun hi => .peek hi hw ?_
    rw [if_pos (by simp)]
    exact Tracks.spanned caseRange_tracks ⟨_, _, rfl, .range hlo hhi⟩ hw trivial

private theorem forRange_tracks : Tracks (fun _ => True) (fun w i => ∃ x y z, i = .range x y z .blank ∧ IsIterable w i)
    (fun b y => ∀ s, (b s).bare = y) forRange := by
  rintro lim w w' y p ⟨first, last, step, rfl, h⟩ hw _
  cases h with
  | range hfirst hlast hstep =>
    simp only [List.cons_append, List.append_assoc, List.nil_append] at hw
    refine .keyword hw fun _ q hq => .symbol hq fun _ q hq => ?_
    refine (intConst_tracks hfirst hq trivial).bind fun first q hfirst hq => .symbol hq fun _ q hq => ?_
    refine (intConst_tracks hlast hq trivial).bind fun last q hlast hq => .symbol hq fun _ q hq => ?_
    refine (intConst_tracks hstep hq trivial).bind fun step q hstep hq => .symbol hq fun _ q hq => ?_
    exact .pure (fun _ => by simp only [Iterable.bare, hfirst, hlast, hstep]) hq

/-! ### Statements -/

section Statements

variable {e : Descent Expr} {b : Descent Block} [Forward e] [Forward b] {lim : Nat} {w w₁ w₂ w' : Word} {p : Position}

private theorem iterable_tracks (he : Tracks (Ends .logic) IsExpr (·.bare = ·) e) :
    Tracks (Ends .logic) IsIterable (·.bare = ·) (iterable e) := by
  intro lim w w' y p h hw hF
  refine .of_lt fun hi => .peek hi hw ?_
  cases h with
  | range hfirst hlast hstep =>
    rw [if_pos (by simp)]
    exact Tracks.spanned forRange_tracks ⟨_, _, _, rfl, .range hfirst hlast hstep⟩ hw trivial
  | expr h =>
    obtain ⟨k, w₁, rfl, hk⟩ := opens_expr h
    rw [if_neg (by rw [List.cons_append, List.head?_cons]; rintro heq; simp_all [opensExpr])]
    refine (he h hw hF).map fun x hx => ?_
    simp only [Iterable.bare, hx]

private theorem decl_tracks (he : Tracks (Ends .logic) IsExpr (·.bare = ·) e) (k : Keyword) :
    Tracks (fun _ => True) (IsDecl k) (·.bare = ·) (decl e k) := by
  intro lim w w' y p h hw _
  cases h with
  | mk n htype hvalue =>
    simp only [List.cons_append, List.append_assoc, List.nil_append] at hw
    refine .keyword hw fun _ q hq => .ident hq fun i hi hq => ?_
    refine (typeAfter_tracks .colon htype hq (by simp)).bind fun type q htype hq => .symbol hq fun _ q hq => ?_
    refine (he hvalue hq ends_semicolon).bind fun value q hvalue hq => .symbol hq fun _ q hq => .pure ?_ hq
    simp only [Decl.bare, Ident.bare, hi, htype, hvalue]

private theorem printStmt_tracks (he : Tracks (Ends .logic) IsExpr (·.bare = ·) e) {args : List Expr}
    (h : Listed IsExpr w args)
    (hw : p.Expects lim (.keyword .printKw :: .symbol .lparen :: (w ++ .symbol .semicolon :: w'))) :
    TracksAt lim (fun b => ∀ s, (b s).bare = .print args .blank) w' (printStmt e) p := by
  refine .keyword hw fun _ q hq => (args_tracks he h hq).bind fun args q hargs hq => .symbol hq fun _ q hq => ?_
  exact .pure (fun _ => by simp only [Stmt.bare, hargs]) hq

private theorem returnStmt_tracks (he : Tracks (Ends .logic) IsExpr (·.bare = ·) e) {x : Expr} (h : IsExpr w x)
    (hw : p.Expects lim (.keyword .returnKw :: (w ++ .symbol .semicolon :: w'))) :
    TracksAt lim (fun b => ∀ s, (b s).bare = .ret (some x) .blank) w' (returnStmt e) p := by
  refine .keyword hw fun _ q hq => .take_false hq ?_ ((he h hq ends_semicolon).bind fun x q hx hq => ?_)
  · obtain ⟨k, w₁, rfl, hk⟩ := opens_expr h
    rintro heq
    simp_all [opensExpr]
  · exact .symbol hq fun _ q hq => .pure (fun _ => by simp only [Stmt.bare, Option.map_some, hx]) hq

private theorem assignStmt_tracks (he : Tracks (Ends .logic) IsExpr (·.bare = ·) e) {n : String} {x : Expr}
    (h : IsExpr w x) (hw : p.Expects lim (.identifier n :: .symbol .assign :: (w ++ .symbol .semicolon :: w'))) :
    TracksAt lim (fun b => ∀ s, (b s).bare = .assign ⟨n, .blank⟩ x .blank) w' (assignStmt e) p := by
  refine .ident hw fun i hi hq => .symbol hq fun _ q hq => (he h hq ends_semicolon).bind fun x q hx hq => ?_
  exact .symbol hq fun _ q hq => .pure (fun _ => by simp only [Stmt.bare, Ident.bare, hi, hx]) hq

private theorem callStmt_tracks (he : Tracks (Ends .logic) IsExpr (·.bare = ·) e) {f : String} {args : List Expr}
    (h : Listed IsExpr w args)
    (hw : p.Expects lim (.identifier f :: .symbol .lparen :: (w ++ .symbol .semicolon :: w'))) :
    TracksAt lim (fun b => ∀ s, (b s).bare = .call ⟨f, .blank⟩ args .blank) w' (callStmt e) p := by
  refine .ident hw fun i hi hq => (args_tracks he h hq).bind fun args q hargs hq => ?_
  exact .symbol hq fun _ q hq => .pure (fun _ => by simp only [Stmt.bare, Ident.bare, hi, hargs]) hq

private theorem forStmt_tracks (he : Tracks (Ends .logic) IsExpr (·.bare = ·) e)
    (hb : Tracks (fun _ => True) IsBlock (·.bare = ·) b) {n : String} {i : Iterable} {body : Block}
    (hi : IsIterable w i) (hbody : IsBlock w₁ body)
    (hw : p.Expects lim (.keyword .forKw :: .identifier n :: .keyword .inKw :: (w ++ (w₁ ++ w')))) :
    TracksAt lim (fun b => ∀ s, (b s).bare = .forLoop ⟨n, .blank⟩ i body .blank) w' (forStmt e b) p := by
  refine .keyword hw fun _ q hq => .ident hq fun v hv hq => .keyword hq fun _ q hq => ?_
  refine (iterable_tracks he hi hq hbody.ends).bind fun i q hi hq => (hb hbody hq trivial).map fun body hbody _ => ?_
  simp only [Stmt.bare, Ident.bare, hv, hi, hbody]

private theorem whileStmt_tracks (he : Tracks (Ends .logic) IsExpr (·.bare = ·) e)
    (hb : Tracks (fun _ => True) IsBlock (·.bare = ·) b) {x : Expr} {body : Block} (hx : IsExpr w x)
    (hbody : IsBlock w₁ body) (hw : p.Expects lim (.keyword .whileKw :: (w ++ (w₁ ++ w')))) :
    TracksAt lim (fun b => ∀ s, (b s).bare = .whileLoop x body .blank) w' (whileStmt e b) p := by
  refine .keyword hw fun _ q hq => (he hx hq hbody.ends).bind fun x q hx hq => ?_
  refine (hb hbody hq trivial).map fun body hbody _ => ?_
  simp only [Stmt.bare, hx, hbody]

set_option synthInstance.maxSize 256 in
private theorem ifFrom_tracks (he : Tracks (Ends .logic) IsExpr (·.bare = ·) e)
    (hb : Tracks (fun _ => True) IsBlock (·.bare = ·) b) (fuel : Nat) :
    Tracks (· ≠ some (.keyword .elseKw)) IsIf (fun b y => ∀ s, (b s).bare = y) (ifFrom e b fuel) := by
  induction fuel with
  | zero => exact .exhausted
  | succ fuel ih =>
    intro lim w w' y p h hw hF
    have hinner : Tracks (· ≠ some (.keyword .elseKw)) IsIf (·.bare = ·) (spanned (ifFrom e b fuel)) := .spanned ih
    cases h with
    | ifThen hcond hthen =>
      simp only [List.cons_append, List.append_assoc] at hw
      refine .keyword hw fun _ q hq => (he hcond hq hthen.ends).bind fun cond q hcond hq => ?_
      refine (hb hthen hq trivial).bind fun thenBlock q hthen hq => .take_false hq hF (.pure (fun _ => ?_) hq)
      simp only [Stmt.bare, hcond, hthen]
    | ifElse hcond hthen helse =>
      simp only [List.cons_append, List.append_assoc] at hw
      obtain ⟨w₁, hhead⟩ := helse.head
      refine .keyword hw fun _ q hq => (he hcond hq hthen.ends).bind fun cond q hcond hq => ?_
      refine (hb hthen hq trivial).bind fun thenBlock q hthen hq => .take_true hq fun q hq => ?_
      refine .of_lt fun hi => .peek hi hq ?_
      rw [if_neg (by simp [hhead])]
      refine (hb helse hq trivial).map fun elseBlock helse _ => ?_
      simp only [Stmt.bare, hcond, hthen, helse]
    | elseIf hcond hthen helse =>
      simp only [List.cons_append, List.append_assoc] at hw
      obtain ⟨w₁, hhead⟩ := helse.head
      refine .keyword hw fun _ q hq => (he hcond hq hthen.ends).bind fun cond q hcond hq => ?_
      refine (hb hthen hq trivial).bind fun thenBlock q hthen hq => .take_true hq fun q hq => ?_
      refine .of_lt fun hi => .peek hi hq ?_
      rw [if_pos (by simp [hhead])]
      refine (hinner helse hq hF).map fun inner hinner _ => ?_
      simp only [Stmt.bare, Block.bare, bareStmts, hcond, hthen, hinner]

private theorem caseClause_tracks (hb : Tracks (fun _ => True) IsBlock (·.bare = ·) b) :
    Tracks (fun _ => True) IsCase (fun b y => ∀ s, (b s).bare = y) (caseClause b) := by
  intro lim w w' y p h hw _
  cases h with
  | case hc hbody =>
    simp only [List.cons_append, List.append_assoc] at hw
    obtain ⟨w₁, hhead⟩ := hbody.head
    refine .take_true hw fun q hq => (comparator_tracks hc hq (by simp [hhead])).bind fun c q hc hq => ?_
    refine (hb hbody hq trivial).map fun body hbody _ => ?_
    simp only [Case.bare, Option.map_some, hc, hbody]
  | default hbody =>
    refine .take_false hw (by simp) (.take_true hw fun q hq => (hb hbody hq trivial).map fun body hbody _ => ?_)
    simp only [Case.bare, Option.map_none, hbody]

/-- The cases are told from the brace after them by their keywords. -/
private theorem casesFrom_tracks (hb : Tracks (fun _ => True) IsBlock (·.bare = ·) b) (fuel : Nat) :
    Tracks (fun _ => True) (fun w cs => ∃ w', w = w' ++ [.symbol .rbrace] ∧ Repeated IsCase w' cs) (bareCases · = ·)
      (casesFrom b fuel) := by
  have hcase : Tracks (fun _ => True) IsCase (·.bare = ·) (spanned (caseClause b)) := .spanned (caseClause_tracks hb)
  induction fuel with
  | zero => exact .exhausted
  | succ fuel ih =>
    rintro lim w w' cs p ⟨w₁, rfl, h⟩ hw _
    cases h with
    | nil => exact .take_true hw fun q hq => .pure rfl hq
    | cons hc hcs =>
      simp only [List.append_assoc] at hw
      obtain ⟨k, w₂, hhead, hk⟩ := hc.head
      refine .take_false hw (by simpa [hhead] using hk) ((hcase hc hw trivial).bind fun c q hc hq => ?_)
      refine (ih ⟨_, rfl, hcs⟩ (by simpa using hq) trivial).map fun cs hcs => ?_
      simp only [bareCases, hc, hcs]

private theorem switchStmt_tracks (he : Tracks (Ends .logic) IsExpr (·.bare = ·) e)
    (hb : Tracks (fun _ => True) IsBlock (·.bare = ·) b) {x : Expr} {cs : List Case} (hx : IsExpr w x)
    (hcs : Repeated IsCase w₁ cs)
    (hw : p.Expects lim (.keyword .switchKw :: (w ++ .symbol .lbrace :: (w₁ ++ .symbol .rbrace :: w')))) :
    TracksAt lim (fun b => ∀ s, (b s).bare = .switch x cs .blank) w' (switchStmt e b) p := by
  refine .keyword hw fun _ q hq => (he hx hq ends_lbrace).bind fun x q hx hq => ?_
  refine .symbol hq fun _ q hq => .rounds fun n => ?_
  refine (casesFrom_tracks hb n ⟨_, rfl, hcs⟩ (by simpa using hq) trivial).map fun cs hcs _ => ?_
  simp only [Stmt.bare, hx, hcs]

private theorem letItem_tracks (he : Tracks (Ends .logic) IsExpr (·.bare = ·) e) :
    Tracks (fun _ => True) (IsDecl .letKw) (fun b d => ∀ s, (b s).bare = .letDecl d .blank) (letItem e) := by
  intro lim w w' d p h hw _
  refine (decl_tracks he .letKw h hw trivial).map fun d hd _ => ?_
  simp only [Item.bare, hd]

private theorem stmt_tracks (he : Tracks (Ends .logic) IsExpr (·.bare = ·) e)
    (hb : Tracks (fun _ => True) IsBlock (·.bare = ·) b) :
    Tracks (· ≠ some (.keyword .elseKw)) IsStmt (fun b y => ∀ s, (b s).bare = y) (stmt e b) := by
  intro lim w w' y p h hw hF
  refine .of_lt fun hi => .peek hi hw ?_
  cases h with
  | letDecl h =>
    cases h with
    | mk n htype hvalue =>
      refine (letItem_tracks he (.mk n htype hvalue) hw trivial).map fun i hi s => ?_
      simp only [Stmt.bare, hi]
  | varDecl h =>
    cases h with
    | mk n htype hvalue =>
      refine (decl_tracks he .varKw (.mk n htype hvalue) hw trivial).map fun d hd s => ?_
      simp only [Stmt.bare, hd]
  | print h => exact printStmt_tracks he h (by simpa using hw)
  | ret =>
    refine .keyword hw fun _ q hq => .take_true hq fun q hq => .pure (fun _ => ?_) hq
    simp only [Stmt.bare, Option.map_none]
  | retValue h => exact returnStmt_tracks he h (by simpa using hw)
  | assign n h =>
    refine .peekSecond hi hw fun k hk => ?_
    split
    · exact assignStmt_tracks he h (by simpa using hw)
    · next hne => exact .ident hw fun i _ _ => .of_le (Nat.le_of_not_lt fun hlt => hne (by simpa using hk hlt))
  | call f h =>
    refine .peekSecond hi hw fun k hk => ?_
    split
    · next heq =>
      exact .ident hw fun i _ _ => .of_le (Nat.le_of_not_lt fun hlt => by simpa [heq] using hk hlt)
    · exact callStmt_tracks he h (by simpa using hw)
  | forLoop n hi' hbody => exact forStmt_tracks he hb hi' hbody (by simpa using hw)
  | whileLoop hx hbody => exact whileStmt_tracks he hb hx hbody (by simpa using hw)
  | branch h =>
    obtain ⟨w₁, rfl⟩ := h.head
    exact .rounds fun n => ifFrom_tracks he hb n h hw hF
  | switch hx hcs => exact switchStmt_tracks he hb hx hcs (by simpa using hw)

private theorem stmtsFrom_tracks {s : Descent Stmt} [Forward s]
    (hs : Tracks (· ≠ some (.keyword .elseKw)) IsStmt (·.bare = ·) s) (fuel : Nat) :
    Tracks (· = some (.symbol .rbrace)) (Repeated IsStmt) (bareStmts · = ·) (stmtsFrom s fuel) := by
  induction fuel with
  | zero => exact .exhausted
  | succ fuel ih =>
    intro lim w w' ss p h hw hF
    refine .of_lt fun hi => .peek hi hw ?_
    cases h with
    | nil =>
      rw [if_pos (by simp [hF])]
      exact .pure rfl hw
    | @cons _ w₂ _ _ hx hxs =>
      obtain ⟨k, w₁, hhead, hk, -⟩ := hx.head
      rw [List.append_assoc] at hw
      rw [if_neg (by simpa [hhead] using hk)]
      have hnext : (w₂ ++ w').head? ≠ some (TokenKind.keyword .elseKw) := by
        cases hxs with
        | nil => simp [hF]
        | cons hx _ =>
          obtain ⟨k, w₁, hhead, -, hk⟩ := hx.head
          simpa [hhead] using hk
      refine (hs hx hw hnext).bind fun x q hx hq => (ih hxs hq hF).map fun xs hxs => ?_
      simp only [bareStmts, hx, hxs]

private theorem block_tracks (he : Tracks (Ends .logic) IsExpr (·.bare = ·) e) (depth : Nat) :
    Tracks (fun _ => True) IsBlock (·.bare = ·) (block e depth) := by
  induction depth with
  | zero => exact .exhausted
  | succ depth ih =>
    have hs : Tracks (· ≠ some (.keyword .elseKw)) IsStmt (·.bare = ·) (spanned (stmt e (block e depth))) :=
      .spanned (stmt_tracks he ih)
    intro lim w w' y p h hw _
    cases h with
    | mk h =>
      simp only [List.cons_append, List.append_assoc, List.nil_append] at hw
      refine .symbol hw fun _ q hq => .rounds fun n => (stmtsFrom_tracks hs n h hq rfl).bind fun ss q hss hq => ?_
      refine .symbol hq fun _ q hq => .pure ?_ hq
      simp only [Block.bare, hss]

/-! ### Programs -/

private theorem func_tracks (hb : Tracks (fun _ => True) IsBlock (·.bare = ·) b) {f : String} {params : List Param}
    {result : Option TypeName} {body : Block} {w₃ : Word} (hparams : Listed IsParam w params)
    (hresult : IsTypeAfter .arrow w₁ result) (hbody : IsBlock w₂ body)
    (hw : p.Expects lim (.keyword .funcKw :: .identifier f :: .symbol .lparen :: (w ++ (w₁ ++ (w₂ ++ w₃))))) :
    TracksAt lim (fun b => ∀ s, (b s).bare = .func ⟨f, .blank⟩ params result body .blank) w₃ (func b) p := by
  have hopens : Opens opensParam IsParam := by
    rintro _ _ ⟨n, ty⟩
    exact ⟨_, _, rfl, rfl⟩
  obtain ⟨w₄, hhead⟩ := hbody.head
  refine .keyword hw fun _ q hq => .ident hq fun i hi hq => ?_
  refine (list_tracks param_tracks hopens rfl rfl ⟨trivial, trivial⟩ hparams hq).bind fun params q hparams hq => ?_
  refine (typeAfter_tracks .arrow hresult hq (by simp [hhead])).bind fun result q hresult hq => ?_
  refine (hb hbody hq trivial).map fun body hbody _ => ?_
  simp only [Item.bare, Ident.bare, hi, hparams, hresult, hbody]

private theorem item_tracks (he : Tracks (Ends .logic) IsExpr (·.bare = ·) e)
    (hb : Tracks (fun _ => True) IsBlock (·.bare = ·) b) :
    Tracks (fun _ => True) IsItem (fun b y => ∀ s, (b s).bare = y) (item e b) := by
  intro lim w w' y p h hw _
  refine .of_lt fun hi => .peek hi hw ?_
  cases h with
  | letDecl h =>
    cases h with
    | mk n htype hvalue => exact letItem_tracks he (.mk n htype hvalue) hw trivial
  | func f hparams hresult hbody => exact func_tracks hb hparams hresult hbody (by simpa using hw)

private theorem itemsToEnd_tracks {i : Descent Item} [Forward i] (hi : Tracks (fun _ => True) IsItem (·.bare = ·) i)
    (fuel : Nat) : Tracks (· = none) (Repeated IsItem) (·.map Item.bare = ·) (itemsToEnd i fuel) := by
  induction fuel with
  | zero => exact .exhausted
  | succ fuel ih =>
    intro lim w w' is p h hw hF
    refine .of_lt fun hlt => .peek hlt hw ?_
    cases h with
    | nil =>
      rw [if_pos (by simp [hF])]
      exact .pure rfl hw
    | cons hx hxs =>
      obtain ⟨k, w₁, hhead⟩ := hx.head
      rw [List.append_assoc] at hw
      rw [if_neg (by simp [hhead])]
      refine (hi hx hw trivial).bind fun x q hx hq => (ih hxs hq hF).map fun xs hxs => ?_
      simp only [List.map_cons, hx, hxs]

end Statements

/-- From tokens that begin a program, that program is read unless they end or differ from it before. -/
theorem program_tracks (depth : Nat) : Tracks (· = none) IsProgram (·.bare = ·) (program depth) := by
  have hi : Tracks (fun _ => True) IsItem (·.bare = ·) (spanned (item (expr depth) (block (expr depth) depth))) :=
    .spanned (item_tracks (expr_tracks depth) (block_tracks (expr_tracks depth) depth))
  intro lim w w' y p h hw hF
  refine .rounds fun n => (itemsToEnd_tracks hi n h hw hF).map fun is his => ?_
  simp only [Program.bare, his]

end Descent

end Scriptlet
