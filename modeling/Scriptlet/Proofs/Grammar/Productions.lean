import Mathlib.Data.List.TakeWhile
import Scriptlet.Proofs.Descent.Grammar
import Scriptlet.Proofs.Grammar.Acceptance

/-!
# Every reader accepts its part of the grammar

One lemma for each production of the descent, in the order of the grammar: its words are those of the relation that
the grammar gives for it, for the tree without its places.  The result for whole programs is `program_accepts`.
-/

namespace Scriptlet

namespace Grammar

open Scriptlet.Parser (Level unaryOp? typeOf? intValue? doubleValue? logicOps relationOps sumOps productOps)

/-! ### Tokens and what they stand for -/

/-- The parser reads an integer literal as the integer that it stands for. -/
theorem intValue?_eq_some {negative : Bool} {text : String} {n : Int} :
    intValue? negative text = some n ↔ IsInt negative text n := by
  have hpos : 0 < Parser.intLimit := by decide
  unfold intValue? IsInt Fits
  cases negative with
  | true =>
    by_cases h : Text.digitsValue text.toList ≤ Parser.intLimit <;> simp [h] <;> omega
  | false =>
    by_cases h : Text.digitsValue text.toList < Parser.intLimit <;> simp [h] <;> omega

private theorem IsPointed.takeWhile_eq {cs whole fraction : List Char} (h : IsPointed cs whole fraction) :
    cs.takeWhile (· ≠ '.') = whole := by
  have hall {whole : List Char} (hw : '.' ∉ whole) : ∀ c ∈ whole, decide (c ≠ '.') = true :=
    fun c hc => decide_eq_true (ne_of_mem_of_not_mem hc hw)
  cases h with
  | point hw => rw [List.takeWhile_append_of_pos (hall hw), List.takeWhile_cons_of_neg (by decide), List.append_nil]
  | whole hw => exact List.takeWhile_eq_self_iff.2 (hall hw)

private theorem IsPointed.drop_eq {cs whole fraction : List Char} (h : IsPointed cs whole fraction) :
    cs.drop (whole.length + 1) = fraction := by
  cases h <;> simp

private theorem IsPointed.cons {cs whole fraction : List Char} {c : Char} (h : IsPointed cs whole fraction)
    (hc : c ≠ '.') : IsPointed (c :: cs) (c :: whole) fraction := by
  cases h with
  | point hw => exact .point (List.not_mem_cons_of_ne_of_not_mem (Ne.symm hc) hw)
  | whole hw => exact .whole (List.not_mem_cons_of_ne_of_not_mem (Ne.symm hc) hw)

/-- The digits before the first point and those after it are a literal's. -/
private theorem isPointed_takeWhile (cs : List Char) :
    IsPointed cs (cs.takeWhile (· ≠ '.')) (cs.drop ((cs.takeWhile (· ≠ '.')).length + 1)) := by
  induction cs with
  | nil => exact .whole List.not_mem_nil
  | cons c cs ih =>
    by_cases hc : c = '.'
    · subst hc
      exact @IsPointed.point [] cs List.not_mem_nil
    · rw [List.takeWhile_cons_of_pos (p := (· ≠ '.')) (decide_eq_true hc), List.length_cons, List.drop_succ_cons]
      exact ih.cons hc

/-- The parser reads a literal with a fraction as the double that it stands for. -/
theorem doubleValue?_eq_some {text : String} {x : Double} : doubleValue? text = some x ↔ IsDouble text x := by
  unfold doubleValue? IsDouble
  constructor
  · intro h
    simp only [Option.ite_none_right_eq_some, Option.some.injEq] at h
    obtain ⟨hfinite, rfl⟩ := h
    exact ⟨_, _, isPointed_takeWhile _, rfl, hfinite⟩
  · rintro ⟨whole, fraction, hcut, rfl, hfinite⟩
    simp only [hcut.takeWhile_eq, hcut.drop_eq, hfinite, if_true]

/-- A type is spelled by its keyword only. -/
theorem typeOf?_eq_some {k : Option TokenKind} {ty : Ty} : typeOf? k = some ty ↔ k = some (.keyword ty.keyword) := by
  constructor
  · intro h
    unfold typeOf? at h
    split at h <;> cases h <;> rfl
  · rintro rfl
    cases ty <;> rfl

/-- A prefix operator is spelled by its symbol only. -/
theorem unaryOp?_eq_some {k : Option TokenKind} {op : UnaryOp} :
    unaryOp? k = some op ↔ k = some (.symbol op.symbol) := by
  constructor
  · intro h
    unfold unaryOp? at h
    split at h <;> cases h <;> rfl
  · rintro rfl
    cases op <;> rfl

/-- The level has the operators of the rank, each with its symbol. -/
def IsLevel (ops : Level) (r : Rank) : Prop :=
  ∀ (s : Symbol) (op : BinaryOp), ops.lookup s = some op ↔ s = op.symbol ∧ op.rank = r

theorem isLevel_logic : IsLevel logicOps .logic := by
  intro s op
  cases s <;> cases op <;> decide

theorem isLevel_relation : IsLevel relationOps .relation := by
  intro s op
  cases s <;> cases op <;> decide

theorem isLevel_sum : IsLevel sumOps .sum := by
  intro s op
  cases s <;> cases op <;> decide

theorem isLevel_product : IsLevel productOps .product := by
  intro s op
  cases s <;> cases op <;> decide

/-- At a level a token stands for an operator of the rank with this symbol. -/
theorem IsLevel.op?_eq_some {ops : Level} {r : Rank} (h : IsLevel ops r) {k : Option TokenKind} {op : BinaryOp} :
    ops.op? k = some op ↔ k = some (.symbol op.symbol) ∧ op.rank = r := by
  unfold Level.op?
  split
  · next s => simpa using h s op
  · next hk =>
    exact ⟨fun h => (nomatch h), fun h => absurd h.1 (hk _)⟩

/-- A primary expression stands at every rank. -/
private theorem Derives.isExpr {w : Word} {e : Expr} (h : Derives .primary w e) : IsExpr w e :=
  .operand .logic (.operand .relation (.operand .sum (.operand .product (.base (.primary h)))))

end Grammar

namespace Descent

open Parse Grammar
open Scriptlet.Parser (Level)

/-! ### Lists -/

section Lists

variable {α : Type} {Item : Word → α → Prop} {item : Descent α}

/-- At the closing parenthesis a list ends. -/
private theorem items_acceptsAt_close {p : Position} (h : p.kind? = some (.symbol .rparen)) (fuel : Nat) :
    AcceptsAt (fun w (xs : List α) => w = [.symbol .rparen] ∧ xs = []) (items item fuel) p := by
  cases fuel with
  | zero => exact .exhausted
  | succ fuel =>
    unfold items
    rw [take_bind]
    apply AcceptsAt.peek
    rw [if_pos (by simp [h])]
    exact .advance h (.pure ⟨rfl, rfl⟩)

private theorem items_accepts (h : Accepts Item item) (fuel : Nat) : Accepts (Listed Item) (items item fuel) := by
  have hv : Viable (Listed Item) [] := ⟨_, _, .nil⟩
  induction fuel with
  | zero => exact .exhausted hv
  | succ fuel ih =>
    refine .take (.pure .nil) (.peek hv fun p => ?_)
    split
    · exact .unexpected hv _
    · refine (h.acceptsAt p).bind fun x w hx => .separator ?_ fun q hq => ?_
      · exact ih.map fun xs w' hxs => .cons hx hxs
      · refine (items_acceptsAt_close hq fuel).bind fun xs w' hxs => ?_
        obtain ⟨rfl, rfl⟩ := hxs
        exact .pure (.last hx)

private theorem list_accepts (h : Accepts Item item) :
    Accepts (fun w xs => ∃ w', w = .symbol .lparen :: w' ∧ Listed Item w' xs) (list item) :=
  .symbol fun _ => .rounds fun n => (items_accepts h n).mono fun w _ hxs => ⟨w, rfl, hxs⟩

end Lists

/-! ### Expressions -/

section Expressions

variable {r r' : Rank}

private theorem leftAssocFrom_accepts {ops : Level} {operand : Descent Expr} (hl : r.Left r') (hops : IsLevel ops r)
    (ho : Accepts (fun w e => Derives r' w e.bare) operand) (fuel : Nat) : ∀ {w₀ : Word} {lhs : Expr},
      Derives r w₀ lhs.bare →
        Accepts (fun w e => Derives r (w₀ ++ w) e.bare) (leftAssocFrom ops operand fuel lhs) := by
  induction fuel with
  | zero =>
    intro w₀ lhs hlhs
    exact .exhausted ⟨[], lhs, by simpa using hlhs⟩
  | succ fuel ih =>
    intro w₀ lhs hlhs
    refine .peek ⟨[], lhs, by simpa using hlhs⟩ fun p => ?_
    split
    · exact .pure (by simpa using hlhs)
    · next op hop =>
      obtain ⟨hk, hr⟩ := hops.op?_eq_some.1 hop
      refine .advance hk (ho.bind fun rhs w hrhs => ?_)
      refine (ih (Derives.left op hl hr hlhs hrhs)).mono fun w' e he => ?_
      simpa using he

private theorem leftAssoc_accepts {ops : Level} {operand : Descent Expr} (hl : r.Left r') (hops : IsLevel ops r)
    (ho : Accepts (fun w e => Derives r' w e.bare) operand) :
    Accepts (fun w e => Derives r w e.bare) (leftAssoc ops operand) :=
  ho.bind fun _ _ hlhs => .rounds fun n => leftAssocFrom_accepts hl hops ho n (.operand hl hlhs)

private theorem powerFrom_accepts {operand : Descent Expr} (ho : Accepts (fun w e => Derives .unary w e.bare) operand)
    (fuel : Nat) : Accepts (fun w e => Derives .power w e.bare) (powerFrom operand fuel) := by
  induction fuel with
  | zero =>
    obtain ⟨w, e, he⟩ := ho.viable
    exact .exhausted (.of_word (.base he))
  | succ fuel ih =>
    refine ho.bind fun lhs w hlhs => .take ?_ (.pure (by simpa using .base hlhs))
    exact ih.map fun rhs w' hrhs => .pow hlhs hrhs

private theorem unaryFrom_accepts {operand : Descent Expr} (ho : Accepts (fun w e => Derives .primary w e.bare) operand)
    (fuel : Nat) : Accepts (fun w e => Derives .unary w e.bare) (unaryFrom operand fuel) := by
  obtain ⟨w, e, he⟩ := ho.viable
  have hv : Viable (fun w (e : Expr) => Derives .unary w e.bare) [] := .of_word (.primary he)
  induction fuel with
  | zero => exact .exhausted hv
  | succ fuel ih =>
    refine .peek hv fun p => ?_
    split
    · exact (ho.acceptsAt p).mono fun _ _ he => .primary he
    · next op hop =>
      refine .nextSpan (.advance (unaryOp?_eq_some.1 hop) ?_)
      exact ih.map fun e w he => .signed op he

variable {inner : Descent Expr}

/-- The arguments of a call, with their parentheses. -/
private theorem args_accept (h : Accepts (fun w e => IsExpr w e.bare) inner) :
    Accepts (fun w es => ∃ w', w = .symbol .lparen :: w' ∧ Listed IsExpr w' (Expr.bareList es)) (list inner) := by
  refine (list_accepts h).mono fun w es hes => ?_
  obtain ⟨w', rfl, hes⟩ := hes
  exact ⟨w', rfl, by simpa [Expr.bareList_eq] using hes.map⟩

private theorem callExpr_accepts (h : Accepts (fun w e => IsExpr w e.bare) inner) :
    Accepts (fun w e => Derives .primary w e.bare) (callExpr inner) := by
  refine .ident fun f => (args_accept h).bind fun args w hargs => .lastSpan fun _ => .pure ?_
  obtain ⟨w', rfl, hargs⟩ := hargs
  simpa using .call f.name hargs

private theorem nameExpr_accepts : Accepts (fun w e => Derives .primary w e.bare) nameExpr :=
  .ident fun n => .pure (.name n.name)

private theorem literal_acceptsAt {p : Position} {k : TokenKind} {v : Literal} (hk : p.kind? = some k)
    (h : Derives .primary [k] (.literal v .blank)) :
    AcceptsAt (fun w e => Derives .primary w e.bare) (literal v) p :=
  .nextSpan (.advance hk (.pure h))

private theorem primary_accepts (h : Accepts (fun w e => IsExpr w e.bare) inner) :
    Accepts (fun w e => Derives .primary w e.bare) (primary inner) := by
  have hv : Viable (fun w (e : Expr) => Derives .primary w e.bare) [] := ⟨_, .literal (.bool true) .blank, .true⟩
  refine .peek hv fun p => ?_
  split
  · next hk => exact .intValue hk hv fun n hn => literal_acceptsAt hk (.int (intValue?_eq_some.1 hn))
  · next hk => exact .doubleValue hk hv fun x hx => literal_acceptsAt hk (.double (doubleValue?_eq_some.1 hx))
  · next hk => exact literal_acceptsAt hk (.string _)
  · next hk => exact literal_acceptsAt hk .true
  · next hk => exact literal_acceptsAt hk .false
  · next hk =>
    refine .nextSpan (.advance hk ?_)
    refine (args_accept h).bind fun args w hargs => .lastSpan fun _ => .pure ?_
    obtain ⟨w', rfl, hargs⟩ := hargs
    simpa using .input hargs
  · next hk =>
    refine .nextSpan (.advance hk ?_)
    refine h.bind fun e w he => .symbol fun _ => .pure ?_
    simpa using .parens he
  · apply AcceptsAt.peekSecond
    split
    · exact (callExpr_accepts h).acceptsAt p
    · exact nameExpr_accepts.acceptsAt p
  · exact .unexpected hv _

private theorem logic_accepts (h : Accepts (fun w e => IsExpr w e.bare) inner) :
    Accepts (fun w e => IsExpr w e.bare) (logic inner) := by
  have hunary : Accepts (fun w e => Derives .unary w e.bare) (unary inner) :=
    .rounds fun n => unaryFrom_accepts (primary_accepts h) n
  have hpower : Accepts (fun w e => Derives .power w e.bare) (power inner) :=
    .rounds fun n => powerFrom_accepts hunary n
  have hproduct := leftAssoc_accepts .product isLevel_product hpower
  have hsum := leftAssoc_accepts .sum isLevel_sum hproduct
  have hrelation := leftAssoc_accepts .relation isLevel_relation hsum
  exact leftAssoc_accepts .logic isLevel_logic hrelation

private theorem expr_accepts (depth : Nat) : Accepts (fun w e => IsExpr w e.bare) (expr depth) := by
  induction depth with
  | zero => exact .exhausted ⟨_, .literal (.bool true) .blank, Derives.true.isExpr⟩
  | succ depth ih => exact logic_accepts ih

end Expressions

/-! ### Parts of statements -/

private theorem typeName_accepts : Accepts (fun w t => w = [.keyword t.ty.keyword]) typeName := by
  have hv : Viable (fun w (t : TypeName) => w = [.keyword t.ty.keyword]) [] := ⟨_, ⟨.int, .blank⟩, rfl⟩
  refine .peek hv fun p => ?_
  split
  · next ty hty => exact .nextSpan (.advance (typeOf?_eq_some.1 hty) (.pure rfl))
  · exact .unexpected hv _

private theorem typeAfter_accepts (s : Symbol) :
    Accepts (fun w t => IsTypeAfter s w (t.map TypeName.bare)) (typeAfter s) := by
  refine .take (typeName_accepts.map fun t w hw => ?_) (.pure .absent)
  subst hw
  exact .present t.ty

private theorem param_accepts : Accepts (fun w p => IsParam w p.bare) param := by
  refine .ident fun n => .symbol fun _ => typeName_accepts.map fun t w hw => ?_
  subst hw
  exact .mk n.name t.ty

private theorem intConst_accepts : Accepts IsIntConst intConst := by
  have hzero : IsInt false "0" 0 := intValue?_eq_some.1 (by decide)
  have hminus : IsInt true "0" 0 := intValue?_eq_some.1 (by decide)
  refine .take (.peek ⟨_, _, .negative hminus⟩ fun p => ?_) (.peek ⟨_, _, .plain hzero⟩ fun p => ?_)
  · split
    · next text hk =>
      refine .intValue hk ⟨_, _, .negative hminus⟩ fun n hn => .advance hk (.pure ?_)
      exact .negative (intValue?_eq_some.1 hn)
    · exact .unexpected ⟨_, _, .negative hminus⟩ _
  · split
    · next text hk =>
      refine .intValue hk ⟨_, _, .plain hzero⟩ fun n hn => .advance hk (.pure ?_)
      exact .plain (intValue?_eq_some.1 hn)
    · exact .unexpected ⟨_, _, .plain hzero⟩ _

/-- A constant is found when its sign, if any, has been consumed and its last token has not. -/
private theorem constValue_acceptsAt {α : Type} {Q : Word → α → Prop} {negative : Bool} {f : Literal → Descent α}
    {p : Position} (hv : Viable Q [])
    (h : ∀ k v, p.kind? = some k → IsConst (if negative then [.symbol .minus, k] else [k]) ⟨v, .blank⟩ →
      AcceptsAt Q (f v) p) : AcceptsAt Q (constValue negative >>= f) p := by
  have hint : ∀ {text : String} {n : Int}, IsInt negative text n →
      IsConst (if negative then [.symbol .minus, .intLiteral text] else [.intLiteral text]) ⟨.int n, .blank⟩ := by
    cases negative with
    | true => exact fun hn => .int (.negative hn)
    | false => exact fun hn => .int (.plain hn)
  have hdouble : ∀ {text : String} {x : Double}, IsDouble text x →
      IsConst (if negative then [.symbol .minus, .floatLiteral text] else [.floatLiteral text])
        ⟨.double (if negative then x.neg else x), .blank⟩ := by
    cases negative with
    | true => exact fun hx => .negative hx
    | false => exact fun hx => .double hx
  unfold constValue
  rw [bind_assoc]
  apply AcceptsAt.peek
  split
  · next hk =>
    rw [bind_assoc]
    exact .intValue hk hv fun n hn => h _ _ hk (hint (intValue?_eq_some.1 hn))
  · next hk =>
    rw [bind_assoc]
    exact .doubleValue hk hv fun x hx => h _ _ hk (hdouble (doubleValue?_eq_some.1 hx))
  · next hk => exact h _ _ hk (.string _)
  · next hk => exact h _ _ hk .true
  · next hk => exact h _ _ hk .false
  · exact .unexpected_bind hv _ _

private theorem const_accepts : Accepts (fun w c => IsConst w c.bare) const := by
  have hzero : IsInt true "0" 0 := intValue?_eq_some.1 (by decide)
  refine .spanned (.take ⟨⟨[.intLiteral "0"], fun _ => ⟨.int 0, .blank⟩, fun _ => .int (.negative hzero)⟩, fun p => ?_⟩
    ⟨⟨[.keyword .trueKw], fun _ => ⟨.bool true, .blank⟩, fun _ => .true⟩, fun p => ?_⟩)
  · refine constValue_acceptsAt ⟨[.intLiteral "0"], fun _ => ⟨.int 0, .blank⟩, fun _ => .int (.negative hzero)⟩
      fun k v hk hc => ?_
    exact .advance hk (.pure fun _ => hc)
  · refine constValue_acceptsAt ⟨[.keyword .trueKw], fun _ => ⟨.bool true, .blank⟩, fun _ => .true⟩
      fun k v hk hc => ?_
    exact .advance hk (.pure fun _ => hc)

private theorem constsFrom_accepts (fuel : Nat) :
    Accepts (fun w cs => Repeated (AfterComma IsConst) w (cs.map Const.bare)) (constsFrom fuel) := by
  induction fuel with
  | zero => exact .exhausted ⟨[], [], .nil⟩
  | succ fuel ih =>
    refine .take (const_accepts.bind fun c w hc => ih.map fun cs w' hcs => ?_) (.pure .nil)
    exact .cons (w := .symbol .comma :: w) ⟨w, rfl, hc⟩ hcs

private theorem caseRange_accepts : Accepts (fun w b => ∀ s, IsComparator w (b s).bare) caseRange := by
  refine .keyword fun _ => .symbol fun _ => intConst_accepts.bind fun lo w hlo => ?_
  refine .symbol fun _ => intConst_accepts.bind fun hi w' hhi => .symbol fun _ => .pure fun _ => ?_
  exact .range hlo hhi

private theorem comparator_accepts : Accepts (fun w c => IsComparator w c.bare) comparator := by
  have hv : Viable (fun w (c : Comparator) => IsComparator w c.bare) [] :=
    ⟨[.keyword .trueKw], .const ⟨.bool true, .blank⟩, .const .true⟩
  refine .peek hv fun p => ?_
  split
  · exact (Accepts.spanned caseRange_accepts).acceptsAt p
  · refine (const_accepts.bind fun first w hfirst => .rounds fun n => ?_).acceptsAt p
    refine (constsFrom_accepts n).bind fun others w' hothers => ?_
    split
    · cases hothers
      exact .pure (by simpa using .const hfirst)
    · next hne => exact .pure (by simpa using .oneOf hfirst hothers (by simpa using hne))

private theorem forRange_accepts : Accepts (fun w b => ∀ s, IsIterable w (b s).bare) forRange := by
  refine .keyword fun _ => .symbol fun _ => intConst_accepts.bind fun first w hfirst => ?_
  refine .symbol fun _ => intConst_accepts.bind fun last w' hlast => ?_
  refine .symbol fun _ => intConst_accepts.bind fun step w'' hstep => .symbol fun _ => .pure fun _ => ?_
  exact .range hfirst hlast hstep

/-! ### Statements -/

section Statements

variable {e : Descent Expr} {b : Descent Block}

/-- A list of expressions with its parentheses. -/
private theorem exprs_accept (he : Accepts (fun w e => IsExpr w e.bare) e) :
    Accepts (fun w es => ∃ w', w = .symbol .lparen :: w' ∧ Listed IsExpr w' (es.map Expr.bare)) (list e) := by
  refine (list_accepts he).mono fun w es hes => ?_
  obtain ⟨w', rfl, hes⟩ := hes
  exact ⟨w', rfl, hes.map⟩

private theorem iterable_accepts (he : Accepts (fun w e => IsExpr w e.bare) e) :
    Accepts (fun w i => IsIterable w i.bare) (iterable e) := by
  obtain ⟨w, x, hx⟩ := he.viable
  refine .peek ⟨w, .expr x, .expr hx⟩ fun p => ?_
  split
  · exact (Accepts.spanned forRange_accepts).acceptsAt p
  · exact (he.map fun x w hx => .expr hx).acceptsAt p

private theorem decl_accepts (he : Accepts (fun w e => IsExpr w e.bare) e) (k : Keyword) :
    Accepts (fun w d => IsDecl k w d.bare) (decl e k) := by
  refine .keyword fun _ => .ident fun n => (typeAfter_accepts .colon).bind fun type w htype => ?_
  refine .symbol fun _ => he.bind fun value w' hvalue => .symbol fun _ => .pure ?_
  exact .mk n.name htype hvalue

private theorem printStmt_accepts (he : Accepts (fun w e => IsExpr w e.bare) e) :
    Accepts (fun w b => ∀ s, IsStmt w (b s).bare) (printStmt e) := by
  refine .keyword fun _ => (exprs_accept he).bind fun args w hargs => .symbol fun _ => .pure fun _ => ?_
  obtain ⟨w', rfl, hargs⟩ := hargs
  exact .print hargs

private theorem returnStmt_accepts (he : Accepts (fun w e => IsExpr w e.bare) e) :
    Accepts (fun w b => ∀ s, IsStmt w (b s).bare) (returnStmt e) := by
  refine .keyword fun _ => .take (.pure fun _ => .ret) ?_
  exact he.bind fun value w hvalue => .symbol fun _ => .pure fun _ => .retValue hvalue

private theorem assignStmt_accepts (he : Accepts (fun w e => IsExpr w e.bare) e) :
    Accepts (fun w b => ∀ s, IsStmt w (b s).bare) (assignStmt e) := by
  refine .ident fun n => .symbol fun _ => he.bind fun value w hvalue => .symbol fun _ => .pure fun _ => ?_
  exact .assign n.name hvalue

private theorem callStmt_accepts (he : Accepts (fun w e => IsExpr w e.bare) e) :
    Accepts (fun w b => ∀ s, IsStmt w (b s).bare) (callStmt e) := by
  refine .ident fun f => (exprs_accept he).bind fun args w hargs => .symbol fun _ => .pure fun _ => ?_
  obtain ⟨w', rfl, hargs⟩ := hargs
  exact .call f.name hargs

private theorem forStmt_accepts (he : Accepts (fun w e => IsExpr w e.bare) e)
    (hb : Accepts (fun w b => IsBlock w b.bare) b) : Accepts (fun w b => ∀ s, IsStmt w (b s).bare) (forStmt e b) := by
  refine .keyword fun _ => .ident fun n => .keyword fun _ => (iterable_accepts he).bind fun i w hi => ?_
  exact hb.map fun body w' hbody _ => .forLoop n.name hi hbody

private theorem whileStmt_accepts (he : Accepts (fun w e => IsExpr w e.bare) e)
    (hb : Accepts (fun w b => IsBlock w b.bare) b) : Accepts (fun w b => ∀ s, IsStmt w (b s).bare) (whileStmt e b) :=
  .keyword fun _ => he.bind fun _ _ hcond => hb.map fun _ _ hbody _ => .whileLoop hcond hbody

private theorem ifFrom_accepts (he : Accepts (fun w e => IsExpr w e.bare) e)
    (hb : Accepts (fun w b => IsBlock w b.bare) b) (fuel : Nat) :
    Accepts (fun w b => ∀ s, IsIf w (b s).bare) (ifFrom e b fuel) := by
  induction fuel with
  | zero =>
    obtain ⟨w, c, hc⟩ := he.viable
    obtain ⟨w', body, hbody⟩ := hb.viable
    exact .exhausted ⟨.keyword .ifKw :: (w ++ w'), .ifThen c body, fun _ => .ifThen hc hbody⟩
  | succ fuel ih =>
    refine .keyword fun _ => he.bind fun cond w hcond => hb.bind fun thenBlock w' hthen => ?_
    refine .take (.peek ?_ fun p => ?_) (.pure fun _ => by simpa using .ifThen hcond hthen)
    · obtain ⟨w'', body, hbody⟩ := hb.viable
      exact ⟨w'', .ifElse cond thenBlock body, fun _ => .ifElse hcond hthen hbody⟩
    · split
      · have hinner : Accepts (fun w s => IsIf w s.bare) (spanned (ifFrom e b fuel)) := .spanned ih
        exact (hinner.map fun inner w'' hinner _ => .elseIf hcond hthen hinner).acceptsAt p
      · exact (hb.map fun elseBlock w'' helse _ => .ifElse hcond hthen helse).acceptsAt p

private theorem caseClause_accepts (hb : Accepts (fun w b => IsBlock w b.bare) b) :
    Accepts (fun w c => ∀ s, IsCase w (c s).bare) (caseClause b) := by
  refine .take (comparator_accepts.bind fun c w hc => hb.map fun body w' hbody _ => .case hc hbody) ?_
  refine .take (hb.map fun body w hbody _ => .default hbody) (.unexpected ?_ _)
  obtain ⟨w, body, hbody⟩ := hb.viable
  exact ⟨.keyword .defaultKw :: w, .mk none body, fun _ => .default hbody⟩

private theorem casesFrom_accepts (hb : Accepts (fun w b => IsBlock w b.bare) b) (fuel : Nat) :
    Accepts (fun w cs => ∃ w', w = w' ++ [.symbol .rbrace] ∧ Repeated IsCase w' (bareCases cs)) (casesFrom b fuel) := by
  have hnil : Repeated IsCase [] (bareCases []) := .nil
  induction fuel with
  | zero => exact .exhausted ⟨[.symbol .rbrace], [], [], rfl, hnil⟩
  | succ fuel ih =>
    refine .take (.pure ⟨[], rfl, hnil⟩) ?_
    have hcase : Accepts (fun w c => IsCase w c.bare) (spanned (caseClause b)) := .spanned (caseClause_accepts hb)
    refine hcase.bind fun c w hc => ih.map fun cs w' hcs => ?_
    obtain ⟨w'', rfl, hcs⟩ := hcs
    exact ⟨w ++ w'', by simp, .cons hc hcs⟩

private theorem switchStmt_accepts (he : Accepts (fun w e => IsExpr w e.bare) e)
    (hb : Accepts (fun w b => IsBlock w b.bare) b) :
    Accepts (fun w b => ∀ s, IsStmt w (b s).bare) (switchStmt e b) := by
  refine .keyword fun _ => he.bind fun subject w hsubject => .symbol fun _ => .rounds fun n => ?_
  refine (casesFrom_accepts hb n).map fun cs w' hcs _ => ?_
  obtain ⟨w'', rfl, hcs⟩ := hcs
  exact .switch hsubject hcs

private theorem letItem_accepts (he : Accepts (fun w e => IsExpr w e.bare) e) :
    Accepts (fun w b => ∀ s, ∃ d, (b s).bare = .letDecl d .blank ∧ IsDecl .letKw w d) (letItem e) :=
  (decl_accepts he .letKw).map fun _ _ hd _ => ⟨_, rfl, hd⟩

private theorem stmt_accepts (he : Accepts (fun w e => IsExpr w e.bare) e)
    (hb : Accepts (fun w b => IsBlock w b.bare) b) : Accepts (fun w b => ∀ s, IsStmt w (b s).bare) (stmt e b) := by
  have hv : Viable (fun w (b : Span → Stmt) => ∀ s, IsStmt w (b s).bare) [] := ⟨_, .ret none, fun _ => .ret⟩
  refine .peek hv fun p => ?_
  split
  · refine ((letItem_accepts he).map fun i w hi s => ?_).acceptsAt p
    obtain ⟨d, hd, hdecl⟩ := hi s
    simpa [Stmt.bare, hd] using .letDecl hdecl
  · exact ((decl_accepts he .varKw).map fun d w hd _ => .varDecl hd).acceptsAt p
  · exact (printStmt_accepts he).acceptsAt p
  · exact (returnStmt_accepts he).acceptsAt p
  · exact (forStmt_accepts he hb).acceptsAt p
  · exact (whileStmt_accepts he hb).acceptsAt p
  · have hif : Accepts (fun w b => ∀ s, IsIf w (b s).bare) (ifStmt e b) := .rounds fun n => ifFrom_accepts he hb n
    exact (hif.acceptsAt p).mono fun w s hs span => .branch (hs span)
  · exact (switchStmt_accepts he hb).acceptsAt p
  · apply AcceptsAt.peekSecond
    split
    · exact (assignStmt_accepts he).acceptsAt p
    · exact (callStmt_accepts he).acceptsAt p
  · exact .unexpected hv _

private theorem stmtsFrom_accepts {s : Descent Stmt} (hs : Accepts (fun w s => IsStmt w s.bare) s) (fuel : Nat) :
    Accepts (fun w ss => Repeated IsStmt w (bareStmts ss)) (stmtsFrom s fuel) := by
  have hnil : Repeated IsStmt [] (bareStmts []) := .nil
  induction fuel with
  | zero => exact .exhausted ⟨[], [], hnil⟩
  | succ fuel ih =>
    refine .peek ⟨[], [], hnil⟩ fun p => ?_
    split
    · exact .pure hnil
    · exact (hs.bind fun x w hx => ih.map fun xs w' hxs => .cons hx hxs).acceptsAt p

private theorem block_accepts (he : Accepts (fun w e => IsExpr w e.bare) e) (depth : Nat) :
    Accepts (fun w b => IsBlock w b.bare) (block e depth) := by
  induction depth with
  | zero => exact .exhausted ⟨_, .mk [] .blank, .mk .nil⟩
  | succ depth ih =>
    have hs : Accepts (fun w s => IsStmt w s.bare) (spanned (stmt e (block e depth))) := .spanned (stmt_accepts he ih)
    refine .symbol fun _ => .rounds fun n => ?_
    exact (stmtsFrom_accepts hs n).bind fun ss w hss => .symbol fun _ => .pure (.mk hss)

/-! ### Programs -/

private theorem func_accepts (hb : Accepts (fun w b => IsBlock w b.bare) b) :
    Accepts (fun w i => ∀ s, IsItem w (i s).bare) (func b) := by
  refine .keyword fun _ => .ident fun f => (list_accepts param_accepts).bind fun params w hparams => ?_
  refine (typeAfter_accepts .arrow).bind fun result w' hresult => hb.map fun body w'' hbody _ => ?_
  obtain ⟨w, rfl, hparams⟩ := hparams
  exact .func f.name hparams.map hresult hbody

private theorem item_accepts (he : Accepts (fun w e => IsExpr w e.bare) e)
    (hb : Accepts (fun w b => IsBlock w b.bare) b) : Accepts (fun w i => ∀ s, IsItem w (i s).bare) (item e b) := by
  have hlet : Accepts (fun w i => ∀ s, IsItem w (i s).bare) (letItem e) := by
    refine (letItem_accepts he).mono fun w i hi s => ?_
    obtain ⟨d, hd, hdecl⟩ := hi s
    exact hd ▸ .letDecl hdecl
  refine .peek hlet.viable fun p => ?_
  split
  · exact hlet.acceptsAt p
  · exact (func_accepts hb).acceptsAt p
  · exact .unexpected hlet.viable _

private theorem itemsToEnd_accepts {i : Descent Item} (hi : Accepts (fun w i => IsItem w i.bare) i) (fuel : Nat) :
    Accepts (fun w is => Repeated IsItem w (is.map Item.bare)) (itemsToEnd i fuel) := by
  induction fuel with
  | zero => exact .exhausted ⟨[], [], .nil⟩
  | succ fuel ih =>
    refine .peek ⟨[], [], .nil⟩ fun p => ?_
    split
    · exact .pure .nil
    · exact (hi.bind fun x w hx => ih.map fun xs w' hxs => .cons hx hxs).acceptsAt p

end Statements

/-- A program that is read is one of the grammar, and what is read of another is the beginning of one. -/
theorem program_accepts (depth : Nat) : Accepts (fun w p => IsProgram w p.bare) (program depth) := by
  have hi : Accepts (fun w i => IsItem w i.bare) (spanned (item (expr depth) (block (expr depth) depth))) :=
    .spanned (item_accepts (expr_accepts depth) (block_accepts (expr_accepts depth) depth))
  exact .rounds fun n => (itemsToEnd_accepts hi n).map fun _ _ his => his

end Descent

end Scriptlet
