import Scriptlet.Proofs.Grammar.Derivation
import Scriptlet.Proofs.Lexical.Equivalence

/-!
# The tokens that a tree stands over

`Spans` says of a part of a program that it was read from the tokens from the index `i` up to `j`: its symbols, keywords
and names are these tokens, its own parts stand between them one after the other, and its span goes from the start of
the token `i` to the end of the one before `j` (`Span.Covers`).  The span of an expression includes the parentheses
around it, but what it is made of stands within these (`Spans.Enclosed`).

Where tokens follow one another, spans over later tokens come after those over earlier ones (`Span.Covers.hi_le_lo`),
and the span from the start of one to the end of another covers all tokens between (`Span.Covers.through`).
-/

namespace Scriptlet

/-! ### Tokens -/

/-- No token is empty or ends beyond what a span can measure, and each ends before the next one begins. -/
structure Consecutive (ts : List Token) : Prop where
  pos : ∀ t ∈ ts, 0 < t.span.len
  bounded : ∀ t ∈ ts, t.span.hi ≤ Span.maxLength
  apart : ts.Pairwise fun t u => t.span.hi ≤ u.span.lo

/-- The span goes from the start of the token `i` to the end of the last token before `j`. -/
structure Span.Covers (ts : List Token) (s : Span) (i j : Nat) : Prop where
  lt : i < j
  first : ∃ t, ts[i]? = some t ∧ s.lo = t.span.lo
  last : ∃ t, ts[j - 1]? = some t ∧ s.hi = t.span.hi

section Covers

variable {ts : List Token} {s s' : Span} {t u : Token} {i j k l : Nat}

/-- A token ends before every later one begins. -/
theorem Consecutive.hi_le_lo (h : Consecutive ts) (ht : ts[i]? = some t) (hu : ts[j]? = some u) (hij : i < j) :
    t.span.hi ≤ u.span.lo := by
  obtain ⟨hi, rfl⟩ := List.getElem?_eq_some_iff.1 ht
  obtain ⟨hj, rfl⟩ := List.getElem?_eq_some_iff.1 hu
  exact List.pairwise_iff_getElem.1 h.apart i j hi hj hij

private theorem Consecutive.lo_lt_hi (h : Consecutive ts) (ht : ts[i]? = some t) (hu : ts[j]? = some u) (hij : i ≤ j) :
    t.span.lo < u.span.hi := by
  have htpos := h.pos t (List.mem_of_getElem? ht)
  have hupos := h.pos u (List.mem_of_getElem? hu)
  rcases Nat.lt_or_eq_of_le hij with hlt | rfl
  · have hle := h.hi_le_lo ht hu hlt
    simp only [Span.hi] at hle ⊢
    omega
  · rw [ht] at hu
    cases hu
    exact Nat.lt_add_of_pos_right htpos

namespace Span.Covers

/-- The span of a token covers just this token. -/
theorem of_token (ht : ts[i]? = some t) : t.span.Covers ts i (i + 1) := ⟨Nat.lt_succ_self i, ⟨t, ht, rfl⟩, ⟨t, ht, rfl⟩⟩

/-- A span that covers tokens is not empty, as no token is. -/
theorem lo_lt_hi (hs : s.Covers ts i j) (h : Consecutive ts) : s.lo < s.hi := by
  obtain ⟨t, ht, hlo⟩ := hs.first
  obtain ⟨u, hu, hhi⟩ := hs.last
  rw [hlo, hhi]
  exact h.lo_lt_hi ht hu (Nat.le_sub_one_of_lt hs.lt)

/-- What covers earlier tokens ends before what covers later ones begins. -/
theorem hi_le_lo (hs : s.Covers ts i j) (hs' : s'.Covers ts k l) (h : Consecutive ts) (hjk : j ≤ k) : s.hi ≤ s'.lo := by
  obtain ⟨t, ht, hhi⟩ := hs.last
  obtain ⟨u, hu, hlo⟩ := hs'.first
  have hlt := hs.lt
  rw [hhi, hlo]
  exact h.hi_le_lo ht hu (by omega)

/-- A span through another covers the tokens from the first of the one to the last of the other. -/
theorem through (hs : s.Covers ts i j) (hs' : s'.Covers ts k l) (h : Consecutive ts) (hil : i < l) :
    (s.through s').Covers ts i l := by
  obtain ⟨t, ht, hlo⟩ := hs.first
  obtain ⟨u, hu, hhi⟩ := hs'.last
  have hlt := h.lo_lt_hi ht hu (Nat.le_sub_one_of_lt hil)
  have hbound := h.bounded u (List.mem_of_getElem? hu)
  refine ⟨hil, ⟨t, ht, hlo⟩, ⟨u, hu, ?_⟩⟩
  rw [Span.through, Nat.max_eq_left (by omega), Span.hi_ofBounds (by omega) (by omega), hhi]

end Span.Covers

end Covers

/-- The tokens of a text that spans can measure follow one another. -/
theorem consecutive_of_placed {src : String} {ts : List Token} (hlen : src.length ≤ Span.maxLength)
    (h : Lexical.Placed src ts) : Consecutive ts :=
  ⟨fun t ht => (h.1 t ht).1, fun t ht => Nat.le_trans (h.1 t ht).2.1 hlen, h.2⟩

/-! ### Parts of trees -/

namespace Spans

/-- The token `i` is of this kind. -/
def IsAt (ts : List Token) (i : Nat) (k : TokenKind) : Prop := ts[i]?.map Token.kind = some k

/-- The tokens from `i` up to `j` are those from `k` up to `l` in parentheses, or just these. -/
inductive Enclosed (ts : List Token) (k l : Nat) : Nat → Nat → Prop where
  | bare : Enclosed ts k l k l
  | parens {i j : Nat} : IsAt ts i (.symbol .lparen) → Enclosed ts k l (i + 1) j → IsAt ts j (.symbol .rparen) →
    Enclosed ts k l i (j + 1)

/-- After an item of a list, a comma; or nothing, if the list is closed there. -/
def Separated (ts : List Token) (i j : Nat) : Prop :=
  IsAt ts i (.symbol .comma) ∧ j = i + 1 ∨ IsAt ts i (.symbol .rparen) ∧ j = i

/-- The items of a list after its opening parenthesis. -/
def Listed {α : Type} (ts : List Token) (P : α → Nat → Nat → Prop) : List α → Nat → Nat → Prop
  | [], i, j => IsAt ts i (.symbol .rparen) ∧ j = i + 1
  | x :: xs, i, j => ∃ k l, P x i k ∧ Separated ts k l ∧ Listed ts P xs l j

/-- One token, which a minus may precede. -/
def Signed (ts : List Token) (i j : Nat) : Prop := j = i + 1 ∨ IsAt ts i (.symbol .minus) ∧ j = i + 2

end Spans

open Spans

def Ident.Spans (ts : List Token) (x : Ident) (i : Nat) : Prop :=
  IsAt ts i (.identifier x.name) ∧ x.span.Covers ts i (i + 1)

/-- The name of a function that is called, `input` among them. -/
def Ident.Calls (ts : List Token) (f : Ident) (i : Nat) : Prop :=
  (IsAt ts i (.identifier f.name) ∨ IsAt ts i (.keyword .inputKw) ∧ f.name = Keyword.inputKw.text) ∧
    f.span.Covers ts i (i + 1)

def TypeName.Spans (ts : List Token) (t : TypeName) (i : Nat) : Prop :=
  IsAt ts i (.keyword t.ty.keyword) ∧ t.span.Covers ts i (i + 1)

/-- A type after a symbol, both of which may be absent. -/
def Spans.TypeAfter (ts : List Token) (s : Symbol) : Option TypeName → Nat → Nat → Prop
  | none, i, j => j = i
  | some t, i, j => IsAt ts i (.symbol s) ∧ t.Spans ts (i + 1) ∧ j = i + 2

def Param.Spans (ts : List Token) (p : Param) (i j : Nat) : Prop :=
  p.name.Spans ts i ∧ IsAt ts (i + 1) (.symbol .colon) ∧ p.type.Spans ts (i + 2) ∧ j = i + 3

mutual

def Expr.Spans (ts : List Token) : Expr → Nat → Nat → Prop
  | .literal _ s, i, j => s.Covers ts i j ∧ ∃ k, Enclosed ts k (k + 1) i j
  | .name n s, i, j => s.Covers ts i j ∧ ∃ k, Enclosed ts k (k + 1) i j ∧ IsAt ts k (.identifier n)
  | .call f args s, i, j => s.Covers ts i j ∧ ∃ k l, Enclosed ts k l i j ∧
    f.Calls ts k ∧ IsAt ts (k + 1) (.symbol .lparen) ∧ Expr.ListSpans ts args (k + 2) l
  | .unary op e s, i, j => s.Covers ts i j ∧ ∃ k l, Enclosed ts k l i j ∧
    IsAt ts k (.symbol op.symbol) ∧ e.Spans ts (k + 1) l
  | .binary op a b s, i, j => s.Covers ts i j ∧ ∃ k l m, Enclosed ts k l i j ∧
    a.Spans ts k m ∧ IsAt ts m (.symbol op.symbol) ∧ b.Spans ts (m + 1) l

/-- The arguments of a call, after the opening parenthesis. -/
def Expr.ListSpans (ts : List Token) : List Expr → Nat → Nat → Prop
  | [], i, j => IsAt ts i (.symbol .rparen) ∧ j = i + 1
  | e :: es, i, j => ∃ k l, e.Spans ts i k ∧ Separated ts k l ∧ Expr.ListSpans ts es l j

end

def Const.Spans (ts : List Token) (c : Const) (i j : Nat) : Prop := c.span.Covers ts i j ∧ Signed ts i j

/-- Constants, each after a comma. -/
def Spans.Consts (ts : List Token) : List Const → Nat → Nat → Prop
  | [], i, j => j = i
  | c :: cs, i, j => IsAt ts i (.symbol .comma) ∧ ∃ k, c.Spans ts (i + 1) k ∧ Consts ts cs k j

def Comparator.Spans (ts : List Token) : Comparator → Nat → Nat → Prop
  | .const c, i, j => c.Spans ts i j
  | .oneOf [], _, _ => False
  | .oneOf (c :: cs), i, j => ∃ k, c.Spans ts i k ∧ Consts ts cs k j
  | .range _ _ s, i, j => s.Covers ts i j ∧ IsAt ts i (.keyword .rangeKw) ∧ IsAt ts (i + 1) (.symbol .lparen) ∧
    ∃ k l, Signed ts (i + 2) k ∧ IsAt ts k (.symbol .comma) ∧ Signed ts (k + 1) l ∧ IsAt ts l (.symbol .rparen) ∧
      j = l + 1

def Iterable.Spans (ts : List Token) : Iterable → Nat → Nat → Prop
  | .range _ _ _ s, i, j => s.Covers ts i j ∧ IsAt ts i (.keyword .rangeKw) ∧ IsAt ts (i + 1) (.symbol .lparen) ∧
    ∃ k l m, Signed ts (i + 2) k ∧ IsAt ts k (.symbol .comma) ∧ Signed ts (k + 1) l ∧ IsAt ts l (.symbol .comma) ∧
      Signed ts (l + 1) m ∧ IsAt ts m (.symbol .rparen) ∧ j = m + 1
  | .expr e, i, j => e.Spans ts i j

/-- A declaration that begins with this keyword. -/
def Decl.Spans (ts : List Token) (kw : Keyword) (d : Decl) (i j : Nat) : Prop :=
  IsAt ts i (.keyword kw) ∧ d.name.Spans ts (i + 1) ∧ ∃ k l, TypeAfter ts .colon d.type (i + 2) k ∧
    IsAt ts k (.symbol .assign) ∧ d.value.Spans ts (k + 1) l ∧ IsAt ts l (.symbol .semicolon) ∧ j = l + 1

/-! ### Statements -/

mutual

def Item.Spans (ts : List Token) : Item → Nat → Nat → Prop
  | .letDecl d s, i, j => s.Covers ts i j ∧ d.Spans ts .letKw i j
  | .func name params result body s, i, j => s.Covers ts i j ∧ IsAt ts i (.keyword .funcKw) ∧ name.Spans ts (i + 1) ∧
    IsAt ts (i + 2) (.symbol .lparen) ∧ ∃ k l, Listed ts (Param.Spans ts) params (i + 3) k ∧
      TypeAfter ts .arrow result k l ∧ IsAt ts l (.symbol .lbrace) ∧ body.Spans ts l j

def Stmt.Spans (ts : List Token) : Stmt → Nat → Nat → Prop
  | .item it, i, j => it.Spans ts i j
  | .varDecl d s, i, j => s.Covers ts i j ∧ d.Spans ts .varKw i j
  | .assign x e s, i, j => s.Covers ts i j ∧ x.Spans ts i ∧ IsAt ts (i + 1) (.symbol .assign) ∧
    ∃ k, e.Spans ts (i + 2) k ∧ IsAt ts k (.symbol .semicolon) ∧ j = k + 1
  | .print args s, i, j => s.Covers ts i j ∧ IsAt ts i (.keyword .printKw) ∧ IsAt ts (i + 1) (.symbol .lparen) ∧
    ∃ k, Listed ts (Expr.Spans ts) args (i + 2) k ∧ IsAt ts k (.symbol .semicolon) ∧ j = k + 1
  | .ret none s, i, j => s.Covers ts i j ∧ IsAt ts i (.keyword .returnKw) ∧ IsAt ts (i + 1) (.symbol .semicolon) ∧
    j = i + 2
  | .ret (some e) s, i, j => s.Covers ts i j ∧ IsAt ts i (.keyword .returnKw) ∧
    ∃ k, e.Spans ts (i + 1) k ∧ IsAt ts k (.symbol .semicolon) ∧ j = k + 1
  | .call f args s, i, j => s.Covers ts i j ∧ f.Spans ts i ∧ IsAt ts (i + 1) (.symbol .lparen) ∧
    ∃ k, Listed ts (Expr.Spans ts) args (i + 2) k ∧ IsAt ts k (.symbol .semicolon) ∧ j = k + 1
  | .forLoop x it body s, i, j => s.Covers ts i j ∧ IsAt ts i (.keyword .forKw) ∧ x.Spans ts (i + 1) ∧
    IsAt ts (i + 2) (.keyword .inKw) ∧ ∃ k, it.Spans ts (i + 3) k ∧ IsAt ts k (.symbol .lbrace) ∧ body.Spans ts k j
  | .whileLoop e body s, i, j => s.Covers ts i j ∧ IsAt ts i (.keyword .whileKw) ∧
    ∃ k, e.Spans ts (i + 1) k ∧ IsAt ts k (.symbol .lbrace) ∧ body.Spans ts k j
  | .ifThen e body s, i, j => s.Covers ts i j ∧ IsAt ts i (.keyword .ifKw) ∧
    ∃ k, e.Spans ts (i + 1) k ∧ IsAt ts k (.symbol .lbrace) ∧ body.Spans ts k j
  | .ifElse e body other s, i, j => s.Covers ts i j ∧ IsAt ts i (.keyword .ifKw) ∧
    ∃ k l, e.Spans ts (i + 1) k ∧ IsAt ts k (.symbol .lbrace) ∧ body.Spans ts k l ∧
      IsAt ts l (.keyword .elseKw) ∧ other.Spans ts (l + 1) j
  | .switch e cases s, i, j => s.Covers ts i j ∧ IsAt ts i (.keyword .switchKw) ∧
    ∃ k l, e.Spans ts (i + 1) k ∧ IsAt ts k (.symbol .lbrace) ∧ Case.ListSpans ts cases (k + 1) l ∧
      IsAt ts l (.symbol .rbrace) ∧ j = l + 1

/-- Statements between braces; or, after an `else`, an `if` alone. -/
def Block.Spans (ts : List Token) : Block → Nat → Nat → Prop
  | .mk ss s, i, j => s.Covers ts i j ∧ ∃ k l, Stmt.ListSpans ts ss k l ∧
    (IsAt ts i (.symbol .lbrace) ∧ k = i + 1 ∧ IsAt ts l (.symbol .rbrace) ∧ j = l + 1 ∨
      IsAt ts i (.keyword .ifKw) ∧ ss.length = 1 ∧ k = i ∧ j = l)

/-- Statements, one after the other. -/
def Stmt.ListSpans (ts : List Token) : List Stmt → Nat → Nat → Prop
  | [], i, j => j = i
  | s :: ss, i, j => ∃ k, s.Spans ts i k ∧ Stmt.ListSpans ts ss k j

def Case.Spans (ts : List Token) : Case → Nat → Nat → Prop
  | .mk none body s, i, j => s.Covers ts i j ∧ IsAt ts i (.keyword .defaultKw) ∧ IsAt ts (i + 1) (.symbol .lbrace) ∧
    body.Spans ts (i + 1) j
  | .mk (some c) body s, i, j => s.Covers ts i j ∧ IsAt ts i (.keyword .caseKw) ∧
    ∃ k, c.Spans ts (i + 1) k ∧ IsAt ts k (.symbol .lbrace) ∧ body.Spans ts k j

/-- Cases, one after the other. -/
def Case.ListSpans (ts : List Token) : List Case → Nat → Nat → Prop
  | [], i, j => j = i
  | c :: cs, i, j => ∃ k, c.Spans ts i k ∧ Case.ListSpans ts cs k j

end

/-- Items, one after the other. -/
def Item.ListSpans (ts : List Token) : List Item → Nat → Nat → Prop
  | [], i, j => j = i
  | it :: is, i, j => ∃ k, it.Spans ts i k ∧ Item.ListSpans ts is k j

/-- The program stands over all the tokens. -/
def Program.Spans (ts : List Token) (p : Program) : Prop := Item.ListSpans ts p.items 0 ts.length

/-! ### Spans of parts -/

section Parts

variable {ts : List Token} {i j : Nat}

/-- The span of an expression covers its tokens. -/
theorem Expr.Spans.covers {e : Expr} (h : e.Spans ts i j) : e.span.Covers ts i j := by
  cases e <;> exact h.1

/-- The span of a statement covers its tokens. -/
theorem Stmt.Spans.covers {s : Stmt} (h : s.Spans ts i j) : s.span.Covers ts i j := by
  cases s with
  | item it => cases it <;> exact h.1
  | ret value _ => cases value <;> exact h.1
  | _ => exact h.1

theorem Spans.Separated.le (h : Separated ts i j) : i ≤ j := by
  rcases h with ⟨-, rfl⟩ | ⟨-, rfl⟩ <;> omega

/-- A list has at least the token at its end. -/
theorem Spans.Listed.lt {α : Type} {P : α → Nat → Nat → Prop} {xs : List α} (h : Listed ts P xs i j)
    (hP : ∀ x i j, P x i j → i ≤ j) : i < j := by
  induction xs generalizing i with
  | nil => exact h.2 ▸ Nat.lt_succ_self i
  | cons x xs ih =>
    obtain ⟨k, l, hx, hsep, hxs⟩ := h
    exact Nat.lt_of_le_of_lt (Nat.le_trans (hP x i k hx) hsep.le) (ih hxs)

theorem Param.Spans.le {p : Param} (h : p.Spans ts i j) : i ≤ j := h.2.2.2 ▸ Nat.le_add_right i 3

theorem Spans.TypeAfter.le {s : Symbol} {t : Option TypeName} (h : TypeAfter ts s t i j) : i ≤ j := by
  cases t with
  | none => exact Nat.le_of_eq h.symm
  | some t => exact h.2.2 ▸ Nat.le_add_right i 2

private theorem Spans.Consts.le {cs : List Const} (h : Consts ts cs i j) : i ≤ j := by
  induction cs generalizing i with
  | nil => exact Nat.le_of_eq h.symm
  | cons c cs ih =>
    obtain ⟨-, k, hc, hcs⟩ := h
    exact Nat.le_trans (Nat.le_of_succ_le (Nat.le_of_lt hc.1.lt)) (ih hcs)

theorem Spans.Consts.of_mem {cs : List Const} (h : Consts ts cs i j) : ∀ c ∈ cs, ∃ k l, c.Spans ts k l := by
  induction cs generalizing i with
  | nil => exact List.forall_mem_nil _
  | cons c cs ih =>
    obtain ⟨-, k, hc, hcs⟩ := h
    exact List.forall_mem_cons.2 ⟨⟨i + 1, k, hc⟩, ih hcs⟩

/-- A comparator has at least one token. -/
theorem Comparator.Spans.lt {c : Comparator} (h : c.Spans ts i j) : i < j := by
  match c, h with
  | .const _, h => exact h.1.lt
  | .oneOf (_ :: _), ⟨_, hc, hcs⟩ => exact Nat.lt_of_lt_of_le hc.1.lt hcs.le
  | .range _ _ _, h => exact h.1.lt

/-- What a loop runs over has at least one token. -/
theorem Iterable.Spans.lt {it : Iterable} (h : it.Spans ts i j) : i < j := by
  cases it with
  | range _ _ _ _ => exact h.1.lt
  | expr e => exact (Expr.Spans.covers h).lt

theorem Expr.listSpans_iff {es : List Expr} : Expr.ListSpans ts es i j ↔ Listed ts (Expr.Spans ts) es i j := by
  induction es generalizing i with
  | nil => exact Iff.rfl
  | cons e es ih => simp only [ListSpans, Listed, ih]

/-- An expression that is put in parentheses. -/
theorem Expr.Spans.withSpan {e : Expr} {s : Span} (h : e.Spans ts (i + 1) j) (hopen : IsAt ts i (.symbol .lparen))
    (hclose : IsAt ts j (.symbol .rparen)) (hs : s.Covers ts i (j + 1)) : (e.withSpan s).Spans ts i (j + 1) := by
  cases e with
  | literal _ _ =>
    obtain ⟨-, k, hk⟩ := h
    exact ⟨hs, k, .parens hopen hk hclose⟩
  | name _ _ =>
    obtain ⟨-, k, hk, hrest⟩ := h
    exact ⟨hs, k, .parens hopen hk hclose, hrest⟩
  | call _ _ _ | unary _ _ _ =>
    obtain ⟨-, k, l, hk, hrest⟩ := h
    exact ⟨hs, k, l, .parens hopen hk hclose, hrest⟩
  | binary _ _ _ _ =>
    obtain ⟨-, k, l, m, hk, hrest⟩ := h
    exact ⟨hs, k, l, m, .parens hopen hk hclose, hrest⟩

end Parts

end Scriptlet
