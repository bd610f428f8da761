import Scriptlet.Proofs.Lexical.Spaced
import Scriptlet.Proofs.Spans.Parsed

/-!
# Every node of a tree is where its span says

`parse_exact`: in a parsed text, the span of each node goes from the start of the first token that the node was read
from to the end of the last one.  So the children of a node are inside it, and come one after the other in the order of
the text.

A node is any part of a program that has a span.  It stands over the tokens from one index up to another (`Node.Spans`),
and its children stand over some of these tokens in a row (`Node.Spans.row`).
-/

namespace Scriptlet

open Spans

/-- A part of a program that has a span. -/
inductive Node where
  | item (x : Item)
  | stmt (x : Stmt)
  | block (x : Block)
  | case (x : Case)
  | loopRange (first last step : Int) (span : Span)
  | caseRange (lo hi : Int) (span : Span)
  | const (x : Const)
  | typeName (x : TypeName)
  | ident (x : Ident)
  | expr (x : Expr)

/-! ### Children -/

def Param.nodes (p : Param) : List Node := [.ident p.name, .typeName p.type]

def Decl.nodes (d : Decl) : List Node := .ident d.name :: (d.type.toList.map .typeName ++ [.expr d.value])

def Iterable.node : Iterable → Node
  | .range first last step s => .loopRange first last step s
  | .expr e => .expr e

def Comparator.nodes : Comparator → List Node
  | .const c => [.const c]
  | .oneOf cs => cs.map .const
  | .range lo hi s => [.caseRange lo hi s]

namespace Node

def span : Node → Span
  | item x => x.span
  | stmt x => x.span
  | block x => x.span
  | case x => x.span
  | loopRange _ _ _ s | caseRange _ _ s => s
  | const x => x.span
  | typeName x => x.span
  | ident x => x.span
  | expr x => x.span

/-- The nodes that a node is made of, in the order in which they are written. -/
def children : Node → List Node
  | item (.letDecl d _) => d.nodes
  | item (.func name params result body _) =>
    ident name :: (params.flatMap Param.nodes ++ (result.toList.map typeName ++ [block body]))
  | stmt (.item it) => [item it]
  | stmt (.varDecl d _) => d.nodes
  | stmt (.assign x e _) => [ident x, expr e]
  | stmt (.print args _) => args.map expr
  | stmt (.ret value _) => value.toList.map expr
  | stmt (.call f args _) => ident f :: args.map expr
  | stmt (.forLoop x it body _) => [ident x, it.node, block body]
  | stmt (.whileLoop e body _) | stmt (.ifThen e body _) => [expr e, block body]
  | stmt (.ifElse e body other _) => [expr e, block body, block other]
  | stmt (.switch e cases _) => expr e :: cases.map case
  | block x => x.stmts.map stmt
  | case x => (x.comparator.toList.flatMap Comparator.nodes) ++ [block x.body]
  | expr (.call f args _) => ident f :: args.map expr
  | expr (.unary _ e _) => [expr e]
  | expr (.binary _ a b _) => [expr a, expr b]
  | expr (.literal _ _) | expr (.name _ _) | loopRange .. | caseRange .. | const _ | typeName _ | ident _ => []

/-- An item of a program, or a node below one. -/
inductive Within (p : Program) : Node → Prop where
  | item {it : Item} : it ∈ p.items → Within p (item it)
  | child {x y : Node} : Within p x → y ∈ x.children → Within p y

/-- The node was read from the tokens from the index `i` up to `j`. -/
def Spans (ts : List Token) : Node → Nat → Nat → Prop
  | item x, i, j => x.Spans ts i j
  | stmt x, i, j => x.Spans ts i j
  | block x, i, j => x.Spans ts i j
  | case x, i, j => x.Spans ts i j
  | loopRange first last step s, i, j => (Iterable.range first last step s).Spans ts i j
  | caseRange lo hi s, i, j => (Comparator.range lo hi s).Spans ts i j
  | const x, i, j => x.Spans ts i j
  | typeName x, i, j => x.Spans ts i ∧ j = i + 1
  | ident x, i, j => x.Calls ts i ∧ j = i + 1
  | expr x, i, j => x.Spans ts i j

end Node

/-! ### Nodes in a row -/

section Rows

variable {ts : List Token} {i j k l : Nat} {xs ys : List Node} {α : Type}

private theorem Node.Spans.covers {x : Node} (h : x.Spans ts i j) : x.span.Covers ts i j := by
  cases x with
  | item x => cases x <;> exact h.1
  | stmt x => exact Stmt.Spans.covers h
  | block x => cases x; exact h.1
  | case x =>
    obtain ⟨comparator, body, s⟩ := x
    cases comparator <;> exact h.1
  | loopRange _ _ _ _ | caseRange _ _ _ | const _ => exact h.1
  | typeName _ | ident _ =>
    obtain ⟨h, rfl⟩ := h
    exact h.2
  | expr x => exact Expr.Spans.covers h

/-- The nodes stand one after the other over tokens from `i` up to `j`, with others before, between and after them. -/
inductive Row (ts : List Token) : List Node → Nat → Nat → Prop where
  | nil {i j : Nat} : i ≤ j → Row ts [] i j
  | cons {x : Node} {xs : List Node} {i j k l : Nat} : i ≤ k → x.Spans ts k l → Row ts xs l j → Row ts (x :: xs) i j

namespace Row

private theorem le (h : Row ts xs i j) : i ≤ j := by
  induction h with
  | nil h => exact h
  | cons hik hx _ ih => exact Nat.le_trans hik (Nat.le_trans (Nat.le_of_lt hx.covers.lt) ih)

private theorem widen (h : Row ts xs k l) (hik : i ≤ k) (hlj : l ≤ j) : Row ts xs i j := by
  induction h generalizing i with
  | nil h => exact .nil (Nat.le_trans hik (Nat.le_trans h hlj))
  | cons hk hx _ ih => exact .cons (Nat.le_trans hik hk) hx (ih (Nat.le_refl _) hlj)

private theorem append (h : Row ts xs i k) (h' : Row ts ys k j) : Row ts (xs ++ ys) i j := by
  induction h with
  | nil h => exact h'.widen h (Nat.le_refl j)
  | cons hi hx _ ih => exact .cons hi hx (ih h')

private theorem single {x : Node} (h : x.Spans ts k l) (hik : i ≤ k) (hlj : l ≤ j) : Row ts [x] i j :=
  .cons hik h (.nil hlj)

private theorem whole {x : Node} (h : x.Spans ts i j) : Row ts [x] i j := .single h (Nat.le_refl i) (Nat.le_refl j)

/-- A name before other nodes. -/
private theorem ident {x : Ident} (hik : i ≤ k) (h : x.Calls ts k) (hxs : Row ts xs (k + 1) j) :
    Row ts (.ident x :: xs) i j := .cons hik ⟨h, rfl⟩ hxs

private theorem of_mem {x : Node} (h : Row ts xs i j) (hx : x ∈ xs) : ∃ k l, i ≤ k ∧ l ≤ j ∧ x.Spans ts k l := by
  induction h with
  | nil => cases hx
  | cons hi hx' hrow ih =>
    rcases List.mem_cons.1 hx with rfl | hmem
    · exact ⟨_, _, hi, hrow.le, hx'⟩
    · obtain ⟨k, l, hk, hl, hx⟩ := ih hmem
      exact ⟨k, l, Nat.le_trans hi (Nat.le_trans (Nat.le_of_lt hx'.covers.lt) hk), hl, hx⟩

/-- Nodes in a row come one after the other in the text. -/
private theorem pairwise (h : Row ts xs i j) (hts : Consecutive ts) : xs.Pairwise fun x y => x.span.hi ≤ y.span.lo := by
  induction h with
  | nil => exact .nil
  | cons _ hx hrow ih =>
    refine .cons (fun y hy => ?_) ih
    obtain ⟨k, l, hk, -, hy⟩ := hrow.of_mem hy
    exact hx.covers.hi_le_lo hy.covers hts hk

/-! ### Lists -/

private theorem of_listed {P : α → Nat → Nat → Prop} {f : α → List Node} {as : List α} (h : Listed ts P as i j)
    (hf : ∀ a i j, P a i j → Row ts (f a) i j) : Row ts (as.flatMap f) i j := by
  induction as generalizing i with
  | nil =>
    obtain ⟨-, rfl⟩ := h
    exact .nil (Nat.le_succ i)
  | cons a as ih =>
    obtain ⟨k, l, ha, hsep, has⟩ := h
    exact (hf a i k ha).append ((ih has).widen hsep.le (Nat.le_refl j))

/-- Nodes that stand next to each other. -/
private theorem of_chain {f : α → Node} {P : α → Nat → Nat → Prop} {L : List α → Nat → Nat → Prop}
    (hnil : ∀ i j, L [] i j → j = i) (hcons : ∀ a as i j, L (a :: as) i j → ∃ k, P a i k ∧ L as k j)
    (hf : ∀ a i j, P a i j → (f a).Spans ts i j) {as : List α} (h : L as i j) : Row ts (as.map f) i j := by
  induction as generalizing i with
  | nil => exact .nil (Nat.le_of_eq (hnil i j h).symm)
  | cons a as ih =>
    obtain ⟨k, ha, has⟩ := hcons a as i j h
    exact .cons (Nat.le_refl i) (hf a i k ha) (ih has)

private theorem of_exprs {es : List Expr} (h : Listed ts (Expr.Spans ts) es i j) : Row ts (es.map .expr) i j := by
  rw [List.map_eq_flatMap]
  exact of_listed h fun e i j he => whole (x := .expr e) he

private theorem of_items {its : List Item} (h : Item.ListSpans ts its i j) : Row ts (its.map .item) i j :=
  of_chain (fun _ _ h => h) (fun _ _ _ _ h => h) (fun _ _ _ h => h) h

private theorem of_stmts {ss : List Stmt} (h : Stmt.ListSpans ts ss i j) : Row ts (ss.map .stmt) i j :=
  of_chain (fun _ _ h => h) (fun _ _ _ _ h => h) (fun _ _ _ h => h) h

private theorem of_cases {cs : List Case} (h : Case.ListSpans ts cs i j) : Row ts (cs.map .case) i j :=
  of_chain (fun _ _ h => h) (fun _ _ _ _ h => h) (fun _ _ _ h => h) h

private theorem of_consts {cs : List Const} (h : Consts ts cs i j) : Row ts (cs.map .const) i j := by
  induction cs generalizing i with
  | nil => exact .nil (Nat.le_of_eq h.symm)
  | cons c cs ih =>
    obtain ⟨-, k, hc, hcs⟩ := h
    exact .cons (Nat.le_succ i) hc (ih hcs)

private theorem of_typeAfter {s : Symbol} {t : Option TypeName} (h : TypeAfter ts s t i j) :
    Row ts (t.toList.map .typeName) i j := by
  cases t with
  | none => exact .nil (Nat.le_of_eq h.symm)
  | some t =>
    obtain ⟨-, ht, rfl⟩ := h
    exact single (x := .typeName t) ⟨ht, rfl⟩ (Nat.le_succ i) (Nat.le_refl _)

end Row

/-! ### The children of each node -/

private theorem Spans.Enclosed.within (h : Enclosed ts k l i j) : i ≤ k ∧ l ≤ j := by
  induction h with
  | bare => exact ⟨Nat.le_refl _, Nat.le_refl _⟩
  | parens _ _ _ ih => exact ⟨Nat.le_of_succ_le ih.1, Nat.le_succ_of_le ih.2⟩

private theorem Ident.Spans.calls {x : Ident} (h : x.Spans ts i) : x.Calls ts i := ⟨.inl h.1, h.2⟩

private theorem Param.Spans.row {p : Param} (h : p.Spans ts i j) : Row ts p.nodes i j := by
  obtain ⟨hname, -, htype, rfl⟩ := h
  exact .ident (Nat.le_refl i) hname.calls
    (.single (x := .typeName p.type) ⟨htype, rfl⟩ (by omega) (by omega))

private theorem Decl.Spans.row {d : Decl} {kw : Keyword} (h : d.Spans ts kw i j) : Row ts d.nodes i j := by
  obtain ⟨-, hname, k, l, htype, -, hvalue, -, rfl⟩ := h
  exact .ident (Nat.le_succ i) hname.calls
    ((Row.of_typeAfter htype).append (.single (x := .expr d.value) hvalue (by omega) (by omega)))

private theorem Comparator.Spans.row {c : Comparator} (h : c.Spans ts i j) : Row ts c.nodes i j := by
  match c, h with
  | .const c, h => exact .whole (x := .const c) h
  | .oneOf (c :: cs), ⟨k, hc, hcs⟩ => exact .cons (x := .const c) (Nat.le_refl i) hc (.of_consts hcs)
  | .range lo hi s, h => exact .whole (x := .caseRange lo hi s) h

private theorem Iterable.Spans.node {it : Iterable} (h : it.Spans ts i j) : it.node.Spans ts i j := by
  cases it <;> exact h

private theorem Item.Spans.row {it : Item} (h : it.Spans ts i j) : Row ts (Node.item it).children i j := by
  cases it with
  | letDecl d s => exact Decl.Spans.row h.2
  | func name params result body s =>
    obtain ⟨-, -, hname, -, k, l, hparams, hresult, -, hbody⟩ := h
    have hparams : Row ts (params.flatMap Param.nodes) (i + 3) k := .of_listed hparams fun _ _ _ => Param.Spans.row
    refine .ident (Nat.le_succ i) hname.calls ?_
    exact (hparams.widen (by omega) (Nat.le_refl k)).append
      ((Row.of_typeAfter hresult).append (.whole (x := .block body) hbody))

private theorem Stmt.Spans.row {x : Stmt} (h : x.Spans ts i j) : Row ts (Node.stmt x).children i j := by
  cases x with
  | item it => exact .whole (x := .item it) h
  | varDecl d s => exact Decl.Spans.row h.2
  | assign x e s =>
    obtain ⟨-, hx, -, k, he, -, rfl⟩ := h
    exact .ident (Nat.le_refl i) hx.calls (.single (x := .expr e) he (by omega) (by omega))
  | print args s =>
    obtain ⟨-, -, -, k, hargs, -, rfl⟩ := h
    exact (Row.of_exprs hargs).widen (by omega) (Nat.le_succ k)
  | ret value s =>
    cases value with
    | none =>
      obtain ⟨-, -, -, rfl⟩ := h
      exact .nil (Nat.le_add_right i 2)
    | some e =>
      obtain ⟨-, -, k, he, -, rfl⟩ := h
      exact .single (x := .expr e) he (Nat.le_succ i) (Nat.le_succ k)
  | call f args s =>
    obtain ⟨-, hf, -, k, hargs, -, rfl⟩ := h
    exact .ident (Nat.le_refl i) hf.calls ((Row.of_exprs hargs).widen (by omega) (Nat.le_succ k))
  | forLoop x it body s =>
    obtain ⟨-, -, hx, -, k, hit, -, hbody⟩ := h
    exact .ident (Nat.le_succ i) hx.calls (.cons (by omega) hit.node (.whole (x := .block body) hbody))
  | whileLoop e body s | ifThen e body s =>
    obtain ⟨-, -, k, he, -, hbody⟩ := h
    exact .cons (x := .expr e) (Nat.le_succ i) he (.whole (x := .block body) hbody)
  | ifElse e body other s =>
    obtain ⟨-, -, k, l, he, -, hbody, -, hother⟩ := h
    exact .cons (x := .expr e) (Nat.le_succ i) he (.cons (x := .block body) (Nat.le_refl k) hbody
      (.single (x := .block other) hother (Nat.le_succ l) (Nat.le_refl j)))
  | switch e cases s =>
    obtain ⟨-, -, k, l, he, -, hcases, -, rfl⟩ := h
    exact .cons (x := .expr e) (Nat.le_succ i) he ((Row.of_cases hcases).widen (Nat.le_succ k) (Nat.le_succ l))

private theorem Block.Spans.row {x : Block} (h : x.Spans ts i j) : Row ts (Node.block x).children i j := by
  cases x with
  | mk stmts s =>
    obtain ⟨-, k, l, hstmts, ⟨-, rfl, -, rfl⟩ | ⟨-, -, rfl, rfl⟩⟩ := h
    · exact (Row.of_stmts hstmts).widen (Nat.le_succ i) (Nat.le_succ l)
    · exact Row.of_stmts hstmts

private theorem Case.Spans.row {x : Case} (h : x.Spans ts i j) : Row ts (Node.case x).children i j := by
  obtain ⟨comparator, body, s⟩ := x
  cases comparator with
  | none =>
    obtain ⟨-, -, -, hbody⟩ := h
    exact .single (x := .block body) hbody (Nat.le_succ i) (Nat.le_refl j)
  | some c =>
    obtain ⟨-, -, k, hc, -, hbody⟩ := h
    have hnodes : Row ts ((some c).toList.flatMap Comparator.nodes) (i + 1) k := by
      rw [Option.toList_some, List.flatMap_singleton]
      exact hc.row
    exact (hnodes.widen (Nat.le_succ i) (Nat.le_refl k)).append (.whole (x := .block body) hbody)

private theorem Expr.Spans.row {x : Expr} (h : x.Spans ts i j) : Row ts (Node.expr x).children i j := by
  have hle := Nat.le_of_lt h.covers.lt
  cases x with
  | literal v s | name n s => exact .nil hle
  | call f args s =>
    obtain ⟨-, k, l, hin, hf, -, hargs⟩ := h
    exact .ident hin.within.1 hf
      ((Row.of_exprs (Expr.listSpans_iff.1 hargs)).widen (Nat.le_succ _) hin.within.2)
  | unary op e s =>
    obtain ⟨-, k, l, hin, -, he⟩ := h
    exact .single (x := .expr e) he (Nat.le_succ_of_le hin.within.1) hin.within.2
  | binary op a b s =>
    obtain ⟨-, k, l, m, hin, ha, -, hb⟩ := h
    exact .cons (x := .expr a) hin.within.1 ha (.single (x := .expr b) hb (Nat.le_succ m) hin.within.2)

/-- The children of a node stand in a row over the tokens that the node was read from. -/
theorem Node.Spans.row {x : Node} (h : x.Spans ts i j) : Row ts x.children i j := by
  cases x with
  | item _ => exact Item.Spans.row h
  | stmt _ => exact Stmt.Spans.row h
  | block _ => exact Block.Spans.row h
  | case _ => exact Case.Spans.row h
  | expr _ => exact Expr.Spans.row h
  | loopRange _ _ _ _ | caseRange _ _ _ | const _ | typeName _ | ident _ => exact .nil (Nat.le_of_lt h.covers.lt)

end Rows

/-! ### Programs -/

section Programs

variable {ts : List Token} {p : Program} {x : Node} {i j k l : Nat}

/-- Every node of a program that stands over its tokens was read from some of them. -/
private theorem Node.Within.spans (hp : p.Spans ts) (hx : x.Within p) : ∃ i j, x.Spans ts i j := by
  induction hx with
  | item hit =>
    obtain ⟨k, l, -, -, h⟩ := (Row.of_items hp).of_mem (List.mem_map_of_mem hit)
    exact ⟨k, l, h⟩
  | child _ hy ih =>
    obtain ⟨i, j, h⟩ := ih
    obtain ⟨k, l, -, -, hy⟩ := h.row.of_mem hy
    exact ⟨k, l, hy⟩

/-- Of tokens that follow one another, those between two indices are inside the span over these. -/
private theorem Span.Covers.inside {s s' : Span} (hs : s.Covers ts i j) (hs' : s'.Covers ts k l) (hts : Consecutive ts)
    (hik : i ≤ k) (hlj : l ≤ j) : s.lo ≤ s'.lo ∧ s'.hi ≤ s.hi := by
  obtain ⟨hij, ⟨t, ht, hlo⟩, ⟨u, hu, hhi⟩⟩ := hs
  obtain ⟨hkl, ⟨t', ht', hlo'⟩, ⟨u', hu', hhi'⟩⟩ := hs'
  constructor
  · rcases Nat.lt_or_eq_of_le hik with hlt | rfl
    · have hbefore := hts.hi_le_lo ht ht' hlt
      have hpos : t.span.lo ≤ t.span.hi := Nat.le_add_right _ _
      omega
    · obtain rfl : t = t' := Option.some.inj (ht.symm.trans ht')
      exact Nat.le_of_eq (hlo.trans hlo'.symm)
  · rcases Nat.lt_or_eq_of_le hlj with hlt | rfl
    · have hbefore := hts.hi_le_lo hu' hu (by omega)
      have hpos : u.span.lo ≤ u.span.hi := Nat.le_add_right _ _
      omega
    · obtain rfl : u = u' := Option.some.inj (hu.symm.trans hu')
      exact Nat.le_of_eq (hhi'.trans hhi.symm)

end Programs

/-- The span of each node of the program is exactly over the tokens that the node was read from: from the start of the
first to the end of the last.  The children of a node are inside it; they, and the items of the program, are apart and
in the order of the text. -/
structure Program.IsExact (ts : List Token) (p : Program) : Prop where
  spans : p.Spans ts
  covers : ∀ x, Node.Within p x → ∃ i j, x.Spans ts i j ∧ x.span.Covers ts i j
  inside : ∀ x, Node.Within p x → ∀ y ∈ x.children, x.span.lo ≤ y.span.lo ∧ y.span.hi ≤ x.span.hi
  apart : ∀ x, Node.Within p x → x.children.Pairwise fun y z => y.span.hi ≤ z.span.lo
  items : (p.items.map Node.item).Pairwise fun x y => x.span.hi ≤ y.span.lo

private theorem Program.Spans.isExact {ts : List Token} {p : Program} (hp : p.Spans ts) (hts : Consecutive ts) :
    p.IsExact ts := by
  refine ⟨hp, fun x hx => ?_, fun x hx y hy => ?_, fun x hx => ?_, (Row.of_items hp).pairwise hts⟩
  · obtain ⟨i, j, h⟩ := hx.spans hp
    exact ⟨i, j, h, h.covers⟩
  · obtain ⟨i, j, h⟩ := hx.spans hp
    obtain ⟨k, l, hik, hlj, hy⟩ := h.row.of_mem hy
    exact h.covers.inside hy.covers hts hik hlj
  · obtain ⟨i, j, h⟩ := hx.spans hp
    exact h.row.pairwise hts

/-- Where spans can measure the text, every node of its program is where its span says. -/
theorem parse_exact {src : String} {t : Tokenized} {p : Program} (hlen : src.length ≤ Span.maxLength)
    (ht : tokenize src = .ok t) (hp : parseProgram t.tokens = .ok p) : p.IsExact t.tokens := by
  have hts := consecutive_of_placed hlen (placed_of_tokenize hlen ht)
  exact (parseProgram_spans hts hp).isExact hts

/-- `func f ( ) { if ( ( x ) ) { } else if y { } } `, by its tokens. -/
private def nestedIf : List TokenKind :=
  [.keyword .funcKw, .identifier "f", .symbol .lparen, .symbol .rparen, .symbol .lbrace, .keyword .ifKw,
    .symbol .lparen, .symbol .lparen, .identifier "x", .symbol .rparen, .symbol .rparen, .symbol .lbrace,
    .symbol .rbrace, .keyword .elseKw, .keyword .ifKw, .identifier "y", .symbol .lbrace, .symbol .rbrace,
    .symbol .rbrace]

/-- The condition is from its outermost parenthesis on, and the block after `else` is the inner `if`. -/
theorem nestedIf_exact : "func f ( ) { if ( ( x ) ) { } else if y { } } ".length ≤ Span.maxLength ∧
    ∃ t p e b, tokenize "func f ( ) { if ( ( x ) ) { } else if y { } } " = .ok t ∧
      parseProgram t.tokens = .ok p ∧ p.IsExact t.tokens ∧
      Node.Within p (.expr e) ∧ e.span = ⟨16, 9⟩ ∧ Node.Within p (.block b) ∧ b.span = ⟨35, 8⟩ := by
  have hlen : "func f ( ) { if ( ( x ) ) { } else if y { } } ".length ≤ Span.maxLength := by decide
  have hspelled : ∀ k ∈ nestedIf, Lexical.isSpelled k = true := by decide
  have hsrc : "func f ( ) { if ( ( x ) ) { } else if y { } } ".toList = Lexical.spaced nestedIf := rfl
  obtain ⟨lines, ht⟩ := tokenize_spaced hspelled hsrc
  obtain ⟨f, s, e, b, s', b', s'', hp, he, hb⟩ : ∃ f s e b s' b' s'',
      parseProgram (Lexical.spacedTokens nestedIf) = .ok ⟨[.func f [] none (.mk [.ifElse e b b' s'] s) s'']⟩ ∧
        e.span = ⟨16, 9⟩ ∧ b'.span = ⟨35, 8⟩ := ⟨_, _, _, _, _, _, _, rfl, rfl, rfl⟩
  have hfunc : Node.Within ⟨[.func f [] none (.mk [.ifElse e b b' s'] s) s'']⟩ _ := .item List.mem_cons_self
  have hif : Node.Within ⟨[.func f [] none (.mk [.ifElse e b b' s'] s) s'']⟩ (.stmt (.ifElse e b b' s')) :=
    .child (.child hfunc (List.mem_cons_of_mem _ List.mem_cons_self)) List.mem_cons_self
  refine ⟨hlen, _, _, e, b', ht, hp, parse_exact hlen ht hp, hif.child ?_, he, hif.child ?_, hb⟩
  · exact List.mem_cons_self
  · exact List.mem_cons_of_mem _ (List.mem_cons_of_mem _ List.mem_cons_self)

end Scriptlet
