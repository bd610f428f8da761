import Scriptlet.Proofs.Dump.Places
import Scriptlet.Proofs.Grammar.Equivalence
import Scriptlet.Proofs.Lexical.Spaced
import Scriptlet.Proofs.Readable.Parsed

/-!
# The dump of a program determines it

`dump_eq_iff_shown`: programs that are parsed from texts have the same dump just if they are equal but for the places
that a dump leaves out.  A label of such a program can be read back (`legible_of_parse`): names are words of the text,
constants are readable, and a case that matches one of some constants has at least two.
-/

namespace Scriptlet

open Dump Grammar Lexical

/-! ### Labels that can be read -/

/-- Words are names. -/
private theorem isName_of_isWord {n : String} (h : IsWord n.toList) : IsName n := by
  obtain ⟨c, cs, htext, hc, hcs⟩ := h
  rw [IsName, htext]
  exact List.forall_mem_cons.2 ⟨.inl hc, hcs⟩

/-- The identifiers of the word are names. -/
def Grammar.NamesIn (w : Word) : Prop := ∀ n, .identifier n ∈ w → IsName n

section Names

variable {w w' : Word} {k : TokenKind}

private theorem Grammar.NamesIn.left (h : NamesIn (w ++ w')) : NamesIn w := fun n hn => h n (List.mem_append_left w' hn)

private theorem Grammar.NamesIn.right (h : NamesIn (w ++ w')) : NamesIn w' :=
  fun n hn => h n (List.mem_append_right w hn)

private theorem Grammar.NamesIn.tail (h : NamesIn (k :: w)) : NamesIn w := fun n hn => h n (List.mem_cons_of_mem k hn)

private theorem Grammar.NamesIn.head {n : String} (h : NamesIn (.identifier n :: w)) : IsName n :=
  h n List.mem_cons_self

end Names

/-- All labels can be read. -/
def Dump.Forest.Legible (t : Forest Label) : Prop := t.All Label.Legible

private theorem Dump.Forest.legible_nil : (Forest.nil : Forest Label).Legible := trivial

private theorem Dump.Forest.Legible.line {head : Head} {span : Span} {below next : Forest Label} (h : head.Legible)
    (hbelow : below.Legible) (hnext : next.Legible) : (Forest.tree (.line head span) below next).Legible :=
  ⟨h, hbelow, hnext⟩

private theorem Dump.Forest.Legible.word {kind : Kind} {below next : Forest Label} (hbelow : below.Legible)
    (hnext : next.Legible) : (Forest.tree (.word kind) below next).Legible :=
  ⟨trivial, hbelow, hnext⟩

section Grammar

variable {w : Word} {next : Forest Label}

private theorem isName_input : IsName Keyword.inputKw.text := isName_of_isWord (isWord_keyword .inputKw)

mutual

private theorem legible_of_derives {r : Rank} {w : Word} {e : Expr} {next : Forest Label} (h : Derives r w e)
    (hw : NamesIn w) (hnext : next.Legible) : (e.forest next).Legible := by
  match h with
  | .operand _ h | .base h | .primary h => exact legible_of_derives h hw hnext
  | .parens h => exact legible_of_derives h hw.tail.left hnext
  | .left _ _ _ hl hr | .pow hl hr =>
    have hoperands := legible_of_derives hl hw.left (legible_of_derives hr hw.right.tail Forest.legible_nil)
    exact .line trivial hoperands hnext
  | .signed _ h => exact .line trivial (legible_of_derives h hw.tail Forest.legible_nil) hnext
  | .int _ | .string _ | .true | .false => exact .line trivial Forest.legible_nil hnext
  | .double h => exact .line (Literal.readable_of_doubleValue? (doubleValue?_eq_some.2 h)) Forest.legible_nil hnext
  | .input h => exact .line isName_input (legible_of_listed h hw.tail.tail) hnext
  | .call _ h => exact .line hw.head (legible_of_listed h hw.tail.tail) hnext
  | .name _ => exact .line hw.head Forest.legible_nil hnext

private theorem legible_of_listed {w : Word} {es : List Expr} (h : Listed (Derives .logic) w es) (hw : NamesIn w) :
    (Expr.forestOfList es).Legible := by
  match h with
  | .nil => exact Forest.legible_nil
  | .last h => exact legible_of_derives h hw.left Forest.legible_nil
  | .cons h hs => exact legible_of_derives h hw.left (legible_of_listed hs hw.right.tail)

end

private theorem readable_of_isConst {w : Word} {c : Const} (h : IsConst w c) : c.literal.Readable := by
  cases h with
  | int | string | true | false => trivial
  | double h => exact Literal.readable_of_doubleValue? (doubleValue?_eq_some.2 h)
  | negative h => exact (Literal.readable_of_doubleValue? (doubleValue?_eq_some.2 h)).neg

private theorem readable_of_repeated {w : Word} {cs : List Const} (h : Repeated (AfterComma IsConst) w cs) :
    ∀ c ∈ cs, c.literal.Readable := by
  induction h with
  | nil => simp
  | cons hc _ ih =>
    obtain ⟨w', -, hc⟩ := hc
    exact List.forall_mem_cons.2 ⟨readable_of_isConst hc, ih⟩

private theorem legible_of_isComparator {w : Word} {c : Comparator} (h : IsComparator w c) : c.pattern.Legible := by
  cases h with
  | const h => exact readable_of_isConst h
  | oneOf h hs hne =>
    refine ⟨?_, ?_⟩
    · rw [List.forall_mem_map]
      exact List.forall_mem_cons.2 ⟨readable_of_isConst h, readable_of_repeated hs⟩
    · rw [List.length_map, List.length_cons]
      exact Nat.succ_lt_succ (List.length_pos_iff.2 hne)
  | range => trivial

private theorem legible_of_isIterable {r : Iterable} (h : IsIterable w r) (hw : NamesIn w) (hnext : next.Legible) :
    (r.forest next).Legible := by
  cases h with
  | range => exact .line trivial Forest.legible_nil hnext
  | expr h => exact legible_of_derives h hw hnext

/-- The name of a declaration and its value can be read. -/
private theorem legible_of_isDecl {k : Keyword} {d : Decl} (h : IsDecl k w d) (hw : NamesIn w) :
    IsName d.name.name ∧ (d.value.forest .nil).Legible := by
  cases h with
  | mk n _ he => exact ⟨hw.tail.head, legible_of_derives he hw.tail.tail.right.tail.left Forest.legible_nil⟩

mutual

private theorem legible_of_isStmt {w : Word} {s : Stmt} {next : Forest Label} (h : IsStmt w s) (hw : NamesIn w)
    (hnext : next.Legible) : (s.forest next).Legible := by
  match h with
  | .letDecl h | .varDecl h => exact .line (legible_of_isDecl h hw).1 (legible_of_isDecl h hw).2 hnext
  | .print h => exact .line trivial (legible_of_listed h hw.tail.tail.left) hnext
  | .ret => exact .line trivial Forest.legible_nil hnext
  | .retValue h => exact .line trivial (legible_of_derives h hw.tail.left Forest.legible_nil) hnext
  | .assign _ h => exact .line hw.head (legible_of_derives h hw.tail.tail.left Forest.legible_nil) hnext
  | .call _ h => exact .line hw.head (legible_of_listed h hw.tail.tail.left) hnext
  | .forLoop _ h hb =>
    have hbody := legible_of_isBlock hb hw.tail.tail.tail.right
    exact .line hw.tail.head
      (legible_of_isIterable h hw.tail.tail.tail.left (.word hbody Forest.legible_nil)) hnext
  | .whileLoop h hb =>
    have hbody := legible_of_isBlock hb hw.tail.right
    exact .line trivial (legible_of_derives h hw.tail.left (.word hbody Forest.legible_nil)) hnext
  | .branch h => exact legible_of_isIf h hw hnext
  | .switch h hs =>
    have hcases := legible_of_cases hs hw.tail.right.tail.left
    exact .line trivial (legible_of_derives h hw.tail.left hcases) hnext

private theorem legible_of_isIf {w : Word} {s : Stmt} {next : Forest Label} (h : IsIf w s) (hw : NamesIn w)
    (hnext : next.Legible) : (s.forest next).Legible := by
  match h with
  | .ifThen h hb =>
    have hbody := legible_of_isBlock hb hw.tail.right
    exact .line trivial (legible_of_derives h hw.tail.left (.word hbody Forest.legible_nil)) hnext
  | .ifElse h hb hb' =>
    have hbody := legible_of_isBlock hb hw.tail.right.left
    have hother := legible_of_isBlock hb' hw.tail.right.right.tail
    exact .line trivial (legible_of_derives h hw.tail.left (.word hbody (.word hother Forest.legible_nil))) hnext
  | .elseIf h hb hs =>
    have hbody := legible_of_isBlock hb hw.tail.right.left
    have hother := legible_of_isIf hs hw.tail.right.right.tail Forest.legible_nil
    exact .line trivial (legible_of_derives h hw.tail.left (.word hbody (.word hother Forest.legible_nil))) hnext

private theorem legible_of_isBlock {w : Word} {b : Block} (h : IsBlock w b) (hw : NamesIn w) : b.forest.Legible := by
  match h with
  | .mk hs => exact legible_of_stmts hs hw.tail.left

private theorem legible_of_isCase {w : Word} {c : Case} {cs : List Case} (h : IsCase w c) (hw : NamesIn w)
    (hnext : (forestOfCases cs).Legible) : (forestOfCases (c :: cs)).Legible := by
  match h with
  | .case hc hb => exact .line (legible_of_isComparator hc) (legible_of_isBlock hb hw.tail.right) hnext
  | .default hb => exact .line trivial (legible_of_isBlock hb hw.tail) hnext

private theorem legible_of_stmts {w : Word} {ss : List Stmt} (h : Repeated IsStmt w ss) (hw : NamesIn w) :
    (forestOfStmts ss).Legible := by
  match h with
  | .nil => exact Forest.legible_nil
  | .cons h hs => exact legible_of_isStmt h hw.left (legible_of_stmts hs hw.right)

private theorem legible_of_cases {w : Word} {cs : List Case} (h : Repeated IsCase w cs) (hw : NamesIn w) :
    (forestOfCases cs).Legible := by
  match h with
  | .nil => exact Forest.legible_nil
  | .cons h hs => exact legible_of_isCase h hw.left (legible_of_cases hs hw.right)

end

private theorem names_of_params {params : List Param} (h : Listed IsParam w params) (hw : NamesIn w) :
    ∀ p ∈ signature params, IsName p.1 := by
  have hparam {w : Word} {p : Param} (h : IsParam w p) (hw : NamesIn w) : IsName p.name.name := by
    cases h with
    | mk n ty => exact hw.head
  unfold signature
  rw [List.forall_mem_map]
  induction h with
  | nil => simp
  | last h => exact List.forall_mem_singleton.2 (hparam h hw.left)
  | cons h _ ih => exact List.forall_mem_cons.2 ⟨hparam h hw.left, ih hw.right.tail⟩

private theorem legible_of_isItem {x : Item} (h : IsItem w x) (hw : NamesIn w) (hnext : next.Legible) :
    (x.forest next).Legible := by
  cases h with
  | letDecl h => exact .line (legible_of_isDecl h hw).1 (legible_of_isDecl h hw).2 hnext
  | func f hp _ hb =>
    have hparams := names_of_params hp hw.tail.tail.tail.left
    have hbody := legible_of_isBlock hb hw.tail.tail.tail.right.right
    exact .line ⟨hw.tail.head, hparams⟩ hbody hnext

private theorem legible_of_items {xs : List Item} (h : Repeated IsItem w xs) (hw : NamesIn w) :
    (forestOfItems xs).Legible := by
  induction h with
  | nil => exact Forest.legible_nil
  | cons h _ ih => exact legible_of_isItem h hw.left (ih hw.right)

end Grammar

/-! ### Programs from texts -/

section Texts

variable {src : String} {t : Tokenized} {p : Program}

/-- The identifiers of a text are words of it. -/
private theorem namesIn_of_tokenize (h : tokenize src = .ok t) : NamesIn (t.tokens.map Token.kind) := by
  obtain ⟨gs, hcut, htokens⟩ := isCut_of_tokenize h
  obtain ⟨⟨hplaced, -⟩, -⟩ := @placed_tokensFrom src [] _ gs hcut rfl
  intro n hn
  obtain ⟨k, hk, hkind⟩ := List.mem_map.1 hn
  rw [htokens] at hk
  obtain ⟨u, hu, rfl⟩ := List.mem_map.1 hk
  have hlexeme := (hplaced u hu).2.2
  rw [show u.kind = .identifier n from hkind] at hlexeme
  cases hlexeme with
  | identifier hword => exact isName_of_isWord (String.toList_ofList.symm ▸ hword)

/-- The labels of a program that is parsed from a text can be read. -/
theorem legible_of_parse (ht : tokenize src = .ok t) (hp : parseProgram t.tokens = .ok p) : p.forest.Legible := by
  have hbare : (forestOfItems (p.items.map Item.bare)).Legible :=
    legible_of_items (Parse.isProgram_of_ok hp) (namesIn_of_tokenize ht)
  rw [forestOfItems_bare, Forest.Legible, Forest.all_map] at hbare
  refine hbare.mono fun a ha => ?_
  cases a with
  | word kind => trivial
  | line head span => exact ha

end Texts

/-- Programs that are parsed from texts have the same dump just if they are equal but for the places of names that are
not expressions themselves, of types, of blocks, and of the constants and ranges of cases. -/
theorem dump_eq_iff_shown {src src' : String} {t t' : Tokenized} {p p' : Program} (ht : tokenize src = .ok t)
    (hp : parseProgram t.tokens = .ok p) (ht' : tokenize src' = .ok t') (hp' : parseProgram t'.tokens = .ok p') :
    p.dump = p'.dump ↔ p.shown = p'.shown := by
  constructor
  · intro hdump
    rw [p.dump_eq_render, p'.dump_eq_render] at hdump
    have hforest : p.forest = p'.forest := Forest.render_lines_inj (fun i a ha => Label.plain ha i)
      (fun a b ha hb => Label.text_inj ha hb) (legible_of_parse ht hp) (legible_of_parse ht' hp') hdump
    exact Program.shown_of_forest hforest
  · intro hshown
    rw [p.dump_eq_render, p'.dump_eq_render, ← p.forest_shown, hshown, p'.forest_shown]

/-- `func f ( ) { switch 1 { case first , second { } } } `, by its tokens. -/
private def twoConstants (first second : String) : List TokenKind :=
  [.keyword .funcKw, .identifier "f", .symbol .lparen, .symbol .rparen, .symbol .lbrace, .keyword .switchKw,
    .intLiteral "1", .symbol .lbrace, .keyword .caseKw, .intLiteral first, .symbol .comma, .intLiteral second,
    .symbol .lbrace, .symbol .rbrace, .symbol .rbrace, .symbol .rbrace]

/-- A zero before the first or before the second of two equal constants: the programs differ, but only in places that
are not shown. -/
theorem leading_zero_not_shown : ∃ t p t' p',
    tokenize "func f ( ) { switch 1 { case 01 , 1 { } } } " = .ok t ∧ parseProgram t.tokens = .ok p ∧
    tokenize "func f ( ) { switch 1 { case 1 , 01 { } } } " = .ok t' ∧ parseProgram t'.tokens = .ok p' ∧
    p ≠ p' ∧ p.dump = p'.dump ∧ p.shown = p'.shown := by
  have hspelled : ∀ k ∈ twoConstants "01" "1" ++ twoConstants "1" "01", isSpelled k = true := by decide
  rw [List.forall_mem_append] at hspelled
  have hsrc : "func f ( ) { switch 1 { case 01 , 1 { } } } ".toList = spaced (twoConstants "01" "1") := rfl
  have hsrc' : "func f ( ) { switch 1 { case 1 , 01 { } } } ".toList = spaced (twoConstants "1" "01") := rfl
  obtain ⟨lines, ht⟩ := tokenize_spaced hspelled.1 hsrc
  obtain ⟨lines', ht'⟩ := tokenize_spaced hspelled.2 hsrc'
  obtain ⟨p, p', hp, hp', hne, hdump⟩ : ∃ p p', parseProgram (spacedTokens (twoConstants "01" "1")) = .ok p ∧
      parseProgram (spacedTokens (twoConstants "1" "01")) = .ok p' ∧ p ≠ p' ∧ p.dump = p'.dump :=
    ⟨_, _, rfl, rfl, (fun h => nomatch h), rfl⟩
  exact ⟨_, p, _, p', ht, hp, ht', hp', hne, hdump, (dump_eq_iff_shown ht hp ht' hp').1 hdump⟩

end Scriptlet
