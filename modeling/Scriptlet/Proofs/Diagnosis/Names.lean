import Scriptlet.Proofs.Diagnosis.Explained
import Scriptlet.Proofs.Grammar.Equivalence
import Scriptlet.Proofs.Lexical.Equivalence
import Scriptlet.Proofs.Typing.Sound

/-!
# Functions of programs from texts

`declares_of_parse`: the functions of a program that is parsed from a text are its items, and their names are words of
the text, so that none is the name of an operator or of an action.

The grammar has no functions in blocks (`heads_of_isBlock`), and the name of a function is an identifier.  The names of
the language are keywords or are not words at all (`language_spelling`).
-/

namespace Scriptlet

open Grammar Lexical

/-! ### Functions in words of the grammar -/

mutual

/-- No statement of the grammar has a function in it. -/
private theorem heads_of_isStmt : (s : Stmt) → ∀ w, IsStmt w s.bare → s.heads = []
  | .item (.letDecl _ _), _, _ => rfl
  | .item (.func _ _ _ _ _), _, h => by
    cases h with
    | branch h => cases h
  | .varDecl _ _, _, _ | .assign _ _ _, _, _ | .print _ _, _, _ | .ret _ _, _, _ | .call _ _ _, _, _ => rfl
  | .forLoop _ _ body _, _, h => by
    cases h with
    | forLoop _ _ hb => exact heads_of_isBlock body _ hb
    | branch h => cases h
  | .whileLoop _ body _, _, h => by
    cases h with
    | whileLoop _ hb => exact heads_of_isBlock body _ hb
    | branch h => cases h
  | .ifThen _ body _, _, h => by
    cases h with
    | branch h =>
      cases h with
      | ifThen _ hb => exact heads_of_isBlock body _ hb
  | .ifElse _ body (.mk [] _) _, _, h => by
    cases h with
    | branch h =>
      cases h with
      | ifElse _ hb _ => exact List.append_eq_nil_iff.2 ⟨heads_of_isBlock body _ hb, rfl⟩
  -- the only statement may be that of an `else if`
  | .ifElse _ body (.mk [s] span) _, _, h => by
    have hother : body.heads = [] ∧ s.heads = [] := by
      cases h with
      | branch h =>
        cases h with
        | ifElse _ hb hb' =>
          cases hb' with
          | mk hs => cases hs with
            | cons hs _ => exact ⟨heads_of_isBlock body _ hb, heads_of_isStmt s _ hs⟩
        | elseIf _ hb hs => exact ⟨heads_of_isBlock body _ hb, heads_of_isStmt s _ (.branch hs)⟩
    simp [Stmt.heads, Block.heads, headsOfStmts, hother]
  | .ifElse _ body (.mk (s :: s' :: ss) _) _, _, h => by
    cases h with
    | branch h =>
      cases h with
      | ifElse _ hb hb' =>
        cases hb' with
        | mk hs => exact List.append_eq_nil_iff.2 ⟨heads_of_isBlock body _ hb, heads_of_stmts (s :: s' :: ss) _ hs⟩
  | .switch _ cases _, _, h => by
    cases h with
    | switch _ hc => exact heads_of_cases cases _ hc
    | branch h => cases h

/-- A block that is parsed declares no function, as functions are declared at the top level only. -/
theorem heads_of_isBlock : (b : Block) → ∀ w, IsBlock w b.bare → b.heads = []
  | .mk stmts _, _, h => by
    cases h with
    | mk hs => exact heads_of_stmts stmts _ hs

private theorem heads_of_stmts : (ss : List Stmt) → ∀ w, Repeated IsStmt w (bareStmts ss) → headsOfStmts ss = []
  | [], _, _ => rfl
  | s :: ss, _, h => by
    cases h with
    | cons hs hss => simp [headsOfStmts, heads_of_isStmt s _ hs, heads_of_stmts ss _ hss]

private theorem heads_of_cases : (cs : List Case) → ∀ w, Repeated IsCase w (bareCases cs) → headsOfCases cs = []
  | [], _, _ => rfl
  | .mk comparator body _ :: cs, _, h => by
    cases h with
    | cons hc hcs =>
      have hbody : body.heads = [] := by
        cases comparator with
        | none => cases hc with | default hb => exact heads_of_isBlock body _ hb
        | some c => cases hc with | case _ hb => exact heads_of_isBlock body _ hb
      simp [headsOfCases, hbody, heads_of_cases cs _ hcs]

end

/-- The head of an item that is a function. -/
def Item.head? : Item → Option Function
  | .letDecl _ _ => none
  | .func name params result _ _ => some ⟨name.name, signatureOf params result, name.span⟩

/-- In an item of the grammar there is no function but itself, and its name is an identifier. -/
private theorem heads_of_isItem {w : Word} {i : Item} (h : IsItem w i.bare) :
    i.heads = i.head?.toList ∧ ∀ f ∈ i.heads, .identifier f.name ∈ w := by
  cases i with
  | letDecl d span => exact ⟨rfl, by simp [Item.heads]⟩
  | func name params result body span =>
    cases h with
    | func f _ _ hb =>
      have hbody := heads_of_isBlock body _ hb
      refine ⟨by simp [Item.heads, Item.head?, hbody], fun f hf => ?_⟩
      simp only [Item.heads, hbody, List.mem_singleton] at hf
      subst hf
      exact .tail _ (.head _)

/-! ### Names in texts -/

/-- The name is neither one of an operator of the language nor one of an action. -/
def OpName.Free (name : String) : Prop := ¬ OpName.IsBuiltin name ∧ name ∉ OpName.actions

/-- The names of operators and actions are keywords or have characters that are in no word. -/
private theorem language_spelling : ∀ name ∈ OperatorTable.builtinSignatures.map Prod.fst ++ OpName.actions,
    (Keyword.ofText? name).isSome = true ∨ (name.toList.any fun c => !(Text.isAlphabetic c || c.isDigit)) = true := by
  decide

private theorem free_of_isWord {text : List Char} (h : IsWord text) (hk : ∀ k : Keyword, k.text ≠ String.ofList text) :
    OpName.Free (String.ofList text) := by
  have hnot := not_mem_of_isWord language_spelling h hk
  rw [List.mem_append, not_or] at hnot
  refine ⟨fun hbuiltin => hbuiltin ?_, hnot.2⟩
  unfold OperatorTable.signaturesOf
  rw [List.map_eq_nil_iff, List.filter_eq_nil_iff]
  exact fun x hx hname => hnot.1 (List.mem_map.2 ⟨x, hx, of_decide_eq_true hname⟩)

/-- Identifiers of a text are not names of the language. -/
private theorem free_of_tokenize {src : String} {t : Tokenized} (h : tokenize src = .ok t) {name : String}
    (hname : .identifier name ∈ t.tokens.map Token.kind) : OpName.Free name := by
  obtain ⟨gs, hcut, htokens⟩ := isCut_of_tokenize h
  obtain ⟨⟨hplaced, -⟩, -⟩ := @placed_tokensFrom src [] _ gs hcut rfl
  obtain ⟨t, ht, hkind⟩ := List.mem_map.1 hname
  rw [htokens] at ht
  obtain ⟨u, hu, rfl⟩ := List.mem_map.1 ht
  have hlexeme := (hplaced u hu).2.2
  have hkind : u.kind = .identifier name := hkind
  rw [hkind] at hlexeme
  cases hlexeme with
  | identifier hword hk => exact free_of_isWord hword hk

/-! ### Programs -/

/-- The functions of a program are its items, and have names that the language leaves free. -/
structure Program.Declares (p : Program) : Prop where
  flat : ∀ i ∈ p.items, i.heads = i.head?.toList
  free : ∀ f ∈ p.heads, OpName.Free f.name

private theorem declares_of_isProgram {w : Word} {is : List Item} (h : Repeated IsItem w (is.map Item.bare)) :
    ∀ i ∈ is, i.heads = i.head?.toList ∧ ∀ f ∈ i.heads, .identifier f.name ∈ w := by
  induction is generalizing w with
  | nil => simp
  | cons i is ih =>
    cases h with
    | cons hi his =>
      obtain ⟨hflat, hnames⟩ := heads_of_isItem hi
      refine List.forall_mem_cons.2 ⟨⟨hflat, fun f hf => List.mem_append_left _ (hnames f hf)⟩, fun j hj => ?_⟩
      obtain ⟨hflat, hnames⟩ := ih his j hj
      exact ⟨hflat, fun f hf => List.mem_append_right _ (hnames f hf)⟩

/-- What a program that is parsed from a text declares. -/
theorem declares_of_parse {src : String} {t : Tokenized} {p : Program} (ht : tokenize src = .ok t)
    (hp : parseProgram t.tokens = .ok p) : p.Declares := by
  have hitems := declares_of_isProgram (Parse.isProgram_of_ok hp)
  refine ⟨fun i hi => (hitems i hi).1, fun f hf => ?_⟩
  obtain ⟨i, hi, hf⟩ := List.mem_flatMap.1 hf
  exact free_of_tokenize ht ((hitems i hi).2 f hf)

end Scriptlet
