import Scriptlet.Proofs.Double.Notation
import Scriptlet.Proofs.Grammar.Equivalence

/-!
# Writing programs

`parseProgram_word`: a program that is written as tokens is read back as the same program.

An operand stands in parentheses only where its rank is looser than the operator allows (`Grammar.enclosed`): before an
operator that nests to the left an operand of the same rank is allowed, after it only one of the next tighter rank, and
with `**` it is the other way round, but that only unary expressions stand before it.  The tokens are then derived
by the grammar, each expression at its own rank (`Expr.derives_word`), so that it is what the parser reads.

How a number with a fraction is written is left open.  It is asked only that the text of each number in the program
reads back as the number.
-/

namespace Scriptlet

open Grammar

/-! ### Ranks -/

namespace Rank

/-- The loosest rank of an operand before an operator of the rank. -/
def before : Rank → Rank
  | power => unary
  | r => r

/-- The loosest rank of an operand after an operator of the rank. -/
def after : Rank → Rank
  | logic => relation
  | relation => sum
  | sum => product
  | product => power
  | r => r

/-- The next looser rank. -/
def looser : Rank → Rank
  | logic | relation => logic
  | sum => relation
  | product => sum
  | power => product
  | unary => power
  | primary => unary

private theorem level_looser (r : Rank) : r.looser.level = r.level - 1 := by cases r <;> rfl

private theorem level_injective {r r' : Rank} (h : r.level = r'.level) : r = r' := by
  cases r <;> cases r' <;> first | rfl | cases h

end Rank

/-- The rank at which an expression stands without parentheses. -/
def Expr.rank : Expr → Rank
  | literal .. | name .. | call .. => .primary
  | unary .. => .unary
  | binary op .. => op.rank

namespace Grammar

variable {r r' : Rank} {w w' : Word} {e : Expr}

private theorem Derives.looser (h : Derives r w e) : Derives r.looser w e := by
  cases r with
  | logic => exact h
  | relation => exact .operand .logic h
  | sum => exact .operand .relation h
  | product => exact .operand .sum h
  | power => exact .operand .product h
  | unary => exact .base h
  | primary => exact .primary h

/-- An expression of a rank stands wherever a looser rank is allowed. -/
private theorem Derives.mono (h : Derives r' w e) (hr : r.level ≤ r'.level) : Derives r w e := by
  obtain ⟨n, hn⟩ := Nat.exists_eq_add_of_le hr
  induction n generalizing r' with
  | zero => exact Rank.level_injective hn ▸ h
  | succ n ih =>
    have hl := r'.level_looser
    exact ih h.looser (by omega) (by omega)

/-- A word of the second rank, in parentheses if that is looser than the first. -/
def enclosed (r r' : Rank) (w : Word) : Word :=
  if r.level ≤ r'.level then w else .symbol .lparen :: (w ++ [.symbol .rparen])

private theorem Derives.enclosed (h : Derives r' w e) (r : Rank) : Derives r (enclosed r r' w) e := by
  unfold Grammar.enclosed
  split
  · next hr => exact h.mono hr
  · exact (Derives.parens (h.mono (Nat.zero_le _))).mono (by cases r <;> decide)

/-- An operator between operands that it allows. -/
private theorem Derives.binary {l : Expr} (op : BinaryOp) (hl : Derives op.rank.before w l)
    (he : Derives op.rank.after w' e) : Derives op.rank (w ++ .symbol op.symbol :: w') (.binary op l e .blank) := by
  cases op with
  | and | or => exact .left _ .logic rfl hl he
  | eq | ne | lt | le | gt | ge => exact .left _ .relation rfl hl he
  | add | sub => exact .left _ .sum rfl hl he
  | mul | div => exact .left _ .product rfl hl he
  | pow => exact .pow hl he

end Grammar

/-! ### Numbers and lists -/

namespace Grammar

/-- The digits of an integer, as a token. -/
def digitsToken (n : Int) : TokenKind := .intLiteral (toString n.natAbs)

/-- An integer with its sign. -/
def intWord (n : Int) : Word := if n < 0 then [.symbol .minus, digitsToken n] else [digitsToken n]

private theorem isInt_digits {n : Int} {negative : Bool} (hsign : negative = decide (n < 0)) (h : Fits n) :
    IsInt negative (toString n.natAbs) n := by
  refine ⟨?_, h⟩
  rw [Nat.toString_eq_repr, Nat.toList_repr, Text.digitsValue_toDigits]
  by_cases hn : n < 0
  · rw [hsign, decide_eq_true hn, if_pos rfl]
    omega
  · rw [hsign, decide_eq_false hn, if_neg Bool.false_ne_true]
    omega

private theorem isIntConst_intWord {n : Int} (h : Fits n) : IsIntConst (intWord n) n := by
  unfold intWord
  split
  · next hn => exact .negative (isInt_digits (by simp [hn]) h)
  · next hn => exact .plain (isInt_digits (by simp [hn]) h)

/-- The words with commas between them, and a closing parenthesis. -/
def listed : List Word → Word
  | [] => [.symbol .rparen]
  | [w] => w ++ [.symbol .rparen]
  | w :: w' :: ws => w ++ .symbol .comma :: listed (w' :: ws)

private theorem Listed.cons_listed {α : Type} {Item : Word → α → Prop} {w : Word} {ws : List Word} {x : α} {xs : List α}
    (h : Item w x) (hs : Listed Item (listed ws) xs) (hlength : ws.length = xs.length) :
    Listed Item (listed (w :: ws)) (x :: xs) := by
  cases ws with
  | nil =>
    obtain rfl : xs = [] := List.length_eq_zero_iff.1 hlength.symm
    exact .last h
  | cons w' ws => exact .cons h hs

/-- A list whose items are written one by one. -/
private theorem listed_map {α : Type} {Item : Word → α → Prop} {word : α → Word} {bare : α → α} {xs : List α}
    (h : ∀ x ∈ xs, Item (word x) (bare x)) : Listed Item (listed (xs.map word)) (xs.map bare) := by
  induction xs with
  | nil => exact .nil
  | cons x xs ih =>
    obtain ⟨hx, hxs⟩ := List.forall_mem_cons.1 h
    exact .cons_listed hx (ih hxs) (by simp)

private theorem repeated_flatMap {α : Type} {Item : Word → α → Prop} {word : α → Word} {bare : α → α} {xs : List α}
    (h : ∀ x ∈ xs, Item (word x) (bare x)) : Repeated Item (xs.flatMap word) (xs.map bare) := by
  induction xs with
  | nil => exact .nil
  | cons x xs ih =>
    obtain ⟨hx, hxs⟩ := List.forall_mem_cons.1 h
    exact .cons hx (ih hxs)

end Grammar

section Writing

variable (text : Double → String)

/-! ### Expressions -/

/-- A constant without a sign, as a token. -/
def Literal.token : Literal → TokenKind
  | int n => digitsToken n
  | double x => .floatLiteral (text x)
  | string s => .stringLiteral s
  | bool b => .keyword (if b then .trueKw else .falseKw)

/-- The constants that a token stands for: integers below the limit and numbers whose texts read back. -/
def Literal.Writable : Literal → Prop
  | int n => 0 ≤ n ∧ n < Parser.intLimit
  | double x => IsDouble (text x) x
  | string _ | bool _ => True

/-- The token of a function in an expression, where `input` is a keyword. -/
def calleeToken (name : String) : TokenKind :=
  if name = Keyword.inputKw.text then .keyword .inputKw else .identifier name

mutual

/-- The expression as tokens. -/
def Expr.word : Expr → Word
  | .literal l _ => [l.token text]
  | .name n _ => [.identifier n]
  | .call f args _ => calleeToken f.name :: .symbol .lparen :: listed (Expr.words args)
  | .unary op e _ => .symbol op.symbol :: enclosed .unary e.rank e.word
  | .binary op l r _ =>
    enclosed op.rank.before l.rank l.word ++ .symbol op.symbol :: enclosed op.rank.after r.rank r.word

/-- The expressions as tokens, one by one. -/
def Expr.words : List Expr → List Word
  | [] => []
  | e :: es => e.word :: Expr.words es

end

mutual

/-- All constants of the expression can be written. -/
def Expr.Writable : Expr → Prop
  | .literal l _ => l.Writable text
  | .name _ _ => True
  | .call _ args _ => Expr.AllWritable args
  | .unary _ e _ => e.Writable
  | .binary _ l r _ => l.Writable ∧ r.Writable

/-- All constants of the expressions can be written. -/
def Expr.AllWritable : List Expr → Prop
  | [] => True
  | e :: es => e.Writable ∧ Expr.AllWritable es

end

/-! ### Parts of statements -/

/-- A type after a symbol, if there is one. -/
def typeWord (s : Symbol) : Option TypeName → Word
  | none => []
  | some t => [.symbol s, .keyword t.ty.keyword]

def Param.word (p : Param) : Word := [.identifier p.name.name, .symbol .colon, .keyword p.type.ty.keyword]

/-- A constant of a case, with its sign. -/
def Const.word (c : Const) : Word :=
  match c.literal with
  | .int n => intWord n
  | .double (.finite true m q) => [.symbol .minus, (Literal.double (.finite false m q)).token text]
  | l => [l.token text]

/-- The constants that a case can have. -/
def Const.Writable (c : Const) : Prop :=
  match c.literal with
  | .int n => Fits n
  | .double (.finite true m q) => (Literal.double (.finite false m q)).Writable text
  | l => l.Writable text

/-- What a case matches, as tokens. -/
def Comparator.word : Comparator → Word
  | const c => c.word text
  | oneOf [] => []
  | oneOf (c :: cs) => c.word text ++ cs.flatMap fun c => .symbol .comma :: c.word text
  | range lo hi _ =>
    .keyword .rangeKw :: .symbol .lparen :: (intWord lo ++ .symbol .comma :: (intWord hi ++ [.symbol .rparen]))

/-- A sequence of constants has two of them at least. -/
def Comparator.Writable : Comparator → Prop
  | const c => c.Writable text
  | oneOf cs => 2 ≤ cs.length ∧ ∀ c ∈ cs, c.Writable text
  | range lo hi _ => Fits lo ∧ Fits hi

/-- What a loop runs over, as tokens. -/
def Iterable.word : Iterable → Word
  | range first last step _ =>
    .keyword .rangeKw :: .symbol .lparen ::
      (intWord first ++ .symbol .comma :: (intWord last ++ .symbol .comma :: (intWord step ++ [.symbol .rparen])))
  | expr e => e.word text

def Iterable.Writable : Iterable → Prop
  | range first last step _ => Fits first ∧ Fits last ∧ Fits step
  | expr e => e.Writable text

/-- A declaration after its keyword. -/
def Decl.word (k : Keyword) (d : Decl) : Word :=
  .keyword k :: .identifier d.name.name ::
    (typeWord .colon d.type ++ .symbol .assign :: (d.value.word text ++ [.symbol .semicolon]))

/-! ### Statements -/

mutual

/-- The item as tokens. -/
def Item.word : Item → Word
  | .letDecl d _ => d.word text .letKw
  | .func name params result body _ =>
    .keyword .funcKw :: .identifier name.name :: .symbol .lparen ::
      (listed (params.map Param.word) ++ (typeWord .arrow result ++ body.word))

/-- The statement as tokens. -/
def Stmt.word : Stmt → Word
  | .item i => i.word
  | .varDecl d _ => d.word text .varKw
  | .assign target value _ =>
    .identifier target.name :: .symbol .assign :: (value.word text ++ [.symbol .semicolon])
  | .print args _ => .keyword .printKw :: .symbol .lparen :: (listed (Expr.words text args) ++ [.symbol .semicolon])
  | .ret none _ => [.keyword .returnKw, .symbol .semicolon]
  | .ret (some value) _ => .keyword .returnKw :: (value.word text ++ [.symbol .semicolon])
  | .call callee args _ =>
    .identifier callee.name :: .symbol .lparen :: (listed (Expr.words text args) ++ [.symbol .semicolon])
  | .forLoop var iterable body _ =>
    .keyword .forKw :: .identifier var.name :: .keyword .inKw :: (iterable.word text ++ body.word)
  | .whileLoop cond body _ => .keyword .whileKw :: (cond.word text ++ body.word)
  | .ifThen cond body _ => .keyword .ifKw :: (cond.word text ++ body.word)
  | .ifElse cond body other _ =>
    .keyword .ifKw :: (cond.word text ++ (body.word ++ .keyword .elseKw :: other.word))
  | .switch subject cases _ =>
    .keyword .switchKw :: (subject.word text ++ .symbol .lbrace :: (wordOfCases cases ++ [.symbol .rbrace]))

/-- The block as tokens. -/
def Block.word : Block → Word
  | .mk stmts _ => .symbol .lbrace :: (wordOfStmts stmts ++ [.symbol .rbrace])

/-- The statements as tokens. -/
def wordOfStmts : List Stmt → Word
  | [] => []
  | s :: ss => s.word ++ wordOfStmts ss

/-- The cases as tokens. -/
def wordOfCases : List Case → Word
  | [] => []
  | .mk (some c) body _ :: cs => .keyword .caseKw :: (c.word text ++ body.word) ++ wordOfCases cs
  | .mk none body _ :: cs => .keyword .defaultKw :: body.word ++ wordOfCases cs

end

mutual

/-- All constants can be written, sequences are long enough, and no function is in a block. -/
def Stmt.Writable : Stmt → Prop
  | .item (.letDecl d _) => d.value.Writable text
  | .item (.func _ _ _ _ _) => False
  | .varDecl d _ => d.value.Writable text
  | .assign _ value _ => value.Writable text
  | .print args _ | .call _ args _ => Expr.AllWritable text args
  | .ret value _ => Expr.AllWritable text value.toList
  | .forLoop _ iterable body _ => iterable.Writable text ∧ body.Writable
  | .whileLoop cond body _ | .ifThen cond body _ => cond.Writable text ∧ body.Writable
  | .ifElse cond body other _ => cond.Writable text ∧ body.Writable ∧ other.Writable
  | .switch subject cases _ => subject.Writable text ∧ CasesWritable cases

/-- The block can be written. -/
def Block.Writable : Block → Prop
  | .mk stmts _ => StmtsWritable stmts

/-- The statements can be written. -/
def StmtsWritable : List Stmt → Prop
  | [] => True
  | s :: ss => s.Writable ∧ StmtsWritable ss

/-- The cases can be written. -/
def CasesWritable : List Case → Prop
  | [] => True
  | .mk comparator body _ :: cs => (∀ c ∈ comparator, c.Writable text) ∧ body.Writable ∧ CasesWritable cs

end

def Item.Writable : Item → Prop
  | letDecl d _ => d.value.Writable text
  | func _ _ _ body _ => body.Writable text

/-- The program as tokens. -/
def Program.word (p : Program) : Word := p.items.flatMap (Item.word text)

/-- The program is of the shape that tokens can have. -/
def Program.Writable (p : Program) : Prop := ∀ i ∈ p.items, i.Writable text

end Writing

/-! ### What is written is derived -/

variable {text : Double → String}

private theorem Literal.derives_token {l : Literal} (h : l.Writable text) :
    Derives .primary [l.token text] (.literal l .blank) := by
  cases l with
  | int n =>
    obtain ⟨hlo, hhi⟩ := h
    have hfits : Fits n := ⟨by unfold Parser.intLimit at *; omega, hhi⟩
    exact .int (isInt_digits (by simp [hlo]) hfits)
  | double x => exact .double h
  | string s => exact .string s
  | bool b =>
    cases b with
    | true => exact .true
    | false => exact .false

mutual

/-- An expression is derived at its own rank. -/
theorem Expr.derives_word : (e : Expr) → e.Writable text → Derives e.rank (e.word text) e.bare
  | .literal l _, h => Literal.derives_token h
  | .name n _, _ => .name n
  | .call f args _, h => by
    have hargs := Expr.listed_words args h
    unfold Expr.word calleeToken
    split
    · next hf =>
      have hf' : f.bare = ⟨Keyword.inputKw.text, .blank⟩ := congrArg (fun n : String => (⟨n, .blank⟩ : Ident)) hf
      rw [Expr.bare, hf']
      exact .input hargs
    · exact .call f.name hargs
  | .unary op e _, h => .signed op ((Expr.derives_word e h).enclosed .unary)
  | .binary op l r _, h =>
    .binary op ((Expr.derives_word l h.1).enclosed _) ((Expr.derives_word r h.2).enclosed _)

private theorem Expr.listed_words : (es : List Expr) → Expr.AllWritable text es →
    Listed IsExpr (listed (Expr.words text es)) (Expr.bareList es)
  | [], _ => .nil
  | e :: es, h =>
    .cons_listed ((Expr.derives_word e h.1).mono (Nat.zero_le _)) (Expr.listed_words es h.2) (Expr.length_words es)

private theorem Expr.length_words : (es : List Expr) → (Expr.words text es).length = (Expr.bareList es).length
  | [] => rfl
  | _ :: es => congrArg (· + 1) (Expr.length_words es)

end

private theorem isTypeAfter_typeWord (s : Symbol) (t : Option TypeName) :
    IsTypeAfter s (typeWord s t) (t.map TypeName.bare) := by
  cases t with
  | none => exact .absent
  | some t => exact .present t.ty

private theorem listed_args {args : List Expr} (h : Expr.AllWritable text args) :
    Listed IsExpr (listed (Expr.words text args)) (args.map Expr.bare) :=
  Expr.bareList_eq args ▸ Expr.listed_words args h

private theorem Expr.isExpr_word {e : Expr} (h : e.Writable text) : IsExpr (e.word text) e.bare :=
  (Expr.derives_word e h).mono (Nat.zero_le _)

private theorem Const.isConst_word {c : Const} (h : c.Writable text) : IsConst (c.word text) c.bare := by
  obtain ⟨l, span⟩ := c
  cases l with
  | int n => exact .int (isIntConst_intWord h)
  | double x =>
    match x with
    | .finite true m q => exact .negative h
    | .finite false m q => exact .double h
    | .infinite _ | .nan => exact .double h
  | string s => exact .string s
  | bool b =>
    cases b with
    | true => exact .true
    | false => exact .false

private theorem Comparator.isComparator_word {c : Comparator} (h : c.Writable text) :
    IsComparator (c.word text) c.bare := by
  match c with
  | .const c => exact .const (Const.isConst_word h)
  | .oneOf [] => exact absurd h.1 (by decide)
  | .oneOf [c] => exact absurd h.1 (by simp)
  | .oneOf (c :: c' :: cs) =>
    obtain ⟨hc, hcs⟩ := List.forall_mem_cons.1 h.2
    refine .oneOf (Const.isConst_word hc) (repeated_flatMap fun x hx => ?_) (List.cons_ne_nil _ _)
    exact ⟨_, rfl, Const.isConst_word (hcs x hx)⟩
  | .range lo hi _ => exact .range (isIntConst_intWord h.1) (isIntConst_intWord h.2)

private theorem Iterable.isIterable_word {i : Iterable} (h : i.Writable text) : IsIterable (i.word text) i.bare := by
  cases i with
  | range first last step _ =>
    obtain ⟨hfirst, hlast, hstep⟩ := h
    exact .range (isIntConst_intWord hfirst) (isIntConst_intWord hlast) (isIntConst_intWord hstep)
  | expr e => exact .expr (Expr.isExpr_word h)

private theorem Decl.isDecl_word (k : Keyword) {d : Decl} (h : d.value.Writable text) :
    IsDecl k (d.word text k) d.bare :=
  .mk d.name.name (isTypeAfter_typeWord .colon d.type) (Expr.isExpr_word h)

mutual

private theorem Stmt.isStmt_word : (s : Stmt) → s.Writable text → IsStmt (s.word text) s.bare
  | .item (.letDecl _ _), h => .letDecl (Decl.isDecl_word .letKw h)
  | .varDecl _ _, h => .varDecl (Decl.isDecl_word .varKw h)
  | .assign target _ _, h => .assign target.name (Expr.isExpr_word h)
  | .print _ _, h => .print (listed_args h)
  | .ret none _, _ => .ret
  | .ret (some _) _, h => .retValue (Expr.isExpr_word h.1)
  | .call callee _ _, h => .call callee.name (listed_args h)
  | .forLoop var _ body _, h => .forLoop var.name (Iterable.isIterable_word h.1) (Block.isBlock_word body h.2)
  | .whileLoop _ body _, h => .whileLoop (Expr.isExpr_word h.1) (Block.isBlock_word body h.2)
  | .ifThen _ body _, h => .branch (.ifThen (Expr.isExpr_word h.1) (Block.isBlock_word body h.2))
  | .ifElse _ body other _, h =>
    .branch (.ifElse (Expr.isExpr_word h.1) (Block.isBlock_word body h.2.1) (Block.isBlock_word other h.2.2))
  | .switch _ cases _, h => .switch (Expr.isExpr_word h.1) (repeated_wordOfCases cases h.2)

private theorem Block.isBlock_word : (b : Block) → b.Writable text → IsBlock (b.word text) b.bare
  | .mk stmts _, h => .mk (repeated_wordOfStmts stmts h)

private theorem repeated_wordOfStmts : (ss : List Stmt) → StmtsWritable text ss →
    Repeated IsStmt (wordOfStmts text ss) (bareStmts ss)
  | [], _ => .nil
  | s :: ss, h => .cons (Stmt.isStmt_word s h.1) (repeated_wordOfStmts ss h.2)

private theorem repeated_wordOfCases : (cs : List Case) → CasesWritable text cs →
    Repeated IsCase (wordOfCases text cs) (bareCases cs)
  | [], _ => .nil
  | .mk (some c) body _ :: cs, ⟨hc, hbody, hcs⟩ =>
    .cons (.case (Comparator.isComparator_word (hc c rfl)) (Block.isBlock_word body hbody))
      (repeated_wordOfCases cs hcs)
  | .mk none body _ :: cs, ⟨_, hbody, hcs⟩ =>
    .cons (.default (Block.isBlock_word body hbody)) (repeated_wordOfCases cs hcs)

end

private theorem Item.isItem_word {i : Item} (h : i.Writable text) : IsItem (i.word text) i.bare := by
  cases i with
  | letDecl d _ => exact .letDecl (Decl.isDecl_word .letKw h)
  | func name params result body _ =>
    have hparams : Listed IsParam (listed (params.map Param.word)) (params.map Param.bare) :=
      listed_map fun p _ => .mk p.name.name p.type.ty
    exact .func name.name hparams (isTypeAfter_typeWord .arrow result) (Block.isBlock_word body h)

/-- A program that is written as tokens is read back. -/
theorem parseProgram_word {p : Program} (h : p.Writable text) {tokens : List Token}
    (htokens : tokens.map Token.kind = p.word text) : ∃ q, parseProgram tokens = .ok q ∧ q.bare = p.bare := by
  have hp : IsProgram (p.word text) p.bare := repeated_flatMap fun i hi => Item.isItem_word (h i hi)
  exact Parse.ok_of_isProgram (htokens ▸ hp)

/-- `func f() { switch 2 ** (1 - (3 - 4)) { case -1.5, 2 { } } }` -/
def grouped : Program :=
  let number (n : Int) : Expr := .literal (.int n) .blank
  let sub (l r : Expr) : Expr := .binary .sub l r .blank
  let subject : Expr := .binary .pow (number 2) (sub (number 1) (sub (number 3) (number 4))) .blank
  let cases : Comparator := .oneOf [⟨.double (.finite true 6755399441055744 (-52)), .blank⟩, ⟨.int 2, .blank⟩]
  ⟨[.func ⟨"f", .blank⟩ [] none
    (.mk [.switch subject [.mk (some cases) (.mk [] .blank) .blank] .blank] .blank) .blank]⟩

/-- A program with nested groups and a negative fraction is written and read back. -/
theorem grouped_read_back : ∃ text, grouped.Writable text ∧
    ∃ q, parseProgram ((grouped.word text).map (⟨·, .blank⟩)) = .ok q ∧ q.bare = grouped.bare := by
  have hdouble : IsDouble "1.5" (.finite false 6755399441055744 (-52)) := doubleValue?_eq_some.1 (by decide +kernel)
  have hnumber (n : Int) (hn : 0 ≤ n ∧ n < Parser.intLimit) : (Literal.int n).Writable fun _ => "1.5" := hn
  have hcases : ∀ c ∈ [(⟨.double (.finite true 6755399441055744 (-52)), .blank⟩ : Const), ⟨.int 2, .blank⟩],
      c.Writable fun _ => "1.5" :=
    List.forall_mem_cons.2 ⟨hdouble, List.forall_mem_singleton.2 ⟨by decide, by decide⟩⟩
  have h : grouped.Writable fun _ => "1.5" := by
    refine List.forall_mem_singleton.2 ⟨⟨⟨hnumber 2 ?_, hnumber 1 ?_, hnumber 3 ?_, hnumber 4 ?_⟩, ?_, trivial,
      trivial⟩, trivial⟩
    · decide
    · decide
    · decide
    · decide
    · rintro _ ⟨⟩
      exact ⟨Nat.le_refl _, hcases⟩
  exact ⟨_, h, parseProgram_word h (by rw [List.map_map]; exact List.map_id _)⟩

end Scriptlet
