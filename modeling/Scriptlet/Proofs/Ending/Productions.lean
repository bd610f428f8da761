import Scriptlet.Proofs.Ending.Depth

/-!
# Every production ends

`productions_end`: from every place in a token list, whatever checkpoints are open there, every production of the
grammar comes to an end, which is the same under all limits on its depth and its rounds that are greater than the
number of tokens ahead.  If it succeeds it has consumed a token, and a program one for each of its items; and it ends
neither before the place where it began nor after the end of the tokens.  The loops inside productions end in the same
way.
-/

namespace Scriptlet.Parse

open Scriptlet.Parser

variable {α : Type}

/-- How deep expressions and blocks may nest, and how many rounds a loop may take. -/
structure Limits where
  exprs : Nat
  blocks : Nat
  rounds : Nat

/-- Each of the limits is greater than `n`. -/
structure Limits.Exceed (l : Limits) (n : Nat) : Prop where
  exprs : n < l.exprs
  blocks : n < l.blocks
  rounds : n < l.rounds

/-- The productions of the grammar, under the limits that they are given. -/
inductive IsProduction : {α : Type} → (Limits → Parser α) → Prop where
  -- items and statements
  | item : IsProduction fun l => item (expr l.exprs) (block (expr l.exprs) l.blocks)
  | letItem : IsProduction fun l => letItem (expr l.exprs)
  | decl (k : Keyword) : IsProduction fun l => decl (expr l.exprs) k
  | func : IsProduction fun l => func (block (expr l.exprs) l.blocks)
  | param : IsProduction fun _ => param
  | block : IsProduction fun l => block (expr l.exprs) l.blocks
  | stmt : IsProduction fun l => stmt (expr l.exprs) (block (expr l.exprs) l.blocks)
  | printStmt : IsProduction fun l => printStmt (expr l.exprs)
  | returnStmt : IsProduction fun l => returnStmt (expr l.exprs)
  | assignStmt : IsProduction fun l => assignStmt (expr l.exprs)
  | callStmt : IsProduction fun l => callStmt (expr l.exprs)
  | forStmt : IsProduction fun l => forStmt (expr l.exprs) (block (expr l.exprs) l.blocks)
  | iterable : IsProduction fun l => iterable (expr l.exprs)
  | forRange : IsProduction fun _ => forRange
  | whileStmt : IsProduction fun l => whileStmt (expr l.exprs) (block (expr l.exprs) l.blocks)
  | ifStmt : IsProduction fun l => ifStmt (expr l.exprs) (block (expr l.exprs) l.blocks)
  | switchStmt : IsProduction fun l => switchStmt (expr l.exprs) (block (expr l.exprs) l.blocks)
  | caseClause : IsProduction fun l => caseClause (block (expr l.exprs) l.blocks)
  | comparator : IsProduction fun _ => comparator
  | caseRange : IsProduction fun _ => caseRange
  | const : IsProduction fun _ => const
  | intConst : IsProduction fun _ => intConst
  | typeName : IsProduction fun _ => typeName
  | ident : IsProduction fun _ => ident
  -- expressions
  | expr : IsProduction fun l => expr l.exprs
  | wholeExpr : IsProduction fun l => wholeExpr l.exprs
  | logic : IsProduction fun l => logic (expr l.exprs)
  | relation : IsProduction fun l => relation (expr l.exprs)
  | sum : IsProduction fun l => sum (expr l.exprs)
  | product : IsProduction fun l => product (expr l.exprs)
  | power : IsProduction fun l => power (expr l.exprs)
  | unary : IsProduction fun l => unary (expr l.exprs)
  | primary : IsProduction fun l => primary (expr l.exprs)
  | callExpr : IsProduction fun l => callExpr (expr l.exprs)
  | nameExpr : IsProduction fun _ => nameExpr
  -- combinations
  | list {α : Type} {x : Limits → Parser α} (h : IsProduction x) : IsProduction fun l => list (x l)
  | leftAssoc {x : Limits → Parser Expr} (ops : Level) (h : IsProduction x) : IsProduction fun l => leftAssoc ops (x l)
  | orElse {α : Type} {x y : Limits → Parser α} (hx : IsProduction x) (hy : IsProduction y) :
    IsProduction fun l => orElse (x l) (y l)
  | spanned {α : Type} {x : Limits → Parser (Span → α)} (h : IsProduction x) : IsProduction fun l => spanned (x l)

/-- The loops and the other parts of productions, with the least number of tokens that each consumes if it succeeds. -/
inductive IsPart : {α : Type} → (least : Nat) → (Limits → Parser α) → Prop where
  -- loops
  | items {α : Type} {x : Limits → Parser α} (h : IsProduction x) : IsPart 1 fun l => items (x l) l.rounds
  | leftAssocFrom {x : Limits → Parser Expr} (ops : Level) (lhs : Expr) (h : IsProduction x) :
    IsPart 0 fun l => leftAssocFrom ops (x l) l.rounds lhs
  | powerFrom {x : Limits → Parser Expr} (h : IsProduction x) : IsPart 1 fun l => powerFrom (x l) l.rounds
  | unaryFrom {x : Limits → Parser Expr} (h : IsProduction x) : IsPart 1 fun l => unaryFrom (x l) l.rounds
  | constsFrom : IsPart 0 fun l => constsFrom l.rounds
  | ifFrom : IsPart 1 fun l => ifFrom (expr l.exprs) (block (expr l.exprs) l.blocks) l.rounds
  | casesFrom : IsPart 1 fun l => casesFrom (block (expr l.exprs) l.blocks) l.rounds
  | stmtsFrom {x : Limits → Parser Stmt} (h : IsProduction x) : IsPart 0 fun l => stmtsFrom (x l) l.rounds
  | itemsToEnd {x : Limits → Parser Item} (h : IsProduction x) : IsPart 0 fun l => itemsToEnd (x l) l.rounds
  -- parts that may be absent, and values of literals that are still ahead
  | typeAfter (s : Symbol) : IsPart 0 fun _ => typeAfter s
  | separator : IsPart 0 fun _ => separator
  | intValue (negative : Bool) (text : String) : IsPart 0 fun _ => intValue negative text
  | doubleValue (text : String) : IsPart 0 fun _ => doubleValue text
  | constValue (negative : Bool) : IsPart 0 fun _ => constValue negative

/-- The parser has come to an end at a place of the tokens that is not before `i`.  If it has succeeded, that is
`least` tokens further on, or more. -/
inductive Ended (ts : List Token) (i : Nat) (least : α → Nat) : EStateM.Result Stop State α → Prop where
  | ok {a : α} {t : State} {j : Nat} (hleast : i + least a ≤ j) (hj : j ≤ ts.length)
    (ht : t.position = (Position.start ts).skip j) : Ended ts i least (.ok a t)
  | error {e : Located ParseError} {t : State} {j : Nat} (hi : i ≤ j) (hj : j ≤ ts.length)
    (ht : t.position = (Position.start ts).skip j) : Ended ts i least (.error (.error e) t)

/-- From the state `s` at place `i` the parser ends, in one way under all limits that exceed the number of tokens
ahead. -/
def EndsFrom (ts : List Token) (i : Nat) (s : State) (least : α → Nat) (x : Limits → Parser α) : Prop :=
  ∃ outcome, Ended ts i least outcome ∧ ∀ l : Limits, l.Exceed (ts.length - i) → x l s = outcome

/-! ### Productions and their parts -/

/-- Under all limits a success of the parser leaves `least` tokens less, and under limits that are great enough the
parser ends alike. -/
structure Terminates (least : Nat) (x : Limits → Parser α) : Prop where
  runs : ∀ l, Runs (x l)
  length_le : ∀ {l s t a}, x l s = .ok a t → t.position.rest.length + least ≤ s.position.rest.length
  endsAlike : ∀ {n l l'}, Limits.Exceed l n → Limits.Exceed l' n → EndsAlike 0 (n + 1) (x l) (x l')

namespace Terminates

private theorem of_runs {x : Limits → Parser α} (hruns : ∀ l, Runs (x l))
    (halike : ∀ {n l l'}, Limits.Exceed l n → Limits.Exceed l' n → EndsAlike 0 (n + 1) (x l) (x l')) :
    Terminates 0 x where
  runs := hruns
  length_le {l} _ _ _ h := (Runs.reaches_of_ok (x := x l) h).length
  endsAlike := halike

private theorem of_consumes {x : Limits → Parser α} (hruns : ∀ l, Runs (x l)) (hconsumes : ∀ l, Consumes 0 (x l))
    (halike : ∀ {n l l'}, Limits.Exceed l n → Limits.Exceed l' n → EndsAlike 0 (n + 1) (x l) (x l')) :
    Terminates 1 x where
  runs := hruns
  length_le {l} _ _ _ h := (hconsumes l).length_lt (Nat.zero_le _) h
  endsAlike := halike

/-- What is asked of a part of a greater parser. -/
private theorem parts {x : Limits → Parser α} (h : Terminates 1 x) : (∀ l, Runs (x l)) ∧ (∀ l, Consumes 0 (x l)) ∧
    ∀ {n l l'}, Limits.Exceed l n → Limits.Exceed l' n → EndsAlike 0 (n + 1) (x l) (x l') :=
  ⟨h.runs, fun _ => ⟨fun _ hok => h.length_le hok⟩, h.endsAlike⟩

end Terminates

section Enough

variable {n : Nat} {l l' : Limits}

private theorem Limits.Exceed.endsAlike_expr (hl : l.Exceed n) (hl' : l'.Exceed n) :
    EndsAlike 0 (n + 1) (expr l.exprs) (expr l'.exprs) := EndsAlike.expr hl.exprs hl'.exprs

private theorem Limits.Exceed.endsAlike_block (hl : l.Exceed n) (hl' : l'.Exceed n) :
    EndsAlike 0 (n + 1) (block (expr l.exprs) l.blocks) (block (expr l'.exprs) l'.blocks) :=
  EndsAlike.block (hl.endsAlike_expr hl') hl.blocks hl'.blocks

end Enough

private theorem IsProduction.terminates {x : Limits → Parser α} (h : IsProduction x) : Terminates 1 x := by
  induction h
  case list ih | leftAssoc ih | spanned ih =>
    obtain ⟨hruns, hconsumes, halike⟩ := ih.parts
    refine .of_consumes (fun _ => inferInstance) (fun _ => inferInstance) fun hl hl' => ?_
    have := halike hl hl'
    infer_instance
  case orElse ihx ihy =>
    obtain ⟨hruns, hconsumes, halike⟩ := ihx.parts
    obtain ⟨hruns', hconsumes', halike'⟩ := ihy.parts
    refine .of_consumes (fun _ => inferInstance) (fun _ => inferInstance) fun hl hl' => ?_
    have := halike hl hl'
    have := halike' hl hl'
    infer_instance
  case wholeExpr =>
    exact .of_consumes (fun _ => inferInstance) (fun _ => inferInstance) fun hl hl' =>
      EndsAlike.wholeExpr hl.exprs hl'.exprs
  case logic | relation | sum | product | power | unary | primary | callExpr =>
    refine .of_consumes (fun _ => inferInstance) (fun _ => inferInstance) fun {n _ _} hl hl' => ?_
    have := hl.endsAlike_expr hl'
    exact EndsAlike.mono (n := n + 2) inferInstance (Nat.le_succ _)
  all_goals
    refine .of_consumes (fun _ => inferInstance) (fun _ => inferInstance) fun hl hl' => ?_
    have := hl.endsAlike_expr hl'
    have := hl.endsAlike_block hl'
    infer_instance

private theorem IsPart.terminates {least : Nat} {x : Limits → Parser α} (h : IsPart least x) : Terminates least x := by
  cases h with
  | items h =>
    obtain ⟨hruns, hconsumes, halike⟩ := h.terminates.parts
    refine .of_consumes (fun _ => inferInstance) (fun _ => inferInstance) fun hl hl' => ?_
    exact EndsAlike.items (halike hl hl') hl.rounds hl'.rounds
  | leftAssocFrom ops lhs h =>
    obtain ⟨hruns, hconsumes, halike⟩ := h.terminates.parts
    refine .of_runs (fun _ => inferInstance) fun hl hl' => ?_
    exact EndsAlike.leftAssocFrom ops lhs (halike hl hl') hl.rounds hl'.rounds
  | powerFrom h =>
    obtain ⟨hruns, hconsumes, halike⟩ := h.terminates.parts
    refine .of_consumes (fun _ => inferInstance) (fun _ => inferInstance) fun hl hl' => ?_
    exact EndsAlike.powerFrom (halike hl hl') hl.rounds hl'.rounds
  | unaryFrom h =>
    obtain ⟨hruns, hconsumes, halike⟩ := h.terminates.parts
    refine .of_consumes (fun _ => inferInstance) (fun _ => inferInstance) fun hl hl' => ?_
    exact EndsAlike.unaryFrom (halike hl hl') hl.rounds hl'.rounds
  | constsFrom =>
    refine .of_runs (fun _ => inferInstance) fun hl hl' => ?_
    exact EndsAlike.constsFrom hl.rounds hl'.rounds
  | ifFrom =>
    refine .of_consumes (fun _ => inferInstance) (fun _ => inferInstance) fun hl hl' => ?_
    exact EndsAlike.ifFrom (hl.endsAlike_expr hl') (hl.endsAlike_block hl') hl.rounds hl'.rounds
  | casesFrom =>
    refine .of_consumes (fun _ => inferInstance) (fun _ => inferInstance) fun hl hl' => ?_
    exact EndsAlike.casesFrom (hl.endsAlike_block hl') hl.rounds hl'.rounds
  | stmtsFrom h =>
    obtain ⟨hruns, hconsumes, halike⟩ := h.terminates.parts
    refine .of_runs (fun _ => inferInstance) fun hl hl' => ?_
    exact EndsAlike.stmtsFrom (halike hl hl') hl.rounds hl'.rounds
  | itemsToEnd h =>
    obtain ⟨hruns, hconsumes, halike⟩ := h.terminates.parts
    refine .of_runs (fun _ => inferInstance) fun hl hl' => ?_
    exact EndsAlike.itemsToEnd (halike hl hl') hl.rounds hl'.rounds
  | typeAfter | separator | intValue | doubleValue | constValue =>
    exact .of_runs (fun _ => inferInstance) fun _ _ => inferInstance

/-! ### Programs -/

/-- Every item of a program has consumed a token. -/
private theorem itemsToEnd_length {i : Parser Item} [Runs i] [hi : Consumes 0 i] {fuel : Nat} {s t : State}
    {is : List Item} (h : itemsToEnd i fuel s = .ok is t) :
    t.position.rest.length + is.length ≤ s.position.rest.length := by
  induction fuel generalizing s is with
  | zero => cases h
  | succ fuel ih =>
    unfold itemsToEnd at h
    rw [peekKind_bind] at h
    split at h
    · cases h
      simp
    · obtain ⟨a, u, hitem, hrest⟩ := exists_of_bind_ok h
      obtain ⟨as, v, hmore, hlast⟩ := exists_of_bind_ok hrest
      cases hlast
      have hlt := hi.length_lt (Nat.zero_le _) hitem
      have hle := ih hmore
      rw [List.length_cons]
      omega

private theorem program_length {depth : Nat} {s t : State} {p : Program} (h : program depth s = .ok p t) :
    t.position.rest.length + p.items.length ≤ s.position.rest.length := by
  unfold program at h
  obtain ⟨_, u, henter, h⟩ := exists_of_bind_ok h
  obtain ⟨k, v, hrounds, h⟩ := exists_of_bind_ok h
  obtain ⟨is, w, hitems, hlast⟩ := exists_of_bind_ok h
  cases hlast
  have hle := itemsToEnd_length hitems
  rwa [Stays.position_eq hrounds, Stays.position_eq henter] at hle

/-! ### Ends -/

variable {ts : List Token} {i : Nat} {s : State} {least : α → Nat}

private theorem Ended.of_runs {x : Parser α} [Runs x] (hi : i ≤ ts.length)
    (hs : s.position = (Position.start ts).skip i) (hends : ∀ t, x s ≠ .error .exhausted t)
    (hleast : ∀ a t, x s = .ok a t → t.position.rest.length + least a ≤ s.position.rest.length) :
    Ended ts i least (x s) := by
  have hlength : s.position.rest.length = ts.length - i := by
    rw [hs, Position.length_skip]
    rfl
  -- a place that is reached from the place `i` has a number
  have hplace {q : Position} (hq : s.position.Reaches 0 q) :
      ∃ j, i ≤ j ∧ j ≤ ts.length ∧ q = (Position.start ts).skip j ∧ q.rest.length = ts.length - j := by
    obtain ⟨n, -, hn, rfl⟩ := hq
    refine ⟨i + n, by omega, by omega, ?_, ?_⟩
    · rw [hs, Position.skip_skip]
    · rw [Position.length_skip]
      omega
  cases hx : x s with
  | ok a t =>
    obtain ⟨j, hij, hj, ht, hrest⟩ := hplace (Runs.reaches_of_ok hx)
    have hle := hleast a t hx
    exact .ok (by omega) hj ht
  | error stop t =>
    cases stop with
    | exhausted => exact absurd hx (hends t)
    | error e =>
      obtain ⟨j, hij, hj, ht, -⟩ := hplace (Runs.reaches_of_error hx)
      exact .error hij hj ht

/-- Limits that exceed the number of tokens ahead by one are enough. -/
private theorem EndsFrom.of_endsAlike {x : Limits → Parser α} (hi : i ≤ ts.length)
    (hs : s.position = (Position.start ts).skip i) (hruns : ∀ l, Runs (x l))
    (hleast : ∀ {l s t a}, x l s = .ok a t → t.position.rest.length + least a ≤ s.position.rest.length)
    (halike : ∀ {n l l'}, Limits.Exceed l n → Limits.Exceed l' n → EndsAlike 0 (n + 1) (x l) (x l')) :
    EndsFrom ts i s least x := by
  have hlt : s.position.rest.length < ts.length - i + 1 := by
    rw [hs, Position.length_skip]
    exact Nat.lt_succ_self _
  let l : Limits := ⟨ts.length - i + 1, ts.length - i + 1, ts.length - i + 1⟩
  have hl : l.Exceed (ts.length - i) := ⟨Nat.lt_succ_self _, Nat.lt_succ_self _, Nat.lt_succ_self _⟩
  refine ⟨x l s, .of_runs hi hs (fun t => ?_) (fun a t => hleast), fun l' hl' => ?_⟩
  · exact (halike hl hl).ends (Nat.zero_le _) hlt
  · exact (halike hl hl').eq (Nat.zero_le _) hlt

/-- From every state of a parse, every production and every part of one ends, alike under all limits that exceed the
number of tokens ahead.  A production that succeeds has consumed a token at least, and a program one for each item. -/
theorem productions_end (ts : List Token) (i : Nat) (hi : i ≤ ts.length) (s : State)
    (hs : s.position = (Position.start ts).skip i) :
    (∀ {α : Type} (x : Limits → Parser α), IsProduction x → EndsFrom ts i s (fun _ => 1) x) ∧
    (∀ {α : Type} (least : Nat) (x : Limits → Parser α), IsPart least x → EndsFrom ts i s (fun _ => least) x) ∧
    EndsFrom ts i s (fun p => p.items.length) fun l => program l.exprs := by
  refine ⟨fun x hx => ?_, fun least x hx => ?_, ?_⟩
  · have ht := hx.terminates
    exact .of_endsAlike hi hs ht.runs ht.length_le ht.endsAlike
  · have ht := hx.terminates
    exact .of_endsAlike hi hs ht.runs ht.length_le ht.endsAlike
  · exact .of_endsAlike hi hs (fun _ => inferInstance) program_length fun hl hl' => .program hl.exprs hl'.exprs

/-- Of `((true` the expression in the inner parentheses, with a choice under way: at the end of the tokens the closing
parenthesis is missed, whatever the limits are. -/
theorem unclosed_parenthesis_ends :
    let ts : List Token := [⟨.symbol .lparen, ⟨0, 1⟩⟩, ⟨.symbol .lparen, ⟨1, 1⟩⟩, ⟨.keyword .trueKw, ⟨2, 4⟩⟩]
    let s := (State.start ts).advance.checkpoint
    s.position = (Position.start ts).skip 1 ∧ IsProduction (fun l => primary (expr l.exprs)) ∧
      ∃ t, t.position = (Position.start ts).skip 3 ∧ ∀ l : Limits, l.Exceed 2 →
        primary (expr l.exprs) s = .error (.error ⟨.empty 6, .unexpectedEof (.symbol .rparen)⟩) t := by
  intro ts s
  obtain ⟨outcome, -, houtcome⟩ := (productions_end ts 1 (by decide) s rfl).1 _ .primary
  have hthree := houtcome ⟨3, 3, 3⟩ ⟨by decide, by decide, by decide⟩
  obtain ⟨t, hrun, ht⟩ : ∃ t, primary (expr 3) s =
      .error (.error ⟨.empty 6, .unexpectedEof (.symbol .rparen)⟩) t ∧ t.position = (Position.start ts).skip 3 :=
    ⟨_, rfl, rfl⟩
  exact ⟨rfl, .primary, t, ht, fun l hl => (houtcome l hl).trans (hthree.symm.trans hrun)⟩

end Scriptlet.Parse
