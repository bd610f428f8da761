import Scriptlet.Proofs.Dump.Constants
import Scriptlet.Proofs.Lexical.Segment
import Scriptlet.Proofs.Lexical.Munch

/-!
# What lines say of their nodes

The heads of lines, as data: what a line of a dump says of its node in front of the span.  `Head.eq_of_detail`: a head
that can be read is known by its kind, which is the first word of the line, and by what comes after this word.
-/

namespace Scriptlet

open Lexical

namespace Dump

/-! ### First words -/

/-- The kinds of lines. -/
inductive Kind where
  | literal (ty : Ty)
  | name | call | unary | binary
  | letDecl | varDecl | func | assign | print | ret | forLoop | range | whileLoop | ifThen | switch | case | default
  | body | thenPart | elsePart
  deriving DecidableEq

namespace Kind

/-- The first word of a line.  There are no constants of type `Void`. -/
def text : Kind → String
  | literal .int => "int"
  | literal .double => "float"
  | literal .bool => "bool"
  | literal .string => "string"
  | literal .void => "void"
  | name => "ident"
  | call => "call"
  | unary => "unary"
  | binary => "binary"
  | letDecl => "let"
  | varDecl => "var"
  | func => "func"
  | assign => "assign"
  | print => "print"
  | ret => "return"
  | forLoop => "for"
  | range => "range"
  | whileLoop => "while"
  | ifThen => "if"
  | switch => "switch"
  | case => "case"
  | default => "default"
  | body => "body"
  | thenPart => "then"
  | elsePart => "else"

/-- Every kind. -/
def all : List Kind :=
  Ty.all.map literal ++ [name, call, unary, binary, letDecl, varDecl, func, assign, print, ret, forLoop, range,
    whileLoop, ifThen, switch, case, default, body, thenPart, elsePart]

private theorem find?_all (k : Kind) : all.find? (·.text == k.text) = some k := by
  cases k with
  | literal ty => cases ty <;> rfl
  | _ => rfl

/-- Kinds of nodes are told apart by their words. -/
theorem text_inj {k k' : Kind} (h : k.text = k'.text) : k = k' := by
  have hfind := find?_all k
  rw [h, find?_all k'] at hfind
  exact (Option.some.inj hfind).symm

/-- A kind is one word. -/
theorem text_shape (k : Kind) :
    (∀ c ∈ k.text.toList, ¬c = ' ') ∧ '\n' ∉ k.text.toList ∧ ∃ c cs, k.text.toList = c :: cs := by
  have hall : ∀ c ∈ k.text.toList, ¬c = ' ' ∧ ¬c = '\n' := by
    cases k with
    | literal ty => cases ty <;> exact forall_mem_of_all (by decide)
    | _ => exact forall_mem_of_all (by decide)
  refine ⟨fun c hc => (hall c hc).1, fun hmem => (hall _ hmem).2 rfl, ?_⟩
  cases k with
  | literal ty => cases ty <;> exact ⟨_, _, rfl⟩
  | _ => exact ⟨_, _, rfl⟩

end Kind

/-! ### Heads -/

/-- A type after a mark, or nothing. -/
def markedType (mark : String) : Option Ty → String
  | some ty => mark ++ ty.text
  | none => ""

/-- A parameter with its type. -/
def paramText (p : String × Ty) : String := p.1 ++ ": " ++ p.2.text

/-- What a case matches, without places. -/
inductive Pattern where
  | const (l : Literal)
  | oneOf (ls : List Literal)
  | range (lo hi : Int)

namespace Pattern

def text : Pattern → String
  | const l => l.text
  | oneOf ls => ", ".intercalate (ls.map Literal.text)
  | range lo hi => "range(" ++ toString lo ++ ", " ++ toString hi ++ ")"

/-- The constants are readable, and it is one constant, two or more, or a range. -/
def Legible : Pattern → Prop
  | const l => l.Readable
  | oneOf ls => (∀ l ∈ ls, l.Readable) ∧ 1 < ls.length
  | range _ _ => True

end Pattern

/-- What a line says of its node. -/
inductive Head where
  | literal (l : Literal)
  | name (n : String)
  | call (f : String)
  | unary (op : UnaryOp)
  | binary (op : BinaryOp)
  | letDecl (n : String) (type : Option Ty)
  | varDecl (n : String) (type : Option Ty)
  | func (f : String) (params : List (String × Ty)) (result : Option Ty)
  | assign (target : String)
  | print
  | ret
  | forLoop (var : String)
  | range (first last step : Int)
  | whileLoop
  | ifThen
  | switch
  | case (p : Pattern)
  | default

namespace Head

def kind : Head → Kind
  | literal l => .literal l.ty
  | name _ => .name
  | call _ => .call
  | unary _ => .unary
  | binary _ => .binary
  | letDecl _ _ => .letDecl
  | varDecl _ _ => .varDecl
  | func _ _ _ => .func
  | assign _ => .assign
  | print => .print
  | ret => .ret
  | forLoop _ => .forLoop
  | range _ _ _ => .range
  | whileLoop => .whileLoop
  | ifThen => .ifThen
  | switch => .switch
  | case _ => .case
  | default => .default

/-- What a line says after its first word. -/
def detail? : Head → Option String
  | literal l => some l.text
  | name n | call n | assign n | forLoop n => some n
  | unary op => some op.label
  | binary op => some op.label
  | letDecl n type | varDecl n type => some (n ++ markedType ": " type)
  | func f params result =>
    some (f ++ "(" ++ ", ".intercalate (params.map paramText) ++ ")" ++ markedType " -> " result)
  | range first last step => some (toString first ++ " " ++ toString last ++ " " ++ toString step)
  | case p => some p.text
  | print | ret | whileLoop | ifThen | switch | default => none

/-- A line before its span. -/
def text (h : Head) : String := h.kind.text ++ (h.detail?.map (" " ++ ·)).getD ""

/-- The lines before their spans. -/
theorem text_eq (h : Head) : h.text = match h with
    | .literal l => l.label ++ " " ++ l.text
    | .name n => "ident " ++ n
    | .call f => "call " ++ f
    | .unary op => "unary " ++ op.label
    | .binary op => "binary " ++ op.label
    | .letDecl n type => "let" ++ " " ++ n ++ markedType ": " type
    | .varDecl n type => "var" ++ " " ++ n ++ markedType ": " type
    | .func f params result =>
      "func " ++ f ++ "(" ++ ", ".intercalate (params.map paramText) ++ ")" ++ markedType " -> " result
    | .assign target => "assign " ++ target
    | .print => "print"
    | .ret => "return"
    | .forLoop var => "for " ++ var
    | .range first last step => "range " ++ toString first ++ " " ++ toString last ++ " " ++ toString step
    | .whileLoop => "while"
    | .ifThen => "if"
    | .switch => "switch"
    | .case p => "case " ++ p.text
    | .default => "default" := by
  cases h with
  | literal l => cases l <;> simp [text, kind, detail?, Kind.text, Literal.label, Literal.ty, ← String.append_assoc]
  | _ => simp [text, kind, detail?, Kind.text, ← String.append_assoc]

end Head

/-- The characters of a name are letters and digits. -/
def IsName (n : String) : Prop := ∀ c ∈ n.toList, IsLetter c ∨ IsDigit c

/-- What the line says can be read. -/
def Head.Legible : Head → Prop
  | literal l => l.Readable
  | name n | call n | letDecl n _ | varDecl n _ | assign n | forLoop n => IsName n
  | func f params _ => IsName f ∧ ∀ p ∈ params, IsName p.1
  | case p => p.Legible
  | unary _ | binary _ | print | ret | range _ _ _ | whileLoop | ifThen | switch | default => True

/-! ### Details -/

private theorem notMem_append {s t : String} {c : Char} (hs : c ∉ s.toList) (ht : c ∉ t.toList) :
    c ∉ (s ++ t).toList := by
  rw [String.toList_append]
  exact fun h => (List.mem_append.1 h).elim hs ht

private theorem newline_notMem_int (n : Int) : '\n' ∉ (toString n).toList := fun h =>
  absurd (mem_toString_int h) (by decide)

private theorem IsName.notMem {n : String} (h : IsName n) {c : Char} (hc : ¬(IsLetter c ∨ IsDigit c)) : c ∉ n.toList :=
  fun hmem => hc (h c hmem)

private theorem IsName.forall_ne {n : String} (h : IsName n) {c : Char} (hc : ¬(IsLetter c ∨ IsDigit c)) :
    ∀ x ∈ n.toList, ¬x = c := by
  rintro x hx rfl
  exact h.notMem hc hx

private theorem ty_text_inj {ty ty' : Ty} (h : ty.text = ty'.text) : ty = ty' := by
  have hread := Ty.ofText?_text ty
  rw [h, Ty.ofText?_text] at hread
  exact (Option.some.inj hread).symm

private theorem ty_text_letters (ty : Ty) : ∀ c ∈ ty.text.toList, c ≠ ',' ∧ c ≠ ')' ∧ c ≠ '\n' := by
  cases ty <;> exact forall_mem_of_all (by decide)

private theorem markedType_inj {mark : String} (hmark : mark ≠ "") {type type' : Option Ty}
    (h : markedType mark type = markedType mark type') : type = type' := by
  have hne (ty : Ty) : mark ++ ty.text ≠ "" := fun hempty => hmark (String.append_eq_empty_iff.1 hempty).1
  cases type with
  | none =>
    cases type' with
    | none => rfl
    | some ty' => exact absurd h.symm (hne ty')
  | some ty =>
    cases type' with
    | none => exact absurd h (hne ty)
    | some ty' => rw [ty_text_inj ((String.append_right_inj mark).1 h)]

private theorem newline_notMem_markedType {mark : String} (hmark : '\n' ∉ mark.toList) (type : Option Ty) :
    '\n' ∉ (markedType mark type).toList := by
  cases type with
  | none => exact fun h => nomatch h
  | some ty => exact notMem_append hmark fun h => (ty_text_letters ty _ h).2.2 rfl

/-- A declared name ends at the colon before its type. -/
private theorem declared_inj {n n' : String} (hn : IsName n) (hn' : IsName n') {type type' : Option Ty}
    (h : n ++ markedType ": " type = n' ++ markedType ": " type') : n = n' ∧ type = type' := by
  have hcolon (type : Option Ty) : ∀ c ∈ (markedType ": " type).toList.head?, c = ':' := by
    cases type with
    | none => simp [markedType]
    | some ty =>
      rw [markedType, String.toList_append]
      exact head?_cons_eq
  have hlists := congrArg String.toList h
  rw [String.toList_append, String.toList_append] at hlists
  obtain ⟨hname, htype⟩ := append_inj_of_stop (hn.forall_ne (by decide)) (hn'.forall_ne (by decide)) (hcolon type)
    (hcolon type') hlists
  exact ⟨String.toList_inj.1 hname, markedType_inj (by decide) (String.toList_inj.1 htype)⟩

private theorem toList_paramText (p : String × Ty) :
    (paramText p).toList = p.1.toList ++ ':' :: ' ' :: p.2.text.toList := by
  simp [paramText]

private theorem paramText_separable : Separable (fun p => IsName p.1) paramText := by
  rintro ⟨n, ty⟩ ⟨n', ty'⟩ hn hn' as bs has hbs h
  simp only [toList_paramText, List.append_assoc, List.cons_append] at h
  obtain ⟨hname, hrest⟩ := append_inj_of_stop (IsName.forall_ne hn (by decide)) (IsName.forall_ne hn' (by decide))
    head?_cons_eq head?_cons_eq h
  have htypes : ty.text.toList ++ as = ty'.text.toList ++ bs :=
    List.tail_eq_of_cons_eq (List.tail_eq_of_cons_eq hrest)
  have hcomma (ty : Ty) : ∀ c ∈ ty.text.toList, ¬c = ',' := fun c hc => (ty_text_letters ty c hc).1
  obtain ⟨htype, hafter⟩ := append_inj_of_stop (hcomma ty) (hcomma ty') has hbs htypes
  obtain rfl : n = n' := String.toList_inj.1 hname
  obtain rfl : ty = ty' := ty_text_inj (String.toList_inj.1 htype)
  exact ⟨rfl, hafter⟩

section Signatures

variable {f f' : String} {params params' : List (String × Ty)} {result result' : Option Ty}

private theorem notMem_params (h : ∀ p ∈ params, IsName p.1) {c : Char} (hc : ¬(IsLetter c ∨ IsDigit c))
    (hcomma : c ∉ ", ".toList) (hcolon : c ∉ ": ".toList) (hty : ∀ ty : Ty, c ∉ ty.text.toList) :
    c ∉ (", ".intercalate (params.map paramText)).toList := by
  refine notMem_intercalate hcomma fun p hp => ?_
  rw [paramText, String.toList_append, String.toList_append]
  intro hmem
  rcases List.mem_append.1 hmem with hmem | hmem
  · rcases List.mem_append.1 hmem with hmem | hmem
    · exact (h p hp).notMem hc hmem
    · exact hcolon hmem
  · exact hty p.2 hmem

/-- The name of a function ends at the first parenthesis, and its parameters at the next closing one. -/
private theorem func_inj (hf : IsName f) (hf' : IsName f') (hp : ∀ p ∈ params, IsName p.1)
    (hp' : ∀ p ∈ params', IsName p.1)
    (h : f ++ "(" ++ ", ".intercalate (params.map paramText) ++ ")" ++ markedType " -> " result =
      f' ++ "(" ++ ", ".intercalate (params'.map paramText) ++ ")" ++ markedType " -> " result') :
    f = f' ∧ params = params' ∧ result = result' := by
  have hopen : "(".toList = ['('] := rfl
  have hclose : ")".toList = [')'] := rfl
  have hlists := congrArg String.toList h
  simp only [String.toList_append, hopen, hclose, List.append_assoc, List.singleton_append] at hlists
  obtain ⟨hname, hlists⟩ := append_inj_of_stop (hf.forall_ne (by decide)) (hf'.forall_ne (by decide)) head?_cons_eq
    head?_cons_eq hlists
  have hparens {params : List (String × Ty)} (hp : ∀ p ∈ params, IsName p.1) :
      ∀ c ∈ (", ".intercalate (params.map paramText)).toList, ¬c = ')' := by
    rintro c hc rfl
    exact notMem_params hp (by decide) (by decide) (by decide) (fun ty h => (ty_text_letters ty _ h).2.1 rfl) hc
  obtain ⟨hparams, hresult⟩ := append_inj_of_stop (hparens hp) (hparens hp') head?_cons_eq head?_cons_eq
    (List.tail_eq_of_cons_eq hlists)
  have hne : ∀ p : String × Ty, IsName p.1 → paramText p ≠ "" := by
    intro p _ hempty
    have hlist := congrArg String.toList hempty
    rw [toList_paramText] at hlist
    exact absurd hlist (by simp)
  refine ⟨String.toList_inj.1 hname, ?_, ?_⟩
  · exact intercalate_inj paramText_separable hne hp hp' (String.toList_inj.1 hparams)
  · exact markedType_inj (by decide) (String.toList_inj.1 (List.tail_eq_of_cons_eq hresult))

end Signatures

/-- Integers with a mark between them can be told apart. -/
private theorem int_append_inj {mark : Char} (hmark : ¬(mark.isDigit = true ∨ mark = '-')) {m n : Int}
    {as bs : List Char} (h : (toString m).toList ++ mark :: as = (toString n).toList ++ mark :: bs) :
    m = n ∧ as = bs := by
  have hnot (k : Int) : ∀ c ∈ (toString k).toList, ¬c = mark := by
    rintro c hc rfl
    exact hmark (mem_toString_int hc)
  obtain ⟨hint, hrest⟩ := append_inj_of_stop (hnot m) (hnot n) head?_cons_eq head?_cons_eq h
  exact ⟨toString_int_inj hint, List.tail_eq_of_cons_eq hrest⟩

private theorem range_inj {first last step first' last' step' : Int}
    (h : toString first ++ " " ++ toString last ++ " " ++ toString step =
      toString first' ++ " " ++ toString last' ++ " " ++ toString step') :
    first = first' ∧ last = last' ∧ step = step' := by
  have hspace : " ".toList = [' '] := rfl
  have hlists := congrArg String.toList h
  simp only [String.toList_append, hspace, List.append_assoc, List.singleton_append] at hlists
  obtain ⟨hfirst, hlists⟩ := int_append_inj (by decide) hlists
  obtain ⟨hlast, hlists⟩ := int_append_inj (by decide) hlists
  exact ⟨hfirst, hlast, toString_int_inj hlists⟩

/-! ### Patterns -/

section Patterns

variable {p q : Pattern}

private theorem literal_separable : Separable Literal.Readable Literal.text := fun _ _ ha hb _ _ has hbs h =>
  Literal.text_append_inj ha hb has hbs h

/-- Constants with commas between them. -/
private theorem literals_inj {ls ls' : List Literal} (h : ∀ l ∈ ls, l.Readable) (h' : ∀ l ∈ ls', l.Readable)
    (htext : ", ".intercalate (ls.map Literal.text) = ", ".intercalate (ls'.map Literal.text)) : ls = ls' :=
  intercalate_inj literal_separable (fun _ => Literal.text_ne_empty) h h' htext

private theorem text_const (l : Literal) : (Pattern.const l).text = ", ".intercalate ([l].map Literal.text) := by
  rw [List.map_singleton, String.intercalate_singleton]
  rfl

/-- One constant is no list of two. -/
private theorem const_ne_oneOf {l : Literal} {ls : List Literal} (hl : l.Readable) (hls : (Pattern.oneOf ls).Legible) :
    (Pattern.const l).text ≠ (Pattern.oneOf ls).text := by
  rw [text_const]
  intro h
  obtain rfl : [l] = ls := literals_inj (List.forall_mem_singleton.2 hl) hls.1 h
  exact Nat.lt_irrefl 1 hls.2

/-- Constants do not begin like a range. -/
private theorem literals_ne_range {ls : List Literal} (hls : ∀ l ∈ ls, l.Readable) (lo hi : Int) :
    ", ".intercalate (ls.map Literal.text) ≠ (Pattern.range lo hi).text := by
  intro h
  have hlists := congrArg (fun s : String => s.toList.head?) h
  have hrange : (Pattern.range lo hi).text.toList.head? = some 'r' := by simp [Pattern.text]
  rw [hrange] at hlists
  cases ls with
  | nil => simp at hlists
  | cons l ls =>
    obtain ⟨c, cs, hlist, hc⟩ := Literal.text_shape (hls l List.mem_cons_self)
    rw [toList_joined, hlist] at hlists
    exact hc (Option.some.inj hlists)

private theorem Pattern.text_inj (hp : p.Legible) (hq : q.Legible) (h : p.text = q.text) : p = q := by
  cases p with
  | const l =>
    cases q with
    | const l' => rw [Literal.text_inj hp hq h]
    | oneOf ls => exact absurd h (const_ne_oneOf hp hq)
    | range lo hi =>
      rw [text_const] at h
      exact absurd h (literals_ne_range (List.forall_mem_singleton.2 hp) lo hi)
  | oneOf ls =>
    cases q with
    | const l => exact absurd h.symm (const_ne_oneOf hq hp)
    | oneOf ls' => rw [literals_inj hp.1 hq.1 h]
    | range lo hi => exact absurd h (literals_ne_range hp.1 lo hi)
  | range lo hi =>
    cases q with
    | const l =>
      rw [text_const] at h
      exact absurd h.symm (literals_ne_range (List.forall_mem_singleton.2 hq) lo hi)
    | oneOf ls => exact absurd h.symm (literals_ne_range hq.1 lo hi)
    | range lo' hi' =>
      have hlists := congrArg String.toList h
      have hcomma : ", ".toList = [',', ' '] := rfl
      simp only [Pattern.text, String.toList_append, hcomma, List.append_assoc, List.cons_append] at hlists
      obtain ⟨rfl, hafter⟩ := int_append_inj (by decide) (List.append_cancel_left hlists)
      have hhi : (toString hi).toList = (toString hi').toList :=
        List.append_cancel_right (List.tail_eq_of_cons_eq hafter)
      rw [toString_int_inj hhi]

private theorem Pattern.newline_notMem_text (hp : p.Legible) : '\n' ∉ p.text.toList := by
  cases p with
  | const l => exact Literal.newline_notMem_text hp
  | oneOf ls => exact notMem_intercalate (by decide) fun l hl => Literal.newline_notMem_text (hp.1 l hl)
  | range lo hi =>
    exact notMem_append (notMem_append (notMem_append (notMem_append (by decide) (newline_notMem_int lo)) (by decide))
      (newline_notMem_int hi)) (by decide)

end Patterns

/-! ### Heads from their details -/

namespace Head

variable {a b : Head}

private theorem unary_label_inj {op op' : UnaryOp} (h : op.label = op'.label) : op = op' := by
  have hfind (op : UnaryOp) : UnaryOp.all.find? (·.label == op.label) = some op := by cases op <;> rfl
  exact (Option.some.inj ((hfind op').symm.trans (h ▸ hfind op))).symm

private theorem binary_label_inj {op op' : BinaryOp} (h : op.label = op'.label) : op = op' := by
  have hfind (op : BinaryOp) : BinaryOp.all.find? (·.label == op.label) = some op := by cases op <;> rfl
  exact (Option.some.inj ((hfind op').symm.trans (h ▸ hfind op))).symm

/-- A line is known by its kind and by what it says after its first word. -/
theorem eq_of_detail (ha : a.Legible) (hb : b.Legible) (hkind : a.kind = b.kind) (h : a.detail? = b.detail?) :
    a = b := by
  cases a with
  | literal l =>
    cases b with
    | literal l' => rw [Literal.text_inj ha hb (Option.some.inj h)]
    | _ => cases hkind
  | name n | call n | assign n | forLoop n =>
    cases b with
    | name n' | call n' | assign n' | forLoop n' =>
      cases hkind
      all_goals rw [Option.some.inj h]
    | _ => cases hkind
  | unary op =>
    cases b with
    | unary op' => rw [unary_label_inj (Option.some.inj h)]
    | _ => cases hkind
  | binary op =>
    cases b with
    | binary op' => rw [binary_label_inj (Option.some.inj h)]
    | _ => cases hkind
  | letDecl n type | varDecl n type =>
    cases b with
    | letDecl n' type' | varDecl n' type' =>
      cases hkind
      all_goals
        obtain ⟨rfl, rfl⟩ := declared_inj ha hb (Option.some.inj h)
        rfl
    | _ => cases hkind
  | func f params result =>
    cases b with
    | func f' params' result' =>
      obtain ⟨rfl, rfl, rfl⟩ := func_inj ha.1 hb.1 ha.2 hb.2 (Option.some.inj h)
      rfl
    | _ => cases hkind
  | range first last step =>
    cases b with
    | range first' last' step' =>
      obtain ⟨rfl, rfl, rfl⟩ := range_inj (Option.some.inj h)
      rfl
    | _ => cases hkind
  | case p =>
    cases b with
    | case q => rw [Pattern.text_inj ha hb (Option.some.inj h)]
    | _ => cases hkind
  | print | ret | whileLoop | ifThen | switch | default =>
    cases b with
    | print | ret | whileLoop | ifThen | switch | default =>
      cases hkind
      all_goals rfl
    | _ => cases hkind

/-- What can be read is on one line. -/
theorem newline_notMem_detail (h : a.Legible) : ∀ s ∈ a.detail?, '\n' ∉ s.toList := by
  cases a with
  | literal l =>
    rintro s ⟨⟩
    exact Literal.newline_notMem_text h
  | name n | call n | assign n | forLoop n =>
    rintro s ⟨⟩
    exact IsName.notMem h (by decide)
  | unary op =>
    rintro s ⟨⟩
    cases op <;> decide
  | binary op =>
    rintro s ⟨⟩
    cases op <;> decide
  | letDecl n type | varDecl n type =>
    rintro s ⟨⟩
    exact notMem_append (IsName.notMem h (by decide)) (newline_notMem_markedType (by decide) type)
  | func f params result =>
    rintro s ⟨⟩
    have hparams := notMem_params h.2 (c := '\n') (by decide) (by decide) (by decide)
      fun ty hc => (ty_text_letters ty _ hc).2.2 rfl
    exact notMem_append (notMem_append (notMem_append (notMem_append (h.1.notMem (by decide)) (by decide)) hparams)
      (by decide)) (newline_notMem_markedType (by decide) result)
  | range first last step =>
    rintro s ⟨⟩
    exact notMem_append (notMem_append (notMem_append (notMem_append (newline_notMem_int first) (by decide))
      (newline_notMem_int last)) (by decide)) (newline_notMem_int step)
  | case p =>
    rintro s ⟨⟩
    exact Pattern.newline_notMem_text h
  | print | ret | whileLoop | ifThen | switch | default => exact fun s hs => nomatch hs

end Head

end Dump

end Scriptlet
