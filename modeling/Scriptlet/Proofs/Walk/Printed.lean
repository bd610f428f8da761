import Scriptlet.Proofs.Walk.Basic

/-!
# What a dump prints

The lines that a dump has for an entry, with every text spelled out but for the quotes of strings: for a variable or an
action a line and then those of its values, and for a scope a line with its kind, its number and the names bound on
entering it, and then those of its guard (`Entry.Prints`).  `Entry.prints` says that these are the lines that
`Entry.lines` gives.
-/

namespace Scriptlet

open Dump (Line)

/-! ### Values -/

/-- The types, each with its name. -/
def Ty.names : List (Ty × String) :=
  [(.int, "Int"), (.double, "Double"), (.bool, "Bool"), (.string, "String"), (.void, "Void")]

private theorem Ty.mem_names (ty : Ty) : (ty, ty.text) ∈ names := by
  cases ty <;> simp [names, text]

mutual

/-- The lines of a value at a level, with a text at the end of the first one. -/
inductive Value.Prints : Nat → String → Value → List Line → Prop where
  | arg (i : Nat) (tail : String) : Value.Prints i tail .arg [⟨i, "arg" ++ tail⟩]
  | ref (i : Nat) (tail name : String) (b : BindingId) : Value.Prints i tail (.ref name b) [⟨i, "ref " ++ name ++ tail⟩]
  | string (i : Nat) (tail text : String) :
    Value.Prints i tail (.atom .string text) [⟨i, "atom " ++ Text.quoted text ++ tail⟩]
  | atom {ty : Ty} (i : Nat) (tail text : String) :
    ty ≠ .string → Value.Prints i tail (.atom ty text) [⟨i, "atom " ++ text ++ tail⟩]
  | apply {args : List Var} {lines : List Line} (i : Nat) (tail op : String) :
    Var.AllPrint (i + 1) args lines → Value.Prints i tail (.apply op args) (⟨i, "expr " ++ op ++ tail⟩ :: lines)

/-- The lines of arguments at a level, one after the other and each with its type. -/
inductive Var.AllPrint : Nat → List Var → List Line → Prop where
  | nil (i : Nat) : Var.AllPrint i [] []
  | cons {i : Nat} {v : Value} {ty : Ty} {name : String} {vars : List Var} {lines lines' : List Line} (span : Span)
    (mutable : Bool) : (ty, name) ∈ Ty.names → Value.Prints i (": " ++ name) v lines → Var.AllPrint i vars lines' →
      Var.AllPrint i (.mk v ty span mutable :: vars) (lines ++ lines')

end

mutual

private theorem Value.prints (i : Nat) (tail : String) : (v : Value) →
    v.Prints i tail (⟨i, v.head ++ tail⟩ :: v.argLines i)
  | .arg => .arg i tail
  | .ref name b => .ref i tail name b
  | .atom ty text => by
    by_cases hty : ty = .string
    · subst hty
      exact .string i tail text
    · have h := Value.Prints.atom i tail text hty
      rwa [Value.head, if_neg hty]
  | .apply op args => .apply i tail op (Var.allPrint (i + 1) args)

private theorem Var.allPrint (i : Nat) : (vars : List Var) → Var.AllPrint i vars (Var.linesOfList i vars)
  | [] => .nil i
  | .mk v ty span mutable :: vars => by
    have h := Value.prints i (": " ++ ty.text) v
    rw [← String.append_assoc] at h
    exact .cons span mutable ty.mem_names h (Var.allPrint i vars)

end

/-- The lines of a value without its type. -/
private theorem Value.prints_lines (i : Nat) (v : Value) : v.Prints i "" (v.lines i) := by
  have h := Value.prints i "" v
  rwa [String.append_empty] at h

/-! ### Entries -/

/-- The kinds of scopes, each with its name. -/
def ScopeKind.names : List (ScopeKind × String) :=
  [(.func, "FUN"), (.ifBranch, "IF_BRANCH"), (.elseBranch, "ELSE_BRANCH"), (.loop, "WHILE"),
    (.caseBranch, "CASE_BRANCH")]

/-- The first line of an entry for a scope: its kind, its number and the names, if any, bound on entering it. -/
def scopeHeader (kind : String) (id : Nat) (born : List String) : String :=
  "scoped " ++ kind ++ " #" ++ toString id ++ if born = [] then "" else " born [" ++ ", ".intercalate born ++ "]"

/-- The lines of an entry at a level, those in the scope that it opens left out. -/
inductive Entry.Prints (i : Nat) : Entry → List Line → Prop where
  | letVar {v : Value} {ty : Ty} {tyName : String} {lines : List Line} (name : String) (span : Span) :
    (ty, tyName) ∈ Ty.names → v.Prints (i + 1) "" lines → Prints i (.newVar name (.mk v ty span false))
      (⟨i, "let " ++ name ++ ": " ++ tyName ++ " (" ++ (toString span.lo ++ ".." ++ toString span.hi) ++ ")"⟩ :: lines)
  | mutableVar {v : Value} {ty : Ty} {tyName : String} {lines : List Line} (name : String) (span : Span) :
    (ty, tyName) ∈ Ty.names → v.Prints (i + 1) "" lines → Prints i (.newVar name (.mk v ty span true))
      (⟨i, "var " ++ name ++ ": " ++ tyName ++ " (" ++ (toString span.lo ++ ".." ++ toString span.hi) ++ ")"⟩ :: lines)
  | action {args : List Var} {lines : List Line} (op : String) :
    Var.AllPrint (i + 1) args lines → Prints i (.action op args) (⟨i, "expr " ++ op⟩ :: lines)
  | scope {kind : ScopeKind} {name : String} (born : List String) (id : Nat) : (kind, name) ∈ ScopeKind.names →
    Prints i (.scoped kind born none id) [⟨i, scopeHeader name id born⟩]
  | guarded {kind : ScopeKind} {name : String} {guard : Value} {lines : List Line} (born : List String) (id : Nat) :
    (kind, name) ∈ ScopeKind.names → guard.Prints (i + 2) "" lines →
      Prints i (.scoped kind born (some guard) id) (⟨i, scopeHeader name id born⟩ :: ⟨i + 1, "when"⟩ :: lines)

private theorem ScopeKind.mem_names (kind : ScopeKind) : (kind, kind.text) ∈ names := by
  cases kind <;> simp [names, text]

private theorem scopeHeader_text (kind : ScopeKind) (id : Nat) (born : List String) :
    "scoped " ++ kind.text ++ " " ++ ScopeId.text id ++
      (if born.isEmpty then "" else " born [" ++ ", ".intercalate born ++ "]") = scopeHeader kind.text id born := by
  have hsame (a b : String) : a ++ " " ++ ("#" ++ b) = a ++ " #" ++ b := by
    rw [← String.append_assoc, @String.append_assoc a " " "#"]
    rfl
  rw [scopeHeader, ScopeId.text, hsame]
  cases born <;> rfl

/-- The lines that a dump has for an entry. -/
theorem Entry.prints (i : Nat) : (e : Entry) → e.Prints i (e.lines i)
  | .newVar name (.mk v ty span false) => .letVar name span ty.mem_names (v.prints_lines (i + 1))
  | .newVar name (.mk v ty span true) => .mutableVar name span ty.mem_names (v.prints_lines (i + 1))
  | .action op args => .action op (Var.allPrint (i + 1) args)
  | .scoped kind born none id => by
    have h : Entry.Prints i _ _ := .scope born id kind.mem_names
    rwa [← scopeHeader_text] at h
  | .scoped kind born (some guard) id => by
    have h : Entry.Prints i _ _ := .guarded born id kind.mem_names (guard.prints_lines (i + 2))
    rwa [← scopeHeader_text] at h

end Scriptlet
