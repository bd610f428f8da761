import Scriptlet.Ir.Operators
import Scriptlet.Program.Basic

/-!
# The intermediate representation

A checked program as a table of operators and an array of scopes.  A scope holds its bindings, those that later
ones shadow included, and its entries in order: new variables, actions, and nested scopes, which it refers to by
number.  A use of a name refers to the binding that was meant, so that later declarations do not change it.
-/

namespace Scriptlet

/-- The number of a scope, by the order of creation. -/
abbrev ScopeId := Nat

/-- The scope around all others. -/
def ScopeId.root : ScopeId := 0

/-- A scope as dumps name it. -/
def ScopeId.text (id : ScopeId) : String := "#" ++ toString (id : Nat)

/-- A binding: the scope that declares it, and its place among the bindings there. -/
structure BindingId where
  scope : ScopeId
  index : Nat
  deriving DecidableEq, Repr

mutual

/-- What a value is made of: a parameter or loop variable, a use of a binding, a constant with its text, or an
operator applied to arguments. -/
inductive Value where
  | arg
  | ref (name : String) (binding : BindingId)
  | atom (ty : Ty) (text : String)
  | apply (op : String) (args : List Var)

/-- A value with its type, its place in the source, and whether it may be assigned to. -/
inductive Var where
  | mk (value : Value) (ty : Ty) (span : Span) (mutable : Bool)

end

namespace Var

def value : Var → Value
  | mk v _ _ _ => v

def ty : Var → Ty
  | mk _ t _ _ => t

def span : Var → Span
  | mk _ _ s _ => s

def mutable : Var → Bool
  | mk _ _ _ m => m

end Var

/-- What a nested scope is for. -/
inductive ScopeKind where
  | func
  | ifBranch
  | elseBranch
  | loop
  | caseBranch
  deriving DecidableEq, Repr

/-- The kind of a scope as dumps name it. -/
def ScopeKind.text : ScopeKind → String
  | func => "FUN"
  | ifBranch => "IF_BRANCH"
  | elseBranch => "ELSE_BRANCH"
  | loop => "WHILE"
  | caseBranch => "CASE_BRANCH"

/-- A step of a scope.  A nested scope has the names bound on entering it and the value that guards it. -/
inductive Entry where
  | newVar (name : String) (var : Var)
  | action (op : String) (args : List Var)
  | scoped (kind : ScopeKind) (born : List String) (dependency : Option Value) (scope : ScopeId)

/-- A scope. -/
structure Scope where
  parent : Option ScopeId
  /-- The function it belongs to. -/
  func : Option String
  /-- Every binding declared here, in order. -/
  bindings : Array (String × Var)
  /-- The latest binding of each name, in the order in which the names first occurred. -/
  visible : List (String × Nat)
  entries : Array Entry

namespace Scope

/-- A scope with nothing in it. -/
def empty (parent : Option ScopeId) (func : Option String) : Scope := ⟨parent, func, #[], [], #[]⟩

/-- Maps a name to an index, in its old place if it has one. -/
def setVisible (name : String) (index : Nat) : List (String × Nat) → List (String × Nat)
  | [] => [(name, index)]
  | (n, i) :: rest => if n = name then (n, index) :: rest else (n, i) :: setVisible name index rest

/-- Declares a name, which shadows any binding of the same name here. -/
def bind (s : Scope) (name : String) (var : Var) : Scope :=
  { s with bindings := s.bindings.push (name, var), visible := setVisible name s.bindings.size s.visible }

/-- Adds an entry. -/
def push (s : Scope) (e : Entry) : Scope := { s with entries := s.entries.push e }

/-- The latest binding of a name in this very scope. -/
def var? (s : Scope) (name : String) : Option Var :=
  (s.visible.lookup name).bind fun i => s.bindings[i]?.map Prod.snd

end Scope

/-- A checked program. -/
structure Ir where
  ops : OperatorTable
  scopes : Array Scope

namespace Ir

/-- An empty root scope and the operators of the language. -/
def initial : Ir := ⟨.builtins, #[.empty none none]⟩

/-- The scope of that number; an empty one if there is none. -/
def scope (ir : Ir) (id : ScopeId) : Scope := ir.scopes[id]?.getD (.empty none none)

/-- The name and the variable of a binding. -/
def binding? (ir : Ir) (id : BindingId) : Option (String × Var) := do
  let s ← ir.scopes[id.scope]?
  s.bindings[id.index]?

/-- The nearest binding of a name on the way from a scope to the root, at most `fuel` scopes being searched.  A
scope is always created after the one around it, so that the way leads to ever smaller numbers. -/
def lookupWithin (ir : Ir) (name : String) : (fuel : Nat) → ScopeId → Option (BindingId × Var)
  | 0, _ => none
  | fuel + 1, id =>
    match (ir.scope id).visible.lookup name, (ir.scope id).parent with
    | some index, _ => (ir.binding? ⟨id, index⟩).map fun (_, var) => (⟨id, index⟩, var)
    | none, some parent => ir.lookupWithin name fuel parent
    | none, none => none

/-- The binding that a name means in a scope, as far as it has been declared. -/
def lookup (ir : Ir) (name : String) (id : ScopeId) : Option (BindingId × Var) := ir.lookupWithin name (id + 1) id

/-! ### Building -/

/-- Changes one scope. -/
def modifyScope (ir : Ir) (id : ScopeId) (f : Scope → Scope) : Ir := { ir with scopes := ir.scopes.modify id f }

/-- Adds a scope inside `parent` with the names bound on entering it.  It belongs to the same function, unless one
is given. -/
def openScope (ir : Ir) (parent : ScopeId) (func : Option String) (born : List (String × Var)) : Ir :=
  let scope := born.foldl (fun s (name, var) => s.bind name var)
    (.empty (some parent) (func <|> (ir.scope parent).func))
  { ir with scopes := ir.scopes.push scope }

/-- A step of building the representation of a program. -/
inductive Step where
  /-- A function enters the table, unless its name is taken. -/
  | register (name : String) (signature : Signature)
  /-- The scope `id` begins, with the names bound on entering it. -/
  | openScope (id : ScopeId) (kind : ScopeKind) (parent : ScopeId) (func : Option String)
      (born : List (String × Var))
  /-- A variable is declared in a scope. -/
  | declare (scope : ScopeId) (name : String) (var : Var)
  /-- An action is added to a scope. -/
  | act (scope : ScopeId) (op : String) (args : List Var)
  /-- The scope `id` is complete and takes its place in the one around it. -/
  | closeScope (id : ScopeId) (kind : ScopeKind) (parent : ScopeId) (born : List String) (dependency : Option Value)

/-- The representation after a step. -/
def apply (ir : Ir) : Step → Ir
  | .register name signature => { ir with ops := (ir.ops.define? name signature).getD ir.ops }
  | .openScope _ _ parent func born => ir.openScope parent func born
  | .declare scope name var => ir.modifyScope scope fun s => (s.push (.newVar name var)).bind name var
  | .act scope op args => ir.modifyScope scope (·.push (.action op args))
  | .closeScope id kind parent born dependency =>
    ir.modifyScope parent (·.push (.scoped kind born dependency id))

end Ir

end Scriptlet
