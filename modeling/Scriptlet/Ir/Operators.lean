import Scriptlet.Ty

/-!
# Operators and their signatures

The operator table maps the names of operators and functions to the signatures they accept.  An operator of the
language may have several; a function of the program has one.  The table is kept in the order of the names by
code points.
-/

namespace Scriptlet

/-- The types of the arguments and of the result. -/
structure Signature where
  args : List Ty
  result : Ty
  deriving DecidableEq, Repr

/-- A signature, as in `(Int, Int) -> Void`. -/
def Signature.text (s : Signature) : String := Ty.listText s.args ++ " -> " ++ s.result.text

/-- An operator or a function, with every signature it accepts. -/
structure Operator where
  alternatives : List Signature
  /-- The program declares it. -/
  userDefined : Bool
  deriving DecidableEq, Repr

/-- The type of the result for arguments of exactly these types. -/
def Operator.resolve (op : Operator) (args : List Ty) : Option Ty :=
  (op.alternatives.find? (·.args = args)).map Signature.result

/-- The operators known by name, in ascending order. -/
structure OperatorTable where
  entries : List (String × Operator)
  deriving DecidableEq, Repr

/-! ### Names of the operators that no symbol spells -/

namespace OpName

def input : String := "input"

def print : String := "print"

def assign : String := "$assign"

def ret : String := "$return"

def iterRange : String := "$iterRange"

def iterString : String := "$iterStr"

def caseIs : String := "$caseIs"

def caseOf : String := "$caseOf"

def caseIn : String := "$caseIn"

end OpName

namespace OperatorTable

/-- The table without entries. -/
def empty : OperatorTable := ⟨[]⟩

/-- The operator of that name. -/
def get? (t : OperatorTable) (name : String) : Option Operator := t.entries.lookup name

/-- The name is taken. -/
def contains (t : OperatorTable) (name : String) : Bool := (t.get? name).isSome

/-- Puts in place of the operator of that name, if there is one, what `f` makes of it; a new name takes its place
in the order. -/
def alterEntries (name : String) (f : Option Operator → Operator) :
    List (String × Operator) → List (String × Operator)
  | [] => [(name, f none)]
  | (n, op) :: rest =>
    if n = name then (n, f (some op)) :: rest
    else if name < n then (name, f none) :: (n, op) :: rest
    else (n, op) :: alterEntries name f rest

/-- Adds a signature to an operator of the language. -/
def addAlternative (t : OperatorTable) (name : String) (s : Signature) : OperatorTable :=
  ⟨alterEntries name (fun op => ⟨(op.map Operator.alternatives).getD [] ++ [s], false⟩) t.entries⟩

/-- Adds a function of the program, unless its name is taken. -/
def define? (t : OperatorTable) (name : String) (s : Signature) : Option OperatorTable :=
  if t.contains name then none else some ⟨alterEntries name (fun _ => ⟨[s], true⟩) t.entries⟩

/-- The functions of the program. -/
def userDefined (t : OperatorTable) : List (String × Operator) := t.entries.filter (·.2.userDefined)

/-! ### The operators of the language -/

/-- The pairs of numeric operands. -/
def numericPairs : List (Ty × Ty) :=
  [(.int, .int), (.double, .double), (.int, .double), (.double, .int)]

/-- The type of a sum of two numbers: an operand of type `Double` makes it one too. -/
def widened : Ty × Ty → Ty
  | (.int, .int) => .int
  | _ => .double

/-- Every signature of the language's own operators, in the order in which they are tried. -/
def builtinSignatures : List (String × Signature) :=
  numericPairs.flatMap (fun (a, b) =>
    ["+", "-", "*", "/"].map (·, ⟨[a, b], widened (a, b)⟩) ++
    ("**", ⟨[a, b], .double⟩) ::
    ["<", "<=", ">", ">=", "==", "!="].map (·, ⟨[a, b], .bool⟩)) ++
  ("+", ⟨[.string, .string], .string⟩) ::
  ["==", "!="].flatMap (fun op => [(op, ⟨[.bool, .bool], .bool⟩), (op, ⟨[.string, .string], .bool⟩)]) ++
  [("&&", ⟨[.bool, .bool], .bool⟩), ("||", ⟨[.bool, .bool], .bool⟩)] ++
  [Ty.int, Ty.double].flatMap (fun t => [("u+", ⟨[t], t⟩), ("u-", ⟨[t], t⟩)]) ++
  [("!", ⟨[.bool], .bool⟩), (OpName.input, ⟨[], .string⟩)]

/-- The table of the language's own operators. -/
def builtins : OperatorTable := builtinSignatures.foldl (fun t (name, s) => t.addAlternative name s) empty

end OperatorTable

end Scriptlet
