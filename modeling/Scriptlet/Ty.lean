/-!
# Types

The five types of the language.
-/

namespace Scriptlet

inductive Ty where
  | int
  | double
  | bool
  | string
  | void
  deriving DecidableEq, Repr

namespace Ty

/-- The name of a type, as annotations write it. -/
def text : Ty → String
  | int => "Int"
  | double => "Double"
  | bool => "Bool"
  | string => "String"
  | void => "Void"

/-- Every type. -/
def all : List Ty := [int, double, bool, string, void]

/-- The type of a name. -/
def ofText? (s : String) : Option Ty := all.find? fun t => t.text == s

/-- A type is found by its name. -/
theorem ofText?_text (t : Ty) : ofText? t.text = some t := by
  cases t <;> rfl

/-- A list of types, as in `(Int, Double)`. -/
def listText (ts : List Ty) : String := "(" ++ ", ".intercalate (ts.map text) ++ ")"

end Ty

end Scriptlet
