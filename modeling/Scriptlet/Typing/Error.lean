import Scriptlet.Ir.Operators
import Scriptlet.LineIndex

/-!
# Errors of meaning

The rules that a well-formed program can violate: names and functions that are not declared, types that do not
match, and statements that are not allowed where they stand.
-/

namespace Scriptlet

/-- A violated rule. -/
inductive TypeError where
  | undefinedName (name : String)
  | undefinedFunction (name : String)
  | noMatchingAlternative (op : String) (args : List Ty) (alternatives : List Signature)
  | annotationMismatch (declared inferred : Ty)
  | voidBinding (name : String)
  | voidPrint
  | immutableAssignment (name : String) (declaredAt : Span)
  | assignmentMismatch (name : String) (expected found : Ty) (declaredAt : Span)
  /-- The previous function of the name; none if it belongs to the language. -/
  | duplicateFunction (name : String) (previous : Option Span)
  | duplicateParam (name : String)
  | conditionNotBool (found : Ty)
  | returnMismatch (func : String) (expected found : Ty)
  | zeroStep
  | notIterable (found : Ty)
  | caseMismatch (subject found : Ty)
  | caseRangeNotInt (subject : Ty)
  | defaultNotLast
  deriving DecidableEq, Repr

namespace TypeError

/-- The name of the violated rule. -/
def label : TypeError → String
  | undefinedName .. => "UndefinedName"
  | undefinedFunction .. => "UndefinedFunction"
  | noMatchingAlternative .. => "NoMatchingAlternative"
  | annotationMismatch .. => "AnnotationMismatch"
  | voidBinding .. => "VoidBinding"
  | voidPrint => "VoidPrint"
  | immutableAssignment .. => "ImmutableAssignment"
  | assignmentMismatch .. => "AssignmentMismatch"
  | duplicateFunction .. => "DuplicateFunction"
  | duplicateParam .. => "DuplicateParam"
  | conditionNotBool .. => "ConditionNotBool"
  | returnMismatch .. => "ReturnMismatch"
  | zeroStep => "ZeroStep"
  | notIterable .. => "NotIterable"
  | caseMismatch .. => "CaseMismatch"
  | caseRangeNotInt .. => "CaseRangeNotInt"
  | defaultNotLast => "DefaultNotLast"

/-- What is wrong. -/
def message : TypeError → String
  | undefinedName name => "`" ++ name ++ "` is not defined"
  | undefinedFunction name => "function `" ++ name ++ "` is not defined"
  | noMatchingAlternative op args _ => "can't apply `" ++ op ++ "` to " ++ Ty.listText args
  | annotationMismatch declared inferred =>
    "declared type " ++ declared.text ++ " doesn't match inferred type " ++ inferred.text
  | voidBinding name => "can't bind a Void value to `" ++ name ++ "`"
  | voidPrint => "can't print a Void value"
  | immutableAssignment name _ => "can't assign to immutable binding `" ++ name ++ "`"
  | assignmentMismatch name expected found _ =>
    "can't assign " ++ found.text ++ " to `" ++ name ++ "` of type " ++ expected.text
  | duplicateFunction name _ => "function `" ++ name ++ "` is already defined"
  | duplicateParam name => "parameter `" ++ name ++ "` is declared twice"
  | conditionNotBool found => "condition must be Bool, found " ++ found.text
  | returnMismatch func expected found =>
    "function `" ++ func ++ "` returns " ++ expected.text ++ ", found " ++ found.text
  | zeroStep => "range step can't be zero"
  | notIterable found => "can't iterate over " ++ found.text
  | caseMismatch subject found =>
    "case of type " ++ found.text ++ " doesn't match subject of type " ++ subject.text
  | caseRangeNotInt subject => "range case on a " ++ subject.text ++ " subject"
  | defaultNotLast => "`default` must be the last case"

/-- How to mend it; other places in the source are given by line and column. -/
def hint (lines : LineIndex) : TypeError → String
  | undefinedName _ => "declare it with `let` or `var` before using it"
  | undefinedFunction _ => "functions must be declared before they are called"
  | noMatchingAlternative op _ alternatives =>
    if alternatives.isEmpty then "`" ++ op ++ "` accepts no arguments"
    else "accepted signatures: " ++ ", ".intercalate (alternatives.map Signature.text)
  | annotationMismatch .. => "change the annotation or the initializer"
  | voidBinding _ => "the initializer doesn't produce a value"
  | voidPrint => "the argument doesn't produce a value"
  | immutableAssignment name declaredAt =>
    "`" ++ name ++ "` is declared with `let` at " ++ lines.spanText declaredAt ++
      "; declare it with `var` to allow assignments"
  | assignmentMismatch name _ _ declaredAt => "`" ++ name ++ "` is declared at " ++ lines.spanText declaredAt
  | duplicateFunction name previous =>
    match previous with
    | some previous => "previous definition at " ++ lines.spanText previous
    | none => "`" ++ name ++ "` is a builtin"
  | duplicateParam _ => "rename one of the parameters"
  | conditionNotBool _ => "compare the value explicitly, as in `x != 0`"
  | returnMismatch .. => "change the returned value or the `->` annotation"
  | zeroStep => "use a positive or negative step"
  | notIterable _ => "`for` iterates over `range(from, to, step)` or a String"
  | caseMismatch .. => "every case constant must have the subject's type"
  | caseRangeNotInt _ => "`range` cases need an Int subject"
  | defaultNotLast => "move it after every other case"

end TypeError

end Scriptlet
