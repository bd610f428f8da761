import Scriptlet.Dump.Line
import Scriptlet.Ir.Basic
import Scriptlet.Text.Quoted

/-!
# Dumps of the intermediate representation

One line for every entry and every value, the entries of a nested scope below the entry that opens it.
-/

namespace Scriptlet

open Dump

/-- The first line of a value, without its type. -/
def Value.head : Value → String
  | .arg => "arg"
  | .ref name _ => "ref " ++ name
  | .atom ty text => "atom " ++ (if ty = .string then Text.quoted text else text)
  | .apply op _ => "expr " ++ op

mutual

/-- The lines of the arguments of a value, one level below it. -/
def Value.argLines (i : Nat) : Value → List Line
  | .apply _ args => Var.linesOfList (i + 1) args
  | _ => []

/-- The lines of a variable. -/
def Var.lines (i : Nat) : Var → List Line
  | .mk v ty _ _ => ⟨i, v.head ++ ": " ++ ty.text⟩ :: v.argLines i

/-- The lines of variables, one after the other. -/
def Var.linesOfList (i : Nat) : List Var → List Line
  | [] => []
  | v :: vs => v.lines i ++ Var.linesOfList i vs

end

/-- The lines of a value without its type. -/
def Value.lines (i : Nat) (v : Value) : List Line := ⟨i, v.head⟩ :: v.argLines i

/-- The lines of a nested scope's entry, those of its contents left out. -/
def scopedLines (i : Nat) (kind : ScopeKind) (born : List String) (dependency : Option Value) (scope : ScopeId) :
    List Line :=
  let names := if born.isEmpty then "" else " born [" ++ ", ".intercalate born ++ "]"
  let guard := match dependency with
    | some v => ⟨i + 1, "when"⟩ :: v.lines (i + 2)
    | none => []
  ⟨i, "scoped " ++ kind.text ++ " " ++ scope.text ++ names⟩ :: guard

/-- The lines of a scope's entries, with the scopes inside it as far as `fuel` levels down. -/
def Ir.scopeLines (ir : Ir) : (fuel : Nat) → (i : Nat) → ScopeId → List Line
  | 0, _, _ => []
  | fuel + 1, i, id =>
    (ir.scope id).entries.toList.flatMap fun
      | .newVar name var =>
        let keyword := if var.mutable then "var " else "let "
        ⟨i, keyword ++ name ++ ": " ++ var.ty.text ++ " (" ++ var.span.text ++ ")"⟩ :: var.value.lines (i + 1)
      | .action op args => ⟨i, "expr " ++ op⟩ :: Var.linesOfList (i + 1) args
      | .scoped kind born dependency scope =>
        scopedLines i kind born dependency scope ++ ir.scopeLines fuel (i + 1) scope

/-- The dump of a checked program.  No scope lies deeper than the number of scopes. -/
def Ir.dump (ir : Ir) : String := render (ir.scopeLines ir.scopes.size 0 .root)

end Scriptlet
