/-!
# Indented lines

Trees are dumped as lines of text, two spaces deeper for every level.
-/

namespace Scriptlet.Dump

/-- A line of a dump and its level. -/
structure Line where
  level : Nat
  text : String
  deriving DecidableEq, Repr

/-- The line with its indentation and its end. -/
def Line.render (l : Line) : String :=
  String.ofList (List.replicate (2 * l.level) ' ') ++ l.text ++ "\n"

/-- The text of a dump. -/
def render (ls : List Line) : String := String.join (ls.map Line.render)

end Scriptlet.Dump
