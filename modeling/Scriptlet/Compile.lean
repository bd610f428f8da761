import Scriptlet.Diagnostic
import Scriptlet.Journal
import Scriptlet.Parse.Program
import Scriptlet.Token.Scan
import Scriptlet.Typing.Check

/-!
# Compiling a source

`compile` takes a source text through all stages: tokens, program, intermediate representation.  The first error
of any stage ends it.
-/

namespace Scriptlet

/-- All that comes of a successful compilation. -/
structure Compilation where
  tokens : List Token
  lines : LineIndex
  program : Program
  ir : Ir

/-- An error with its diagnostic. -/
structure Failure where
  error : CompileError
  rendered : String
  deriving DecidableEq, Repr

/-- An error with its diagnostic for a source with these lines. -/
def Failure.of (lines : LineIndex) (e : CompileError) : Failure := ⟨e, e.full lines⟩

/-- What a compilation came to, and its steps from the first on. -/
structure Report where
  result : Except Failure Compilation
  events : List Journal.Event

/-- Compiles a source, keeping the steps. -/
def Report.of (src : String) : Report :=
  match tokenize src with
  | .error e => ⟨.error (.of (.of src) (.lex e)), []⟩
  | .ok ⟨tokens, lines⟩ =>
    let parse := Parse.programOutcome tokens
    let events := .scanned tokens.length :: .lexed tokens.length lines.count ::
      parse.history.map Journal.Event.parsing
    match parse.result with
    | .error e => ⟨.error (.of lines (.parse e)), events⟩
    | .ok program =>
      let typing := Typing.outcome program
      let events := events ++ .parsed program.items.length :: typing.history.map Journal.Event.building
      match typing.result with
      | .error e => ⟨.error (.of lines (.type e)), events⟩
      | .ok ir => ⟨.ok ⟨tokens, lines, program, ir⟩, events ++ [.built ir.scopes.size]⟩

/-- Compiles a source. -/
def compile (src : String) : Except Failure Compilation := (Report.of src).result

end Scriptlet
