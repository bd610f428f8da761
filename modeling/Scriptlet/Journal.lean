import Scriptlet.Parse.State
import Scriptlet.Typing.Check

/-!
# The journal of a compilation

What the stages report of their work, as records of two levels of detail.
-/

namespace Scriptlet.Journal

/-- How detailed a record is. -/
inductive Level where
  | debug
  | trace
  deriving DecidableEq, Repr

/-- The name of a level. -/
def Level.text : Level → String
  | debug => "DEBUG"
  | trace => "TRACE"

/-- A journal of level `limit` shows a record of this level. -/
def Level.isShownAt (limit : Level) : Level → Bool
  | debug => true
  | trace => limit == trace

/-- Who reports. -/
inductive Source where
  | compiler
  | lexer
  | parser
  | typer
  deriving DecidableEq, Repr

/-- The name of a source. -/
def Source.text : Source → String
  | compiler => "ms2"
  | lexer => "ms2::lexer"
  | parser => "ms2::parser"
  | typer => "ms2::typer"

/-- A record of the journal. -/
structure Record where
  level : Level
  source : Source
  message : String
  deriving DecidableEq, Repr

/-- The level, the source and the message, with a space between them. -/
def Record.text (r : Record) : String := r.level.text ++ " " ++ r.source.text ++ " " ++ r.message

/-- A step of a compilation. -/
inductive Event where
  | scanned (tokens : Nat)
  | lexed (tokens lines : Nat)
  | parsing (e : Parse.Event)
  | parsed (items : Nat)
  | building (e : Ir.Step)
  | built (scopes : Nat)

/-- The record of a step of the parser; consuming a token leaves none. -/
def parseRecord? : Parse.Event → Option Record
  | .enter p => some ⟨.trace, .parser, "parse " ++ p.text⟩
  | .consume _ => none
  | .checkpoint i => some ⟨.debug, .parser, "checkpoint at token " ++ toString i⟩
  | .commit i => some ⟨.debug, .parser, "commit checkpoint at token " ++ toString i⟩
  | .rollback i e => some ⟨.debug, .parser, "rollback at token " ++ toString i ++ ": " ++ e.value.debug⟩
  | .abandon i e => some ⟨.debug, .parser, "abandon at token " ++ toString i ++ ": " ++ e.value.debug⟩

/-- The record of a step of the type checker; filling a scope leaves none. -/
def buildRecord? : Ir.Step → Option Record
  | .register name s => some ⟨.debug, .typer, "registering function `" ++ name ++ "` as " ++ s.text⟩
  | .openScope id kind parent _ _ =>
    some ⟨.debug, .typer, "new " ++ kind.text ++ " scope " ++ id.text ++ " in " ++ parent.text⟩
  | _ => none

/-- The record of a step, if it leaves one. -/
def Event.record? : Event → Option Record
  | scanned n => some ⟨.trace, .lexer, "lexed " ++ toString n ++ " tokens"⟩
  | lexed n l => some ⟨.debug, .compiler, "lexed " ++ toString n ++ " tokens over " ++ toString l ++ " lines"⟩
  | parsing e => parseRecord? e
  | parsed n => some ⟨.debug, .compiler, "parsed " ++ toString n ++ " top-level statements"⟩
  | building e => buildRecord? e
  | built n => some ⟨.debug, .compiler, "built " ++ toString n ++ " scopes"⟩

/-- The records of steps that a journal of some level shows. -/
def records (limit : Level) (events : List Event) : List Record :=
  (events.filterMap Event.record?).filter fun r => limit.isShownAt r.level

end Scriptlet.Journal
