import Scriptlet.Compile
import Scriptlet.Dump.Ir
import Scriptlet.Dump.Program

/-!
# The command line

What the compiler prints for the contents of a file: the dump of a stage, or a diagnostic.
-/

namespace Scriptlet.Cli

/-- The stage whose result is printed. -/
inductive Emit where
  | tokens
  | ast
  | ir
  deriving DecidableEq, Repr

/-- The stage of that name. -/
def Emit.ofText? : String → Option Emit
  | "tokens" => some .tokens
  | "ast" => some .ast
  | "ir" => some .ir
  | _ => none

/-- What the user asks for. -/
structure Options where
  emit : Emit
  color : Bool
  deriving DecidableEq, Repr

/-- The result of the command: its exit code and what it prints. -/
structure Output where
  exit : Nat
  stdout : String
  stderr : String
  deriving DecidableEq, Repr

/-- Why a source file cannot be read. -/
inductive ReadError where
  | notFound
  | notUtf8
  | other (message : String)
  deriving DecidableEq, Repr

/-- The text of a read error. -/
def ReadError.text : ReadError → String
  | notFound => "No such file or directory (os error 2)"
  | notUtf8 => "stream did not contain valid UTF-8"
  | other message => message

/-- The text that the bytes of a file hold. -/
def decode (bytes : ByteArray) : Except ReadError String :=
  match String.fromUTF8? bytes with
  | some s => .ok s
  | none => .error .notUtf8

/-- The word before a diagnostic, in bold red if colors are wanted. -/
def errorLabel (color : Bool) : String := if color then "\x1b[1;31merror\x1b[0m" else "error"

/-- The dump of a stage. -/
def Emit.dump (c : Compilation) : Emit → String
  | tokens => Token.dump c.tokens
  | ast => c.program.dump
  | ir => c.ir.dump

/-- Runs the command on what a file holds. -/
def run (options : Options) : Except ReadError String → Output
  | .error e => ⟨1, "", "failed to run: " ++ e.text ++ "\n"⟩
  | .ok src =>
    match compile src with
    | .ok c => ⟨0, options.emit.dump c, ""⟩
    | .error f =>
      ⟨1, "", errorLabel options.color ++ " (" ++ f.error.stage.text ++ "): " ++ f.rendered ++ "\n"⟩

/-- The arguments of the command: the path of the source and the options, in any order. -/
structure Arguments where
  path : Option String
  options : Options

/-- No path yet, and the options nobody asked to change. -/
def Arguments.default : Arguments := ⟨none, ⟨.ir, true⟩⟩

/-- Reads the arguments after `a`. -/
def Arguments.parse? (a : Arguments) : List String → Option Arguments
  | [] => some a
  | "--no-color" :: rest => { a with options := { a.options with color := false } }.parse? rest
  | "--emit" :: stage :: rest =>
    match Emit.ofText? stage with
    | some emit => { a with options := { a.options with emit } }.parse? rest
    | none => none
  | arg :: rest => if a.path.isSome || arg.startsWith "-" then none else { a with path := some arg }.parse? rest

/-- How the command is used. -/
def usage : String := "usage: scriptlet PATH [--emit tokens|ast|ir] [--no-color]\n"

end Scriptlet.Cli
