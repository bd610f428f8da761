import Scriptlet.Cli

/-!
# The program

Reads the file named on the command line and prints what `Scriptlet.Cli.run` makes of it.
-/

namespace Scriptlet.Cli

/-- The contents of a file. -/
def readSource (path : String) : IO (Except ReadError String) := do
  try
    return decode (← IO.FS.readBinFile path)
  catch
    | .noFileOrDirectory .. => return .error .notFound
    | e => return .error (.other (toString e))

end Scriptlet.Cli

def main (args : List String) : IO UInt32 := do
  match Scriptlet.Cli.Arguments.default.parse? args with
  | some { path := some path, options } =>
    let output := Scriptlet.Cli.run options (← Scriptlet.Cli.readSource path)
    IO.print output.stdout
    IO.eprint output.stderr
    return output.exit.toUInt32
  | _ =>
    IO.eprint Scriptlet.Cli.usage
    return 2
