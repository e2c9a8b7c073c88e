/-
  UnionTyping/Main.lean
  =====================
  **The program**: arguments, files and output streams around `Cli.run`.
-/
import UnionTyping.Cli.Command

namespace UnionTyping.Cli

open UnionTyping

/-- What a file holds, or why it cannot be read. -/
def readSource (path : String) : IO (Except SourceFault Text) := do
  try
    let bytes ← IO.FS.readBinFile path
    return decodeSource bytes
  catch
    | .noFileOrDirectory .. => return .error .missing
    | .inappropriateType .. => return .error .directory
    | e => return .error (.other (toString e).toList)

/-- The program: 0 if all went well, 1 if something failed, 2 for a wrong use. -/
def program (args : List String) : IO UInt32 := do
  match Options.ofArguments? (args.map String.toList) with
  | none =>
    IO.eprintln "usage: [--ast] [--no-builtins] [--resolve] [-v] (FILE | -e EXPRESSION)"
    return 2
  | some options =>
    let file ← match options.source with
      | .file path => readSource (String.ofList path)
      | .expression _ => pure (.ok [])
    let level := (← IO.getEnv "LOG_LEVEL").map String.toList
    let output := run options level file
    IO.print (String.ofList output.stdout)
    IO.eprint (String.ofList output.stderr)
    return output.code.toUInt32

end UnionTyping.Cli

def main (args : List String) : IO UInt32 := UnionTyping.Cli.program args
