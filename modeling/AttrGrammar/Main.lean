import AttrGrammar.CommandLine

/-! The program: reads the file that a command names and prints the answer. -/

open AttrGrammar

/-- The bytes of a file, or the reason why there are none. -/
def readBytes (file : String) : IO (Except String ByteArray) := do
  try
    return .ok (← IO.FS.readBinFile file)
  catch
    | .noFileOrDirectory .. => return .error Command.missingFile
    | other => return .error (toString other)

def main (args : List String) : IO UInt32 := do
  match Command.parse? args with
  | none =>
    IO.eprintln Command.usage
    return 2
  | some command =>
    let answer := command.answer (← readBytes command.file)
    IO.eprint answer.stderr
    IO.print answer.stdout
    return answer.code
