import FactScript.Command.Run

/-!
The command line program.
-/
namespace FactScript.Command

def lookOnDisk (path : String) : IO FileStatus := do
  try
    return .bytes (← IO.FS.readBinFile path)
  catch
    | .noFileOrDirectory .. => return .missing
    | .inappropriateType _ code _ => return if code = 20 then .blocked else .directory
    | .invalidArgument _ 36 _ => return .nameTooLong
    | error => throw error

end FactScript.Command

def main (args : List String) : IO UInt32 := do
  let outcome ← FactScript.Command.run FactScript.Command.lookOnDisk args
  IO.print outcome.stdout
  IO.eprint outcome.stderr
  return outcome.exit.toUInt32
