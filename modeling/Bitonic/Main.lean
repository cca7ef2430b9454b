import Bitonic.CommandLine.Run
/-!
# The command

Runs the command line on the files of the machine.
-/

namespace Bitonic

def FileError.ofIO : IO.Error → FileError
  | .noFileOrDirectory .. => .notFound
  | .alreadyExists .. => .alreadyExists
  | .inappropriateType _ 20 _ => .notADirectory
  | .inappropriateType _ 21 _ => .isADirectory
  | e => .other (toString e)

/-- Runs a file operation and keeps the reason if it is refused. -/
def fileAction (action : IO Unit) : IO (Except FileError Unit) := do
  try
    action
    return .ok ()
  catch e => return .error (.ofIO e)

instance : FileOps IO where
  makeDirectories path := fileAction (IO.FS.createDirAll path.text)
  writeFile path content := fileAction (IO.FS.writeBinFile path.text content)
  moveFile source target := fileAction (IO.FS.rename source.text target.text)
  removeFile path := fileAction (IO.FS.removeFile path.text)

end Bitonic

def main (arguments : List String) : IO UInt32 := do
  let result : Bitonic.CommandLine.CommandResult ← Bitonic.CommandLine.runCommand arguments
  IO.print result.stdout
  IO.eprint result.stderr
  return UInt32.ofNat result.exitCode
