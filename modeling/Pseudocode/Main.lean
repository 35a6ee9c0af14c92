import Pseudocode.CommandLine

/-! The program: it reads the file that the command line names and prints the answer. -/

namespace Pseudocode

def readContent (path : String) : IO (Option ByteArray) := do
  try
    return some (← IO.FS.readBinFile path)
  catch _ => return none

def answer (args : List String) : IO Outcome := do
  match Command.ofArgs args with
  | .error e => return .failure 2 ("error: " ++ e.message)
  | .ok .help => return .success helpText
  | .ok (.render request) => return request.run (← readContent request.path)

end Pseudocode

def main (args : List String) : IO UInt32 := do
  let outcome ← Pseudocode.answer args
  (← IO.getStdout).putStr outcome.stdout
  (← IO.getStderr).putStr outcome.stderr
  return outcome.exitCode.toUInt32
