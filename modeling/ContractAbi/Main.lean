import ContractAbi.Command.Run

/-!
# The program

The command line on the files of the machine that it runs on.
-/

namespace ContractAbi

/-- An error of the machine as an error of file access. -/
def FileError.ofMachine : IO.Error → FileError
  | .noFileOrDirectory _ _ _ => .notFound
  | .alreadyExists _ _ _ => .alreadyExists
  | .inappropriateType _ code _ => if code = 20 then .notDirectory else .isDirectory
  | .userError _ => .notText
  | e => .other e.toString

/-- An access whose error is given as a value. -/
def attempt {α : Type} (access : IO α) : IO (Except FileError α) := do
  match ← access.toBaseIO with
  | .ok value => return .ok value
  | .error e => return .error (.ofMachine e)

/-- The files of the machine. A path is one of a directory if `.` is found behind it. -/
def machineFiles : FileAccess IO where
  read path := attempt (IO.FS.readFile path)
  write path text := attempt (IO.FS.writeFile path text)
  make path := attempt (IO.FS.createDir path)
  isDirectory path := do
    return (← attempt (IO.FS.createDir (path ++ "/."))) matches .error .alreadyExists

/-- The settings of the environment of the program. -/
def machineEnvironment : IO Environment := do
  return ⟨← IO.getEnv "TON_ABI_OUTPUT_DIR", ← IO.getEnv "TON_ABI_HTTP_TIMEOUT_SECS"⟩

end ContractAbi

open ContractAbi in
/-- Carries out one call. -/
def main (args : List String) : IO UInt32 := do
  let outcome ← Command.run machineFiles.library (← machineEnvironment) args
  (← IO.getStdout).putStr outcome.output
  (← IO.getStderr).putStr outcome.errors
  return UInt32.ofNat outcome.code
