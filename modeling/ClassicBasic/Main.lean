import ClassicBasic.CommandLine

/-!
# The program

Reads the command line, the file and the console's input, and writes what the machine writes. A
statement that finds no input is executed again with one line more: until then it writes the same.
-/

open ClassicBasic

/-- What the system says of a file that cannot be read. -/
def fileFault : IO.Error → String
  | .noFileOrDirectory .. => "No such file or directory (os error 2)"
  | .permissionDenied .. => "Permission denied (os error 13)"
  | .inappropriateType .. => "Is a directory (os error 21)"
  | e => toString e

/-- The bytes of a file, or why there are none. -/
def readBytes (path : String) : IO (Except String (List UInt8)) := do
  try return .ok (← IO.FS.readBinFile path).toList
  catch e => return .error (fileFault e)

/-- The machine with an empty log, and what it had written. -/
def takeOutput (m : Machine) : Machine × String :=
  ({ m with console := { m.console with log := [] } }, m.console.output)

/-- Writes the part of `text` that is not on the screen yet, of which `shown` characters are. -/
def showRest (text : String) (shown : Nat) : IO Unit := do
  let out ← IO.getStdout
  out.putStr (String.ofList (text.toList.drop shown))
  out.flush

/-- Runs the machine to its end. `shown` characters of what the next statement writes are on the
screen already. -/
partial def runLoop (p : Program) (s : Settings) (m : Machine) (shown : Nat) : IO Ending := do
  match m.step p s with
  | .running m =>
    let (m, text) := takeOutput m
    showRest text shown
    runLoop p s m 0
  | .ended ending m' =>
    let (_, text) := takeOutput m'
    showRest text shown
    match ending with
    | .failed { cause := .inputClosed, .. } =>
      let line ← (← IO.getStdin).getLine
      if line.isEmpty then return ending
      let line := String.ofList (CommandLine.dropLineEnd line.toList)
      runLoop p s { m with console := m.console.feed line } text.length
    | _ => return ending

/-- Performs a command and gives its exit code. -/
def perform : Command → IO UInt32
  | .check file json => do
    match CommandLine.loadProgram file (← readBytes file) with
    | .ok p =>
      IO.print (CommandLine.renderSummary json file p)
      return 0
    | .error r =>
      IO.eprint (CommandLine.renderReport json r)
      return 1
  | .run file settings seed json => do
    match CommandLine.loadProgram file (← readBytes file) with
    | .ok p =>
      let chance ← IO.rand 0 (UInt64.size - 1)
      let m := Machine.start p (.ofSeed (seed.getD (UInt64.ofNat chance))) {}
      match ← runLoop p settings m 0 with
      | .finished _ => return 0
      | .failed f =>
        IO.eprint (CommandLine.renderReport json (CommandLine.failureReport f))
        return 1
    | .error r =>
      IO.eprint (CommandLine.renderReport json r)
      return 1

def main (args : List String) : IO UInt32 := do
  match CommandLine.parse? args with
  | some command => perform command
  | none =>
    IO.eprintln "usage: basic run FILE [--max-steps N] [--tab-width N] [--seed N] [--json]"
    IO.eprintln "       basic check FILE [--json]"
    return 2
