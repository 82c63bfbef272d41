import ClassicBasic.Machine.Step

/-!
# The command line

`run FILE` runs a program and `check FILE` only reads it. Options stand before or after the file,
as `--name value` or `--name=value`, and none may be given twice. Faults are reported as text or as
JSON.
-/

namespace ClassicBasic

/-- What the command line asks for. -/
inductive Command where
  | run (file : String) (settings : Settings) (seed : Option UInt64) (json : Bool)
  | check (file : String) (json : Bool)
deriving Repr

namespace CommandLine

/-! ## Arguments -/

/-- The arguments of a command. -/
structure Arguments where
  file : Option String := none
  maxSteps : Option Nat := none
  tabWidth : Option Nat := none
  seed : Option Nat := none
  json : Bool := false
  verbose : Bool := false
deriving Repr

/-- An option of `run` that takes a number. -/
inductive NumberOption where
  | maxSteps
  | tabWidth
  | seed
deriving DecidableEq, Repr

def NumberOption.ofName? : String → Option NumberOption
  | "--max-steps" => some .maxSteps
  | "--tab-width" => some .tabWidth
  | "--seed" => some .seed
  | _ => none

namespace Arguments

/-- The arguments with a number given to an option; nothing if it has one, or if the text is no
64-bit word. -/
def setNumber? (a : Arguments) (o : NumberOption) (text : String) : Option Arguments := do
  let n ← Numeral.natBelow? UInt64.size text.toList
  match o with
  | .maxSteps => if a.maxSteps.isNone then some { a with maxSteps := some n } else none
  | .tabWidth => if a.tabWidth.isNone then some { a with tabWidth := some n } else none
  | .seed => if a.seed.isNone then some { a with seed := some n } else none

/-- The arguments with a file; nothing if there is one, or if the name is empty. -/
def setFile? (a : Arguments) (file : String) : Option Arguments :=
  if a.file.isNone && !file.isEmpty then some { a with file := some file } else none

def setJson? (a : Arguments) : Option Arguments :=
  if a.json then none else some { a with json := true }

def setVerbose? (a : Arguments) : Option Arguments :=
  if a.verbose then none else some { a with verbose := true }

end Arguments

/-- An option and its number when they are given as one word. -/
def splitOption? (word : String) : Option (NumberOption × String) := do
  let (name, text) ← Text.cutAt? (· == '=') word.toList
  some (← NumberOption.ofName? (String.ofList name), String.ofList text)

/-- Whether a word can only be an option. -/
def isOption (word : String) : Bool := word.toList.head? == some '-' && word != "-"

/-- The arguments that the words of a command give; `numbers` says whether it takes the options
with numbers. Nothing if the words are not understood. -/
def readWords? (numbers : Bool) : (a : Arguments) → List String → Option Arguments
  | a, [] => some a
  | a, "--json" :: rest => do readWords? numbers (← a.setJson?) rest
  | a, "-v" :: rest => do readWords? numbers (← a.setVerbose?) rest
  | a, "--verbose" :: rest => do readWords? numbers (← a.setVerbose?) rest
  | a, "--" :: rest => rest.foldlM Arguments.setFile? a
  | a, [word] =>
    match splitOption? word with
    | some (o, text) => if numbers then a.setNumber? o text else none
    | none => if isOption word then none else a.setFile? word
  | a, word :: value :: rest =>
    match NumberOption.ofName? word, splitOption? word with
    | some o, _ => if numbers then do readWords? numbers (← a.setNumber? o value) rest else none
    | none, some (o, text) =>
      if numbers then do readWords? numbers (← a.setNumber? o text) (value :: rest) else none
    | none, none =>
      if isOption word then none else do readWords? numbers (← a.setFile? word) (value :: rest)

/-- The command that the words after its name give. -/
def command? (name : String) (words : List String) : Option Command :=
  match name with
  | "run" => do
    let a ← readWords? true {} words
    let settings : Settings := { maxSteps := a.maxSteps, tabWidth := a.tabWidth.getD 10 }
    some (.run (← a.file) settings (a.seed.map UInt64.ofNat) a.json)
  | "check" => do
    let a ← readWords? false {} words
    some (.check (← a.file) a.json)
  | _ => none

/-- The command that a command line gives; nothing if it is not understood. -/
def parse? : List String → Option Command
  | "-v" :: name :: words => command? name words
  | "--verbose" :: name :: words => command? name words
  | name :: words => command? name words
  | [] => none

/-! ## Files, input and reports -/

/-- The program of a file that gave these bytes, or could not be read for some reason. -/
def loadProgram (path : String) (content : Except String (List UInt8)) : Except Report Program :=
  Program.ofLoaded <|
    match content with
    | .ok bytes => Source.loadFile path bytes
    | .error reason => .error (.unreadable path reason)

/-- A line of input without the line end after it. -/
def dropLineEnd (line : List Char) : List Char :=
  (line.reverse.dropWhile fun c => c == '\r' || c == '\n').reverse

/-- The lines of all input. -/
def inputLines (input : List Char) : List String :=
  let lines := Text.splitEvery (· == '\n') input
  let lines := if lines.getLast? = some [] then lines.dropLast else lines
  lines.map fun line => String.ofList (dropLineEnd line)

/-- A report as text or as JSON. -/
def renderReport (json : Bool) (r : Report) : String :=
  (if json then r.toJson.pretty else r.display) ++ "\n"

/-- What `check` says of a program without faults. -/
def renderSummary (json : Bool) (file : String) (p : Program) : String :=
  let lines := p.lines.length
  let statements := p.statementCount
  if json then
    (Json.object [("file", .string file), ("lines", .nat lines),
      ("statements", .nat statements)]).pretty ++ "\n"
  else file ++ s!": {lines} lines, {statements} statements, no errors\n"

/-- The report of a failed run. -/
def failureReport (f : Failure) : Report := Report.single f.toDiagnostic

/-! ## Commands -/

/-- What a command leaves behind. -/
structure Response where
  exitCode : Nat
  output : String := ""
  errors : String := ""
deriving DecidableEq, Repr

/-- The response to a command line that is not understood. -/
def usageError : Response := { exitCode := 2 }

/-- The response to a fault. -/
def failed (json : Bool) (r : Report) (output : String) : Response where
  exitCode := 1
  output := output
  errors := renderReport json r

/-- The response to a command. `files` gives the bytes of a file or the reason why there are none,
`input` is all console input, `seed` stands in for a seed that is not given. A run that has not
ended after `fuel` statements has none. -/
def respond (fuel : Nat) (files : String → Except String (List UInt8)) (input : List Char)
    (seed : UInt64) : Command → Option Response
  | .check file json =>
    match loadProgram file (files file) with
    | .error r => some (failed json r "")
    | .ok p => some { exitCode := 0, output := renderSummary json file p }
  | .run file settings given json =>
    match loadProgram file (files file) with
    | .error r => some (failed json r "")
    | .ok p => do
      let console : Console := { input := inputLines input }
      let (ending, m) ← (Machine.start p (.ofSeed (given.getD seed)) console).run p settings fuel
      match ending with
      | .finished _ => some { exitCode := 0, output := m.console.output }
      | .failed f => some (failed json (failureReport f) m.console.output)

end CommandLine

end ClassicBasic
