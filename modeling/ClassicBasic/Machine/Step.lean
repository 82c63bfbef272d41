import ClassicBasic.Machine.Basic

/-!
# Executing statements

Executing a statement changes the machine and says where the run goes on. A fault ends the run, and
what was changed before it stays changed.
-/

namespace ClassicBasic

/-- What a statement does: it changes the machine, and it may fail. -/
abbrev Execution := EStateM RuntimeError Machine

/-- Where a run goes on after a statement. -/
inductive Flow where
  | next
  | jump (target : Position)
  | halt (outcome : Outcome)

namespace Machine

/-! ## Expressions -/

/-- An evaluation in the machine's workspace. -/
def evaluate {α : Type} (x : Workspace → Evaluation α) : Execution α := fun m =>
  match x m.workspace m.random with
  | .ok a random => .ok a { m with random }
  | .error e random => .error (.expression e) { m with random }

def value (e : Expr) : Execution Value := evaluate fun w => w.eval [] e.tree

def number (e : Expr) : Execution Float := evaluate fun w => w.evalNumber e.tree

/-! ## Storing -/

def setVariable (name : String) (v : Value) : Execution Unit :=
  modify fun m =>
    { m with workspace := { m.workspace with vars := m.workspace.vars.insert name v } }

def setFunction (name : String) (f : Function) : Execution Unit :=
  modify fun m =>
    { m with workspace := { m.workspace with functions := m.workspace.functions.insert name f } }

def setArray (name : String) (g : Grid) : Execution Unit :=
  modify fun m =>
    { m with workspace := { m.workspace with arrays := m.workspace.arrays.insert name g } }

/-- A step on an array, whose faults name it. -/
def onArray {α : Type} (name : String) : Except GridError α → Execution α
  | .ok a => return a
  | .error e => throw (.array name e)

/-- Stores `v` in an element. The subscripts are evaluated before the array is looked up. -/
def storeElement (e : Element) (v : Value) : Execution Unit := do
  let coordinates ← e.subscripts.mapM fun s => do
    onArray e.name (Grid.coordinate (← number s))
  match (← get).workspace.arrays.get? e.name with
  | some g => setArray e.name (← onArray e.name (g.set coordinates v))
  | none => throw (.unknownArray e.name)

/-- Stores `v` in a target. A variable takes a value of either kind. -/
def store (v : Value) : Target → Execution Unit
  | .scalar name => setVariable name v
  | .element e => storeElement e v

/-- The value `v` as a target called `name` takes it: a text for a text name, a number for any
other. -/
def convertFor (name : String) : Value → Except RuntimeError Value
  | .number x => if isTextName name then .ok (.text (Numeral.display x)) else .ok (.number x)
  | .text s =>
    if isTextName name then .ok (.text s)
    else
      match Numeral.number? (Text.trim s.toList) with
      | some x => .ok (.number x)
      | none => .error (.notNumeric name s)

/-- Makes an array, which from now on is read by a function of its name. -/
def dimension (e : Element) : Execution Unit := do
  let sizes ← e.subscripts.mapM fun s => do
    onArray e.name (Grid.sizeOf (← number s))
  let g ← onArray e.name (Grid.make (Kind.ofName e.name) sizes)
  setFunction e.name .array
  setArray e.name g

/-! ## Jumps -/

/-- The start of the line with this number. -/
def lineNumbered (p : Program) (number : Nat) : Execution Position :=
  match p.findLine? number with
  | some i => return p.lineStart i
  | none => throw (.undefinedLine number)

/-- Goes to a subroutine, which returns to the statement after this one. -/
def gosub (p : Program) (here : Position) (number : Nat) : Execution Flow := do
  let target ← lineNumbered p number
  modify fun m => { m with returns := here.next :: m.returns }
  return .jump target

/-- The line that the index picks, counted from one. -/
def pick (index : Int) (lines : List Nat) : Execution Nat :=
  match if 1 ≤ index then lines[(index - 1).toNat]? else none with
  | some line => return line
  | none => throw (.onIndex index lines.length)

/-! ## Loops -/

/-- The loops outside the innermost one over `var`; all of them if there is none. -/
def outsideLoop (var : String) (loops : List Loop) : List Loop :=
  match loops.dropWhile fun l => l.var != var with
  | [] => loops
  | _ :: outer => outer

/-- Begins a loop. A loop over the same variable is given up, and with it those inside. -/
def beginLoop (here : Position) (var : String) (first limit step : Expr) : Execution Flow := do
  let first ← number first
  let limit ← number limit
  let step ← number step
  setVariable var (.number first)
  modify fun m =>
    { m with loops := { var, limit, step, resume := here.next } :: outsideLoop var m.loops }
  return .next

/-- The loop that NEXT goes on with, followed by those outside it: the innermost one, or the
innermost over `var`. -/
def fromLoop (var : Option String) (loops : List Loop) : List Loop :=
  match var with
  | some name => loops.dropWhile fun l => l.var != name
  | none => loops

/-- Goes on with the innermost loop, or with that over `var`, giving up those inside it. When it is
over, its variable keeps the last value. -/
def nextLoop (var : Option String) : Execution Flow := do
  let m : Machine ← get
  match fromLoop var m.loops with
  | [] => throw (.nextWithoutFor var)
  | l :: outer =>
    match m.workspace.vars.get? l.var with
    | some (.number x) =>
      if l.goesOn (x + l.step) then
        setVariable l.var (.number (x + l.step))
        modify fun m => { m with loops := l :: outer }
        return .jump l.resume
      else
        modify fun m => { m with loops := outer }
        return .next
    | _ => throw (.loopVariable l.var)

/-- Goes on with the loops over these variables, up to the first that is not over. -/
def nextLoops : List String → Execution Flow
  | [] => return .next
  | var :: rest => do
    match ← nextLoop (some var) with
    | .next => nextLoops rest
    | flow => return flow

/-! ## The console -/

/-- The column after writing `s` at `column`. -/
def columnAfter (column : Nat) (s : String) : Nat :=
  s.toList.foldl (fun n c => if c == '\n' then 0 else n + 1) column

def write (s : String) : Execution Unit := do
  modify fun m => { m with column := columnAfter m.column s }
  match (← get).console.write? s with
  | some console => modify fun m => { m with console }
  | none => throw (.console Console.failure)

/-- The next line of input. The reply ends its line on the screen. -/
def readLine : Execution String := do
  match (← get).console.read? with
  | some (line, console) =>
    modify fun m => { m with console }
    match line with
    | some line =>
      modify fun m => { m with column := 0 }
      return line
    | none => throw .inputClosed
  | none => throw (.console Console.failure)

/-- The blanks up to the next tab stop. -/
def padding (tabWidth column : Nat) : String :=
  let tab := max 1 tabWidth
  String.ofList (List.replicate (tab - column % tab) ' ')

def printItem (s : Settings) : PrintItem → Execution Unit
  | .expr e => do write (← value e).display
  | .comma => do write (padding s.tabWidth (← get).column)
  | .semicolon => return

/-- Prints the items, and ends the line unless the last of them is a semicolon. -/
def print (s : Settings) (items : List PrintItem) : Execution Unit := do
  items.forM (printItem s)
  match items.getLast? with
  | some .semicolon => return
  | _ => write "\n"

/-- A piece of a reply, without blanks and without the quotes around it. -/
def replyPiece (cs : List Char) : String :=
  let piece := Text.trim cs
  String.ofList ((Clause.unquote? piece).getD piece)

/-- The values of a reply to INPUT, if it fits the targets. -/
def reply? (targets : List Target) (line : String) : Option (List Value) :=
  let pieces := Text.splitOutsideQuotes ',' line.toList
  if pieces.length == targets.length then
    (targets.zip pieces).mapM fun (target, piece) =>
      (convertFor target.name (.text (replyPiece piece))).toOption
  else none

/-- Asks until a reply fits, at most `attempts` times. -/
def ask (prompt : String) (targets : List Target) : (attempts : Nat) → Execution (List Value)
  | 0 => throw .inputClosed
  | attempts + 1 => do
    write (prompt ++ "? ")
    match reply? targets (← readLine) with
    | some values => return values
    | none =>
      write "?REDO FROM START\n"
      ask prompt targets attempts

/-- Asks for values and stores them. One attempt more than there are lines finds the input
closed. -/
def input (prompt : Option String) (targets : List Target) : Execution Unit := do
  let values ← ask (prompt.getD "") targets ((← get).console.input.length + 1)
  (targets.zip values).forM fun (target, v) => store v target

/-- Stores the next constant of DATA. -/
def readInto (target : Target) : Execution Unit := do
  match (← get).data.read? with
  | some (v, data) =>
    modify fun m => { m with data }
    store (← convertFor target.name v) target
  | none => throw .outOfData

/-! ## Statements -/

/-- Executes a statement, which stands at `here` in the line `line` of the program. -/
def execute (p : Program) (s : Settings) (line : Line) (here : Position) :
    Statement → Execution Flow
  | .data _ | .remark _ => return .next
  | .define name params body => do
    setFunction name (.defined params body)
    return .next
  | .dim arrays => do
    arrays.forM dimension
    return .next
  | .finish => return .halt .ended
  | .stop => return .halt (.stopped line.number)
  | .forLoop var first limit step => beginLoop here var first limit step
  | .next [] => nextLoop none
  | .next vars => nextLoops vars
  | .goto number => return .jump (← lineNumbered p number)
  | .gosub number => gosub p here number
  | .returnFrom => do
    match (← get).returns with
    | target :: returns =>
      modify fun m => { m with returns }
      return .jump target
    | [] => throw .returnWithoutGosub
  | .ifLine condition number => do
    if (← value condition).isTrue then return .jump (← lineNumbered p number)
    else return .next
  | .ifElseLine condition number elseNumber => do
    let number := if (← value condition).isTrue then number else elseNumber
    return .jump (← lineNumbered p number)
  | .ifThen condition block => do
    if (← value condition).isTrue then return .jump (here.enter block) else return .next
  | .ifElse condition block elseBlock => do
    if (← value condition).isTrue then return .jump (here.enter block)
    else return .jump (here.enter elseBlock)
  | .input prompt targets => do
    input prompt targets
    return .next
  | .letTo target e => do
    store (← value e) target
    return .next
  | .assign var e => do
    setVariable var (← value e)
    return .next
  | .assignElement target e => do
    storeElement target (← value e)
    return .next
  | .onGoto index lines => do
    let number ← pick (Double.roundAway (← number index)) lines
    return .jump (← lineNumbered p number)
  | .onGosub index lines => do
    gosub p here (← pick (Double.truncate (← number index)) lines)
  | .print items => do
    print s items
    return .next
  | .read targets => do
    targets.forM readInto
    return .next
  | .restore => do
    modify fun m => { m with data := m.data.restore }
    return .next

/-- Counts a statement, which must not be one too many. -/
def tick (s : Settings) : Execution Unit := do
  modify fun m => { m with steps := m.steps + 1 }
  match s.maxSteps with
  | some limit => if limit < (← get).steps then throw (.stepLimit limit)
  | none => return

end Machine

/-- How a run ends. -/
inductive Ending where
  | finished (outcome : Outcome)
  | failed (failure : Failure)

/-- The result of one step. -/
inductive Step where
  | running (m : Machine)
  | ended (ending : Ending) (m : Machine)

namespace Machine

/-- Executes the next statement. -/
def step (p : Program) (s : Settings) (m : Machine) : Step :=
  let here := p.settle m.position
  match p.lines[here.line]?, here.block[here.index]? with
  | some line, some statement =>
    let run : Execution Flow := do
      tick s
      execute p s line here statement
    match run { m with position := here } with
    | .ok .next m => .running { m with position := here.next }
    | .ok (.jump target) m => .running { m with position := target }
    | .ok (.halt outcome) m => .ended (.finished outcome) m
    | .error cause m => .ended (.failed ⟨line.location, line.text, cause⟩) m
  | _, _ => .ended (.finished .fellOff) { m with position := here }

/-- Executes at most `fuel` statements; nothing if the run has not ended by then. -/
def run (p : Program) (s : Settings) : (fuel : Nat) → Machine → Option (Ending × Machine)
  | 0, _ => none
  | fuel + 1, m =>
    match m.step p s with
    | .running m => run p s fuel m
    | .ended ending m => some (ending, m)

end Machine

end ClassicBasic
