import ClassicBasic.Console
import ClassicBasic.DataCursor
import ClassicBasic.Expr.Eval
import ClassicBasic.Machine.Error
import ClassicBasic.Program

/-!
# The machine

A machine is what a program's run has made so far: where it stands, what it has stored, the loops
and subroutines under way, what it has read and written.
-/

namespace ClassicBasic

/-- How a program is run. -/
structure Settings where
  /-- The most statements to execute. -/
  maxSteps : Option Nat := none
  /-- The width of PRINT's columns. -/
  tabWidth : Nat := 10
deriving DecidableEq, Repr, Inhabited

/-- A place before a statement, or after the last one of its block. -/
structure Position where
  /-- The place of the line in the program. -/
  line : Nat
  /-- The line's statements, or those of a branch of an IF in it. -/
  block : Block
  /-- The place of the statement in the block. -/
  index : Nat
deriving Repr, Inhabited

/-- The place after the statement here. -/
def Position.next (p : Position) : Position := { p with index := p.index + 1 }

/-- The start of a branch, which takes the place of the rest of the line. -/
def Position.enter (p : Position) (block : Block) : Position := { p with block, index := 0 }

namespace Program

/-- The start of the line at place `i`; past the last line there is nothing. -/
def lineStart (p : Program) (i : Nat) : Position where
  line := i
  block := ((p.lines[i]?).map Line.block).getD []
  index := 0

/-- The place of the first line from `i` on that has a statement. -/
def skipEmpty (p : Program) (i : Nat) : Nat :=
  i + ((p.lines.drop i).takeWhile fun l => l.block.isEmpty).length

/-- Where a run goes on that has come to `here`: a block that is done leads to the next line, and
past the last line there is nowhere to go. -/
def settle (p : Program) (here : Position) : Position :=
  if p.lines.length ≤ here.line ∨ here.index < here.block.length then here
  else p.lineStart (p.skipEmpty (here.line + 1))

end Program

/-- A FOR loop under way. -/
structure Loop where
  var : String
  limit : Float
  step : Float
  /-- The place after the FOR. -/
  resume : Position
deriving Repr, Inhabited

/-- Whether a loop goes on with its variable at `x`. -/
def Loop.goesOn (l : Loop) (x : Float) : Bool :=
  if 0 ≤ l.step then x ≤ l.limit else l.limit ≤ x

structure Machine where
  position : Position
  workspace : Workspace
  random : Random
  /-- The loops under way, the innermost first. -/
  loops : List Loop := []
  /-- Where the subroutines under way return to, the innermost first. -/
  returns : List Position := []
  data : DataCursor
  console : Console
  /-- The number of characters on the last line of the screen. -/
  column : Nat := 0
  /-- The number of statements begun. -/
  steps : Nat := 0

namespace Machine

/-- A machine about to run `p` for the first time. -/
def start (p : Program) (random : Random) (console : Console) : Machine where
  position := p.lineStart 0
  workspace := ({} : Workspace).withBuiltins
  random := random
  data := { values := p.constants }
  console := console

/-- The machine about to run `p` again, with all that it has stored. -/
def restart (p : Program) (m : Machine) : Machine := { m with position := p.lineStart 0 }

end Machine

/-- How a run ends without a fault. -/
inductive Outcome where
  | ended
  | stopped (line : Nat)
  /-- The run went past the last line. -/
  | fellOff
deriving DecidableEq, Repr

/-- A fault with the line whose statement it stopped. -/
structure Failure where
  location : Location
  text : String
  cause : RuntimeError

namespace Failure

def message (f : Failure) : String := "line " ++ toString f.location.line ++ ": " ++ f.cause.message

def toDiagnostic (f : Failure) : Diagnostic where
  code := f.cause.code
  message := f.cause.message
  location := some f.location
  sourceText := String.ofList (Text.trim f.text.toList)

end Failure

end ClassicBasic
