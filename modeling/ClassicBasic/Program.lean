import ClassicBasic.Source
import ClassicBasic.Statement.Parser

/-!
# Programs

A program is its numbered lines in the order of the source. All lines at fault are reported.
-/

namespace ClassicBasic

structure Line where
  number : Nat
  sourceLine : Nat
  text : String
  block : Block
deriving Repr, Inhabited

def Line.location (l : Line) : Location := ⟨l.number, l.sourceLine⟩

structure Program where
  lines : List Line
deriving Repr, Inhabited

mutual

/-- The constants of a statement, those in the branches of an IF included. -/
def Statement.constants : Statement → List Value
  | .data values => values
  | .ifThen _ block => blockConstants block
  | .ifElse _ block elseBlock => blockConstants block ++ blockConstants elseBlock
  | _ => []

/-- The constants of a block, in order. -/
def blockConstants : Block → List Value
  | [] => []
  | statement :: rest => statement.constants ++ blockConstants rest

end

/-- The line that a source line spells. -/
def Line.parse (l : SourceLine) : Except Diagnostic Line :=
  match Statement.parseBlock l.text.toList with
  | .ok block => .ok { number := l.number, sourceLine := l.sourceLine, text := l.text, block }
  | .error e =>
    .error
      { code := e.code, message := e.message, location := some ⟨l.number, l.sourceLine⟩,
        sourceText := String.ofList (Text.trim l.text.toList) }

namespace Program

/-- The place of the first line with this number. -/
def findLine? (p : Program) (number : Nat) : Option Nat :=
  p.lines.findIdx? fun l => l.number == number

/-- All constants of DATA, in the order of the program. -/
def constants (p : Program) : List Value := p.lines.flatMap fun l => blockConstants l.block

/-- The number of statements, an IF with its branches counting as one. -/
def statementCount (p : Program) : Nat := (p.lines.flatMap fun l => l.block).length

/-- The lines that can be read and the diagnostics of the others, each in order. -/
def parseEach : List SourceLine → List Line × List Diagnostic
  | [] => ([], [])
  | l :: rest =>
    let (lines, faults) := parseEach rest
    match Line.parse l with
    | .ok line => (line :: lines, faults)
    | .error d => (lines, d :: faults)

/-- The program of some source lines, or what is wrong with them. -/
def ofLines (source : List SourceLine) : Except Report Program :=
  let (lines, faults) := parseEach source
  if faults.isEmpty then .ok ⟨lines⟩ else .error (Report.ofList faults)

/-- The program of lines that may not have been read. -/
def ofLoaded : Except LoadError (List SourceLine) → Except Report Program
  | .ok source => ofLines source
  | .error e => .error (Report.single e.toDiagnostic)

/-- The program that `source` spells. -/
def parse (source : List Char) : Except Report Program := ofLoaded (Source.load source)

end Program

end ClassicBasic
