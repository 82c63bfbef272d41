import ClassicBasic.Pattern.Match

/-!
# The forms of statements

Each form has a pattern, given by its text and by its parts. The patterns are tried in the order of
`Form.all`, so a longer form of a statement stands before a shorter one; the assignment, which
starts with no keyword, is tried last.
-/

namespace ClassicBasic

inductive Form where
  | data | define | dim | finish | forStep | forLoop | gosub | goto
  | ifElseLine | ifElse | ifLine | ifThen | ifGoto
  | input | letTo | next | nextBare | onGosub | onGoto | print | printBare | read
  | remark | remarkBare | restore | returnFrom | stop | assign
deriving DecidableEq, Repr

namespace Form

def all : List Form :=
  [.data, .define, .dim, .finish, .forStep, .forLoop, .gosub, .goto, .ifElseLine, .ifElse, .ifLine,
   .ifThen, .ifGoto, .input, .letTo, .next, .nextBare, .onGosub, .onGoto, .print, .printBare, .read,
   .remark, .remarkBare, .restore, .returnFrom, .stop, .assign]

/-- The name of a form's pattern. -/
def name : Form → String
  | .data => "DATA"
  | .define => "DEF"
  | .dim => "DIM"
  | .finish => "END"
  | .forStep => "FOR_STEP"
  | .forLoop => "FOR"
  | .gosub => "GOSUB"
  | .goto => "GOTO"
  | .ifElseLine => "IFELSELN"
  | .ifElse => "IFELSESTMT"
  | .ifLine => "IFLN"
  | .ifThen => "IFSTMT"
  | .ifGoto => "IFGOTO"
  | .input => "INPUT"
  | .letTo => "LET"
  | .next => "NEXT"
  | .nextBare => "NEXT_EMPTY"
  | .onGosub => "ON_GOSUB"
  | .onGoto => "ON_GOTO"
  | .print => "PRINT"
  | .printBare => "PRINT_EMPTY"
  | .read => "READ"
  | .remark => "REM"
  | .remarkBare => "REM_EMPTY"
  | .restore => "RESTORE"
  | .returnFrom => "RETURN"
  | .stop => "STOP"
  | .assign => "ASSIGN"

/-- The text of a form's pattern. -/
def grammar : Form → String
  | .data => "DATA {values:[]string}"
  | .define => "DEF {fnc:string}={expr:string}"
  | .dim => "DIM {arrays:[]string}"
  | .finish => "END"
  | .forStep => "FOR {var:string}={init:string} TO {limit:string} STEP {step:string}"
  | .forLoop => "FOR {var:string}={init:string} TO {limit:string}"
  | .gosub => "GOSUB {line:int}"
  | .goto => "GOTO {line:int}"
  | .ifElseLine => "IF {cond:string} THEN {line:int} ELSE {elseline:int}"
  | .ifElse => "IF {cond:string} THEN {stmts:string} ELSE {elsestmts:string}"
  | .ifLine => "IF {cond:string} THEN {line:int}"
  | .ifThen => "IF {cond:string} THEN {stmts:string}"
  | .ifGoto => "IF {cond:string} GOTO {line:int}"
  | .input => "INPUT{spec:string}"
  | .letTo => "LET {target:string}={expr:string}"
  | .next => "NEXT {vars:[]string}"
  | .nextBare => "NEXT"
  | .onGosub => "ON {expr:string} GOSUB {lines:[]int}"
  | .onGoto => "ON {expr:string} GOTO {lines:[]int}"
  | .print => "PRINT{items:string}"
  | .printBare => "PRINT"
  | .read => "READ {targets:[]string}"
  | .remark => "REM{text:string}"
  | .remarkBare => "REM"
  | .restore => "RESTORE"
  | .returnFrom => "RETURN"
  | .stop => "STOP"
  | .assign => "{target:string}={expr:string}"

/-- The set of all patterns, made of their texts. -/
def patternSet : Except PatternError PatternSet :=
  all.foldlM (fun set f => set.add f.name f.grammar.toList) {}

/-- A slot for one text. -/
def text (name : String) : Part := .slot { name, kind := .text }

/-- A slot for texts between commas. -/
def texts (name : String) : Part := .slot { name, kind := .text, isList := true }

/-- A slot for one line number. -/
def int (name : String) : Part := .slot { name, kind := .int }

/-- A slot for line numbers between commas. -/
def ints (name : String) : Part := .slot { name, kind := .int, isList := true }

/-- The parts of a form's pattern. -/
def parts : Form → List Part
  | .data => [.literal "DATA", texts "values"]
  | .define => [.literal "DEF", text "fnc", .literal "=", text "expr"]
  | .dim => [.literal "DIM", texts "arrays"]
  | .finish => [.literal "END"]
  | .forStep =>
    [.literal "FOR", text "var", .literal "=", text "init", .literal "TO", text "limit",
     .literal "STEP", text "step"]
  | .forLoop =>
    [.literal "FOR", text "var", .literal "=", text "init", .literal "TO", text "limit"]
  | .gosub => [.literal "GOSUB", int "line"]
  | .goto => [.literal "GOTO", int "line"]
  | .ifElseLine =>
    [.literal "IF", text "cond", .literal "THEN", int "line", .literal "ELSE", int "elseline"]
  | .ifElse =>
    [.literal "IF", text "cond", .literal "THEN", text "stmts", .literal "ELSE",
     text "elsestmts"]
  | .ifLine => [.literal "IF", text "cond", .literal "THEN", int "line"]
  | .ifThen => [.literal "IF", text "cond", .literal "THEN", text "stmts"]
  | .ifGoto => [.literal "IF", text "cond", .literal "GOTO", int "line"]
  | .input => [.literal "INPUT", text "spec"]
  | .letTo => [.literal "LET", text "target", .literal "=", text "expr"]
  | .next => [.literal "NEXT", texts "vars"]
  | .nextBare => [.literal "NEXT"]
  | .onGosub => [.literal "ON", text "expr", .literal "GOSUB", ints "lines"]
  | .onGoto => [.literal "ON", text "expr", .literal "GOTO", ints "lines"]
  | .print => [.literal "PRINT", text "items"]
  | .printBare => [.literal "PRINT"]
  | .read => [.literal "READ", texts "targets"]
  | .remark => [.literal "REM", text "text"]
  | .remarkBare => [.literal "REM"]
  | .restore => [.literal "RESTORE"]
  | .returnFrom => [.literal "RETURN"]
  | .stop => [.literal "STOP"]
  | .assign => [text "target", .literal "=", text "expr"]

def pattern (f : Form) : Pattern where
  name := f.name
  leading? := Pattern.leadingOf f.parts
  parts := f.parts

end Form

end ClassicBasic
