import ClassicBasic.Diagnostic
import ClassicBasic.Expr.Tree

/-!
# Statements

A block is a list of statements: those of a line, or those of a branch of an IF. Lines are named by
their numbers.
-/

namespace ClassicBasic

/-- An array with its subscripts, or in DIM with its sizes. -/
structure Element where
  name : String
  subscripts : List Expr
deriving Repr, Inhabited

/-- Where a value is stored. -/
inductive Target where
  | scalar (name : String)
  | element (e : Element)
deriving Repr, Inhabited

def Target.name : Target → String
  | .scalar name => name
  | .element e => e.name

inductive PrintItem where
  | expr (e : Expr)
  /-- Goes on to the next tab stop. -/
  | comma
  /-- Leaves no space; at the end of a list it keeps the line open. -/
  | semicolon
deriving Repr, Inhabited

inductive Statement where
  | data (values : List Value)
  | define (name : String) (params : List String) (body : Expr)
  | dim (arrays : List Element)
  | finish
  | forLoop (var : String) (first limit step : Expr)
  | gosub (line : Nat)
  | goto (line : Nat)
  | ifLine (condition : Expr) (line : Nat)
  | ifElseLine (condition : Expr) (line elseLine : Nat)
  | ifThen (condition : Expr) (block : List Statement)
  | ifElse (condition : Expr) (block elseBlock : List Statement)
  | input (prompt : Option String) (targets : List Target)
  | letTo (target : Target) (e : Expr)
  /-- No name stands for the innermost loop. -/
  | next (vars : List String)
  | onGosub (index : Expr) (lines : List Nat)
  | onGoto (index : Expr) (lines : List Nat)
  | print (items : List PrintItem)
  | read (targets : List Target)
  | remark (text : String)
  | restore
  | returnFrom
  | stop
  | assign (var : String) (e : Expr)
  | assignElement (target : Element) (e : Expr)
deriving Repr, Inhabited

abbrev Block := List Statement

namespace Statement

/-- The word a statement goes by. -/
def keyword : Statement → String
  | .data _ => "DATA"
  | .define .. => "DEF"
  | .dim _ => "DIM"
  | .finish => "END"
  | .forLoop .. => "FOR"
  | .gosub _ => "GOSUB"
  | .goto _ => "GOTO"
  | .ifLine .. | .ifElseLine .. | .ifThen .. | .ifElse .. => "IF"
  | .input .. => "INPUT"
  | .letTo .. => "LET"
  | .next _ => "NEXT"
  | .onGosub .. | .onGoto .. => "ON"
  | .print _ => "PRINT"
  | .read _ => "READ"
  | .remark _ => "REM"
  | .restore => "RESTORE"
  | .returnFrom => "RETURN"
  | .stop => "STOP"
  | .assign .. | .assignElement .. => "ASSIGN"

end Statement

/-! ## Faults -/

/-- A part of a statement that can be at fault. -/
inductive Clause where
  | assignmentTarget
  | arrayDeclaration
  | variableName
  | printList
  | inputPrompt
  | inputList
deriving DecidableEq, Repr

def Clause.words : Clause → String
  | .assignmentTarget => "assignment target"
  | .arrayDeclaration => "array declaration"
  | .variableName => "variable name"
  | .printList => "PRINT list"
  | .inputPrompt => "INPUT prompt"
  | .inputList => "INPUT list"

/-- Why a text is no statement. -/
inductive ParseError where
  | empty
  | unknown (text : String)
  | invalid (clause : Clause) (text : String)
  | lineNumber (n : Int)
  | expression (raw : String) (cause : SyntaxError)
deriving DecidableEq, Repr

namespace ParseError

def message : ParseError → String
  | .empty => "empty statement"
  | .unknown text => "unrecognized statement " ++ Text.quoted text
  | .invalid clause text => "invalid " ++ clause.words ++ " " ++ Text.quoted text
  | .lineNumber n => s!"line number {n} is out of range"
  | .expression raw cause => "expression " ++ Text.quoted raw ++ ": " ++ cause.message

def code : ParseError → Code
  | .empty | .unknown _ => .unknownStatement
  | .invalid .. => .badTarget
  | .lineNumber _ => .badStatement
  | .expression .. => .badExpression

end ParseError

end ClassicBasic
