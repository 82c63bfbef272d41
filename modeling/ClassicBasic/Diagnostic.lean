import ClassicBasic.Json

/-!
# Diagnostics

A diagnostic has a numbered code, whose hundreds tell its category, a message, and where they are
known the place and the text at fault. A report counts all of them and keeps the first twenty.
-/

namespace ClassicBasic

inductive Category where
  | load
  | syntactic
  | expression
  | runtime
deriving DecidableEq, Repr

def Category.word : Category → String
  | .load => "load"
  | .syntactic => "syntax"
  | .expression => "expression"
  | .runtime => "runtime"

structure Code where
  number : Nat
deriving DecidableEq, Repr

namespace Code

def missingSeparator : Code := ⟨100⟩
def badLineNumber : Code := ⟨101⟩
def unreadableSource : Code := ⟨102⟩
def unknownStatement : Code := ⟨200⟩
def badTarget : Code := ⟨201⟩
def badStatement : Code := ⟨202⟩
def badExpression : Code := ⟨300⟩
def undefinedLine : Code := ⟨400⟩
def typeMismatch : Code := ⟨401⟩
def indexOutOfRange : Code := ⟨402⟩
def outOfData : Code := ⟨403⟩
def returnWithoutGosub : Code := ⟨404⟩
def nextWithoutFor : Code := ⟨405⟩
def undefinedName : Code := ⟨406⟩
def stepLimit : Code := ⟨407⟩
def inputClosed : Code := ⟨408⟩
def functionFailed : Code := ⟨409⟩
def consoleFailed : Code := ⟨410⟩

def category (c : Code) : Category :=
  if 100 ≤ c.number && c.number ≤ 199 then .load
  else if 200 ≤ c.number && c.number ≤ 299 then .syntactic
  else if 300 ≤ c.number && c.number ≤ 399 then .expression
  else .runtime

def display (c : Code) : String := "E" ++ toString c.number

end Code

/-- A numbered line of a program, and the line of the source it was read from, counted from one. -/
structure Location where
  line : Nat
  sourceLine : Nat
deriving DecidableEq, Repr

def Location.display (l : Location) : String :=
  "line " ++ toString l.line ++ " (source line " ++ toString l.sourceLine ++ ")"

structure Diagnostic where
  code : Code
  message : String
  location : Option Location := none
  /-- The text at fault; empty if there is none to show. -/
  sourceText : String := ""
deriving DecidableEq, Repr

namespace Diagnostic

def display (d : Diagnostic) : String :=
  (match d.location with
    | some l => l.display ++ ": "
    | none => "") ++
  d.code.display ++ " [" ++ d.code.category.word ++ "] " ++ d.message

def toJson (d : Diagnostic) : Json :=
  let location := match d.location with
    | some l =>
      [("location", Json.object [("line", .nat l.line), ("source_line", .nat l.sourceLine)])]
    | none => []
  let sourceText := if d.sourceText.isEmpty then [] else [("source_text", Json.string d.sourceText)]
  .object ([("code", .nat d.code.number), ("category", .string d.code.category.word),
    ("message", .string d.message)] ++ location ++ sourceText)

end Diagnostic

/-- The diagnostics of a program: the first of them, and how many there are. -/
structure Report where
  kept : List Diagnostic := []
  total : Nat := 0
deriving DecidableEq, Repr

namespace Report

/-- How many diagnostics a report keeps. -/
def capacity : Nat := 20

def add (r : Report) (d : Diagnostic) : Report where
  kept := if r.kept.length < capacity then r.kept ++ [d] else r.kept
  total := r.total + 1

def ofList (ds : List Diagnostic) : Report := ds.foldl add {}

def single (d : Diagnostic) : Report := ofList [d]

def hasErrors (r : Report) : Bool := 0 < r.total

/-- How many diagnostics are not kept. -/
def hidden (r : Report) : Nat := r.total - r.kept.length

def display (r : Report) : String :=
  "\n".intercalate (r.kept.map Diagnostic.display) ++
    if 0 < r.hidden then "\n... and " ++ toString r.hidden ++ " more" else ""

def toJson (r : Report) : Json :=
  .object [("errors", .array (r.kept.map Diagnostic.toJson)), ("total_errors", .nat r.total)]

end Report

end ClassicBasic
