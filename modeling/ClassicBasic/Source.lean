import ClassicBasic.Diagnostic
import ClassicBasic.Number.Numeral
import ClassicBasic.Text.Blank
import ClassicBasic.Text.Quoted
import ClassicBasic.Text.Split

/-!
# Numbered source lines

Each line of a source starts with its number; the rest of it, after one blank character, is its
text. Lines that are blank are skipped but counted. The first line at fault ends the reading.

A line ends with a line feed, or with a return and a line feed; the last one may have no end. A
source in memory is cut into its lines at once, and one that is read as bytes is collected byte by
byte, with each line decoded when it is complete.
-/

namespace ClassicBasic

structure SourceLine where
  /-- The place of the line in the source, counted from one. -/
  sourceLine : Nat
  number : Nat
  text : String
deriving DecidableEq, Repr

inductive LoadError where
  | unreadable (path reason : String)
  | missingSeparator (sourceLine : Nat) (text : String)
  | badNumber (sourceLine : Nat) (number : String)
deriving DecidableEq, Repr

namespace LoadError

def message : LoadError → String
  | .unreadable path reason => "cannot read " ++ path ++ ": " ++ reason
  | .missingSeparator sourceLine text =>
    s!"source line {sourceLine}: no separator after line number in " ++ Text.quoted text
  | .badNumber sourceLine number =>
    s!"source line {sourceLine}: invalid line number " ++ Text.quoted number

def code : LoadError → Code
  | .unreadable .. => .unreadableSource
  | .missingSeparator .. => .missingSeparator
  | .badNumber .. => .badLineNumber

def toDiagnostic (e : LoadError) : Diagnostic where
  code := e.code
  message := e.message
  sourceText := match e with
    | .missingSeparator _ text => text
    | _ => ""

end LoadError

namespace Source

/-- Line numbers are 32-bit words. -/
def numberLimit : Nat := UInt32.size

/-- The characters that do not count at the ends of a line. -/
def isEdge (c : Char) : Bool := c == ' ' || c == '\r' || c == '\n' || c == '\t'

/-- The numbered line that `cs` holds, or nothing if it is blank. -/
def parseLine (sourceLine : Nat) (cs : List Char) : Except LoadError (Option SourceLine) :=
  let line := Text.trimBy isEdge cs
  if line.isEmpty then .ok none
  else
    match Text.cutAt? Text.isBlank line with
    | none => .error (.missingSeparator sourceLine (String.ofList line))
    | some (digits, text) =>
      match Numeral.natBelow? numberLimit digits with
      | some number => .ok (some { sourceLine, number, text := String.ofList text })
      | none => .error (.badNumber sourceLine (String.ofList digits))

/-- The numbered lines among `lines`, the first of which is line `sourceLine` of the source;
`decode` gives a line's characters. -/
def parseLines {α : Type} (decode : α → Except LoadError (List Char)) :
    (sourceLine : Nat) → List α → Except LoadError (List SourceLine)
  | _, [] => .ok []
  | sourceLine, line :: lines => do
    let parsed ← parseLine sourceLine (← decode line)
    return parsed.toList ++ (← parseLines decode (sourceLine + 1) lines)

/-- A line without its end. -/
def dropEnd (line : List Char) : List Char :=
  match line.reverse with
  | '\n' :: '\r' :: rest => rest.reverse
  | '\n' :: rest => rest.reverse
  | _ => line

/-- The lines of a text, without their ends. -/
def lines (text : List Char) : List (List Char) :=
  (Text.splitAfter (· == '\n') text).map dropEnd

/-- The numbered lines of a source. -/
def load (source : List Char) : Except LoadError (List SourceLine) :=
  parseLines .ok 1 (lines source)

/-- What is said of bytes that are no text. -/
def notUtf8 : String := "stream did not contain valid UTF-8"

/-- The text of some bytes, read from `path`. -/
def decode (path : String) (bytes : List UInt8) : Except LoadError (List Char) :=
  match String.fromUTF8? ⟨bytes.toArray⟩ with
  | some s => .ok s.toList
  | none => .error (.unreadable path notUtf8)

/-- The lines that some bytes are, with their ends. `begun` holds the bytes of the line at hand that
were read before them, the last one first. -/
def readLines (begun : List UInt8) : List UInt8 → List (List UInt8)
  | [] => if begun.isEmpty then [] else [begun.reverse]
  | b :: bytes =>
    if b == '\n'.toUInt8 then (b :: begun).reverse :: readLines [] bytes
    else readLines (b :: begun) bytes

/-- The text of a line that was read from `path`, without its end. -/
def decodeLine (path : String) (bytes : List UInt8) : Except LoadError (List Char) := do
  return dropEnd (← decode path bytes)

/-- The numbered lines of a source given as bytes, which are decoded line by line. -/
def loadBytes (path : String) (bytes : List UInt8) : Except LoadError (List SourceLine) :=
  parseLines (decodeLine path) 1 (readLines [] bytes)

/-- The numbered lines of a file, whose bytes are decoded as a whole. -/
def loadFile (path : String) (bytes : List UInt8) : Except LoadError (List SourceLine) := do
  load (← decode path bytes)

end Source

end ClassicBasic
