import ClassicBasic.Number.Numeral
import ClassicBasic.Text.Blank
import ClassicBasic.Text.Quoted
import ClassicBasic.Text.Split

/-!
# Patterns

A pattern describes the shape of a statement: literals, and slots that capture the text between
them. It is written as words separated by blanks, with each slot between braces as its name, a
colon and its type, for example `ON {expr:string} GOSUB {lines:[]int}`. The types are `int`,
`float` and `string`; one after `[]` captures a list. After a question mark, `sep=` gives the
list's separator and `max=` its greatest length, with `&` between them.
-/

namespace ClassicBasic

/-- What a slot captures. -/
inductive SlotKind where
  | int
  | float
  | text
deriving DecidableEq, Repr

structure Slot where
  name : String
  kind : SlotKind
  isList : Bool := false
  separator : Option Char := none
  /-- The greatest length of a list, as written. -/
  maximum : Option String := none
deriving DecidableEq, Repr

inductive Part where
  | literal (text : String)
  | slot (s : Slot)
deriving DecidableEq, Repr

structure Pattern where
  name : String
  /-- The literal at the start, which rules out most statements at once. -/
  leading? : Option String := none
  parts : List Part := []
deriving DecidableEq, Repr

/-- Why a text is no pattern. -/
inductive PatternError where
  | empty
  | adjacentSlots (name : String)
  | nestedBrace
  | strayBrace
  | unclosed
  | noType (slot : String)
  | emptyName
  | emptyType (name : String)
  | unknownType (type : String)
  | badParameter (pair : String)
deriving DecidableEq, Repr

def PatternError.message : PatternError → String
  | .empty => "empty grammar"
  | .adjacentSlots name =>
    "capture slot " ++ Text.quoted name ++ " directly follows another capture slot"
  | .nestedBrace => "found '\x7b' inside a capture slot"
  | .strayBrace => "found '\x7d' outside a capture slot"
  | .unclosed => "unclosed capture slot"
  | .noType slot => "invalid capture slot " ++ Text.quoted slot ++ ": expected name:type"
  | .emptyName => "capture slot name may not be empty"
  | .emptyType name => "capture slot " ++ Text.quoted name ++ " has an empty type"
  | .unknownType type => "unsupported capture type " ++ Text.quoted type
  | .badParameter pair => "invalid capture parameter " ++ Text.quoted pair

/-! ## Slots -/

namespace SlotKind

def ofName? (name : String) : Option SlotKind :=
  if name == "int" then some .int
  else if name == "float" then some .float
  else if name == "string" then some .text
  else none

end SlotKind

namespace Slot

/-- A list's greatest length is a 64-bit word. -/
def readMaximum? (cs : List Char) : Option Nat := Numeral.natBelow? UInt64.size cs

/-- The slot with the parameter that `pair` gives. -/
def addParameter (s : Slot) (pair : List Char) : Except PatternError Slot :=
  let bad := Except.error (.badParameter (String.ofList pair))
  match Text.cutAt? (· == '=') pair with
  | some (['s', 'e', 'p'], [c]) => .ok { s with separator := some c }
  | some (['m', 'a', 'x'], value) =>
    if (readMaximum? value).isSome then .ok { s with maximum := some (String.ofList value) }
    else bad
  | _ => bad

/-- The type and the parameters that stand behind the colon. -/
def typeAndPairs (spec : List Char) : List Char × List (List Char) :=
  match Text.cutAt? (· == '?') spec with
  | some (type, query) => (Text.trim type, Text.splitEvery (· == '&') query)
  | none => (Text.trim spec, [])

/-- Whether a type is that of a list, and the type of its items. -/
def listAndBase : List Char → Bool × List Char
  | '[' :: ']' :: base => (true, base)
  | base => (false, base)

/-- The slot written as `body` between braces. -/
def parse (body : List Char) : Except PatternError Slot :=
  match Text.cutAt? (· == ':') body with
  | none => .error (.noType (String.ofList body))
  | some (nameText, spec) =>
    let name := String.ofList (Text.trim nameText)
    let (typeText, pairs) := typeAndPairs spec
    if name.isEmpty then .error .emptyName
    else if typeText.isEmpty then .error (.emptyType name)
    else
      let (isList, base) := listAndBase typeText
      match SlotKind.ofName? (String.ofList base) with
      | some kind => pairs.foldlM addParameter { name, kind, isList }
      | none => .error (.unknownType (String.ofList base))

end Slot

/-! ## Patterns -/

namespace Pattern

/-- The literal that parts start with. -/
def leadingOf : List Part → Option String
  | .literal text :: _ => some text
  | _ => none

/-- The pattern followed by one more part. A literal that comes first is its leading one. -/
def append (p : Pattern) (part : Part) : Pattern where
  name := p.name
  leading? :=
    match p.parts, part with
    | [], .literal text => some text
    | _, _ => p.leading?
  parts := p.parts ++ [part]

/-- The pattern followed by a slot. Two slots in a row could not be told apart. -/
def appendSlot (p : Pattern) (s : Slot) : Except PatternError Pattern :=
  match p.parts.getLast? with
  | some (.slot _) => .error (.adjacentSlots s.name)
  | _ => .ok (p.append (.slot s))

/-- The pattern followed by the literal `word`, if it is one. -/
def appendWord (p : Pattern) (word : List Char) : Pattern :=
  if word.isEmpty then p else p.append (.literal (String.ofList word))

/-- The pattern `p` with the rest of its text. `word` is the literal or the slot read so far. -/
def compileFrom (p : Pattern) (inSlot : Bool) (word : List Char) :
    List Char → Except PatternError Pattern
  | [] =>
    if inSlot then .error .unclosed
    else
      let p := p.appendWord word
      if p.parts.isEmpty then .error .empty else .ok p
  | c :: cs =>
    if c == '\x7b' then
      if inSlot then .error .nestedBrace else compileFrom (p.appendWord word) true [] cs
    else if c == '\x7d' then
      if inSlot then do
        compileFrom (← p.appendSlot (← Slot.parse word)) false [] cs
      else .error .strayBrace
    else if !inSlot && Text.isBlank c then compileFrom (p.appendWord word) false [] cs
    else compileFrom p inSlot (word ++ [c]) cs

/-- The pattern that `text` describes. -/
def compile (name : String) (text : List Char) : Except PatternError Pattern :=
  compileFrom { name } false [] text

end Pattern

end ClassicBasic
