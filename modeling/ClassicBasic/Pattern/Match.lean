import ClassicBasic.Pattern.Basic
import ClassicBasic.Table
import ClassicBasic.Text.Search

/-!
# Matching patterns

A slot captures the text up to the literal after it, found outside quotes, or up to the end. Blanks
around literals and captures do not count, a capture may not be blank, and nothing but blanks may
be left over.
-/

namespace ClassicBasic

/-- What a slot has captured. -/
inductive Capture where
  | int (n : Int)
  | float (x : Float)
  | text (s : String)
  | ints (ns : List Int)
  | floats (xs : List Float)
  | texts (ss : List String)
deriving Repr, Inhabited

/-- Why a text does not fit a pattern. Offsets count bytes of the text without blanks around it. -/
inductive NoMatch where
  | expected (literal : String) (offset : Nat)
  | notFound (literal : String)
  | blankCapture (slot : String)
  | adjacentSlots
  | tooMany (slot : String) (count maximum : Nat)
  | notInteger (slot text : String)
  | notNumber (slot text : String)
  | trailing (text : String)
deriving DecidableEq, Repr

/-- The message for a text that does not fit the pattern `name`. -/
def NoMatch.message (name : String) : NoMatch → String
  | .expected literal offset => name ++ ": expected " ++ Text.quoted literal ++ s!" at {offset}"
  | .notFound literal => name ++ ": " ++ Text.quoted literal ++ " not found"
  | .blankCapture slot => name ++ ": " ++ slot ++ " is empty"
  | .adjacentSlots => name ++ ": adjacent captures"
  | .tooMany slot count maximum =>
    slot ++ s!": {count} elements exceed the maximum of {maximum}"
  | .notInteger slot text => slot ++ ": " ++ Text.quoted text ++ " is not an integer"
  | .notNumber slot text => slot ++ ": " ++ Text.quoted text ++ " is not a number"
  | .trailing text => name ++ ": unexpected trailing text " ++ Text.quoted text

/-! ## Slots -/

namespace Slot

def toInt (s : Slot) (cs : List Char) : Except NoMatch Int :=
  match Numeral.int? cs with
  | some n => .ok n
  | none => .error (.notInteger s.name (String.ofList cs))

def toFloat (s : Slot) (cs : List Char) : Except NoMatch Float :=
  match Numeral.number? cs with
  | some x => .ok x
  | none => .error (.notNumber s.name (String.ofList cs))

/-- The elements of a list, which must not be more than the slot allows. -/
def elements (s : Slot) (cs : List Char) : Except NoMatch (List (List Char)) :=
  let pieces := (Text.splitOutsideBrackets (s.separator.getD ',') cs).map Text.trim
  match s.maximum.bind fun m => readMaximum? m.toList with
  | some maximum =>
    if maximum < pieces.length then .error (.tooMany s.name pieces.length maximum) else .ok pieces
  | none => .ok pieces

/-- What the slot makes of the text `cs`. -/
def convert (s : Slot) (cs : List Char) : Except NoMatch Capture :=
  match s.isList, s.kind with
  | false, .int => return .int (← s.toInt cs)
  | false, .float => return .float (← s.toFloat cs)
  | false, .text => return .text (String.ofList cs)
  | true, .int => return .ints (← (← s.elements cs).mapM s.toInt)
  | true, .float => return .floats (← (← s.elements cs).mapM s.toFloat)
  | true, .text => return .texts ((← s.elements cs).map String.ofList)

end Slot

/-! ## Patterns -/

namespace Pattern

/-- The text that a slot captures when `parts` follow it, and what is left. -/
def capturedBy (parts : List Part) (cs : List Char) : Except NoMatch (List Char × List Char) :=
  match parts with
  | [] => .ok (cs, [])
  | .literal next :: _ =>
    match Text.findOutsideQuotes? next.toList cs with
    | some r => .ok r
    | none => .error (.notFound next)
  | .slot _ :: _ => .error .adjacentSlots

/-- What the slots of `parts` capture of `cs`, which starts at `offset`. -/
def matchParts : (parts : List Part) → (offset : Nat) → (cs : List Char) →
    Except NoMatch (List Capture)
  | [], _, cs =>
    if Text.allBlank cs then .ok [] else .error (.trailing (String.ofList (Text.trim cs)))
  | .literal literal :: parts, offset, cs =>
    let start := offset + Text.byteLength (cs.takeWhile Text.isBlank)
    match Text.dropLeading? literal.toList (Text.trimStart cs) with
    | some rest => matchParts parts (start + Text.byteLength literal.toList) rest
    | none => .error (.expected literal start)
  | .slot s :: parts, offset, cs => do
    let start := offset + Text.byteLength (cs.takeWhile Text.isBlank)
    let (span, rest) ← capturedBy parts (Text.trimStart cs)
    let value := Text.trim span
    if value.isEmpty then .error (.blankCapture s.name)
    else
      let capture ← s.convert value
      return capture :: (← matchParts parts (start + Text.byteLength span) rest)

/-- What the slots of the pattern capture of `text`, in their order. -/
def captures (p : Pattern) (text : List Char) : Except NoMatch (List Capture) :=
  matchParts p.parts 0 (Text.trim text)

/-- The names of the slots, in their order. -/
def slotNames (p : Pattern) : List String :=
  p.parts.filterMap fun
    | .literal _ => none
    | .slot s => some s.name

/-- The captures by slot name; of two slots with one name the later one counts. -/
def fields (p : Pattern) (captures : List Capture) : Table Capture :=
  Table.ofList (p.slotNames.zip captures)

/-- The order in which patterns are tried on `text`: those whose leading literal starts it, then
those without one. -/
def candidates {α : Type} (pattern : α → Pattern) (items : List α) (text : List Char) : List α :=
  let starts (item : α) := (pattern item).leading?.any fun literal =>
    (Text.dropLeading? literal.toList (Text.trimStart text)).isSome
  items.filter starts ++ items.filter fun item => (pattern item).leading?.isNone

/-- The first of the candidates that fits `text`, with its captures. -/
def firstMatch? {α : Type} (pattern : α → Pattern) (items : List α) (text : List Char) :
    Option (α × List Capture) :=
  (candidates pattern items text).findSome? fun item =>
    match (pattern item).captures text with
    | .ok captures => some (item, captures)
    | .error _ => none

end Pattern

/-! ## Sets of patterns -/

structure PatternSet where
  patterns : List Pattern := []
deriving Repr

namespace PatternSet

/-- The set with one more pattern. -/
def add (set : PatternSet) (name : String) (text : List Char) : Except PatternError PatternSet := do
  .ok ⟨set.patterns ++ [← Pattern.compile name text]⟩

/-- The pattern that fits `text`, with its captures. -/
def find? (set : PatternSet) (text : List Char) : Option (Pattern × List Capture) :=
  Pattern.firstMatch? id set.patterns text

end PatternSet

/-- Why a text does not fit a pattern that is given as a text too. -/
inductive ScanError where
  | pattern (e : PatternError)
  | noMatch (e : NoMatch)
deriving Repr

/-- The captures of `text` by name, for a pattern given as a text. -/
def scan (pattern text : List Char) : Except ScanError (Table Capture) :=
  match Pattern.compile "scan" pattern with
  | .error e => .error (.pattern e)
  | .ok p =>
    match p.captures text with
    | .ok captures => .ok (p.fields captures)
    | .error e => .error (.noMatch e)

def ScanError.message : ScanError → String
  | .pattern e => e.message
  | .noMatch e => e.message "scan"

end ClassicBasic
