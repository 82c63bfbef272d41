import ClassicBasic.Number.Numeral
import ClassicBasic.Text.Name

/-!
# Values

A value is a number or a text. A condition holds when its value is a number above zero.
-/

namespace ClassicBasic

inductive Kind where
  | number
  | text
deriving DecidableEq, Repr

/-- The word for a kind in messages. -/
def Kind.word : Kind → String
  | .number => "number"
  | .text => "text"

/-- The kind that a name stands for. -/
def Kind.ofName (name : String) : Kind := if isTextName name then .text else .number

inductive Value where
  | number (x : Float)
  | text (s : String)
deriving Repr, BEq, Inhabited

namespace Value

def kind : Value → Kind
  | .number _ => .number
  | .text _ => .text

/-- One for true, zero for false. -/
def ofBool (b : Bool) : Value := .number (if b then 1 else 0)

def number? : Value → Option Float
  | .number x => some x
  | .text _ => none

def text? : Value → Option String
  | .number _ => none
  | .text s => some s

def isTrue : Value → Bool
  | .number x => 0 < x
  | .text _ => false

/-- The value as PRINT shows it. -/
def display : Value → String
  | .number x => Numeral.display x
  | .text s => s

/-- What an unset element of this kind holds. -/
def unset : Kind → Value
  | .number => .number 0
  | .text => .text ""

end Value

end ClassicBasic
