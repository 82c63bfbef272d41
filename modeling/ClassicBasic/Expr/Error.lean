import ClassicBasic.Grid
import ClassicBasic.Text.Quoted

/-!
# Faults of expressions

`SyntaxError` says why a text is no expression, `EvalError` why an expression has no value. The two
kinds do not mix: what is read without fault can only fail while it is evaluated.
-/

namespace ClassicBasic

inductive Op where
  | plus
  | times
  | power
  | and
  | or
  | less
  | greater
  | equal
  | notEqual
  | lessEqual
  | greaterEqual
deriving DecidableEq, Repr

def Op.spelling : Op → String
  | .plus => "+"
  | .times => "*"
  | .power => "^"
  | .and => "AND"
  | .or => "OR"
  | .less => "<"
  | .greater => ">"
  | .equal => "="
  | .notEqual => "<>"
  | .lessEqual => "<="
  | .greaterEqual => ">="

/-- What is done to a single number. -/
inductive Transform where
  | negate
  | invert
deriving DecidableEq, Repr

def Transform.spelling : Transform → String
  | .negate => "-"
  | .invert => "/"

/-! ## Reading -/

/-- Why a text is no expression. Offsets count bytes. -/
inductive SyntaxError where
  | empty
  | unmatchedOpen (offset : Nat)
  | unexpectedClose (offset : Nat)
  | unterminatedText (offset : Nat)
  | missingOperand (operator : String)
  | missingOperator (before : String)
  | badNumber (text : String)
  | badOperand (text : String)
  | textOperand (op : Transform) (operand : String)
deriving DecidableEq, Repr

def SyntaxError.message : SyntaxError → String
  | .empty => "empty expression"
  | .unmatchedOpen offset => s!"no closing parenthesis for '(' at offset {offset}"
  | .unexpectedClose offset => s!"unexpected ')' at offset {offset}"
  | .unterminatedText offset => s!"unterminated string starting at offset {offset}"
  | .missingOperand operator => "operator '" ++ operator ++ "' has no operand"
  | .missingOperator before => "missing operator before " ++ Text.quoted before
  | .badNumber text => "invalid number " ++ Text.quoted text
  | .badOperand text => "invalid operand " ++ Text.quoted text
  | .textOperand op operand =>
    "cannot apply '" ++ op.spelling ++ "' to text " ++ Text.quoted operand

/-! ## Evaluating -/

/-- How many arguments a function takes. -/
inductive Arity where
  | exactly (n : Nat)
  | between (least most : Nat)
  | atLeast (n : Nat)
deriving DecidableEq, Repr

def Arity.message : Arity → String
  | .exactly n => toString n
  | .between least most => s!"{least} to {most}"
  | .atLeast n => s!"at least {n}"

/-- An argument or a subscript that the function does not take. -/
inductive RangeError where
  | logarithm (x : Float)
  | squareRoot (x : Float)
  | emptyText
  | charCode (n : Int)
  | count (what : String) (n : Int)
  | grid (e : GridError)
deriving Repr

def RangeError.message : RangeError → String
  | .logarithm x => "LOG of " ++ Numeral.display x
  | .squareRoot x => "SQR of " ++ Numeral.display x
  | .emptyText => "ASC of empty text"
  | .charCode n => s!"CHR$ code {n}"
  | .count what n => what ++ " " ++ toString n
  | .grid e => e.message

/-- Calls of defined functions nest at most this deep. -/
def maxCallDepth : Nat := 64

mutual

/-- Why an expression has no value. -/
inductive EvalError where
  | empty
  | unknownVariable (name : String)
  | unknownFunction (name : String)
  | mismatch (op : Op) (left right : Kind)
  | notNumber (found : Kind)
  | call (name : String) (cause : CallError)

/-- Why a call has no value. -/
inductive CallError where
  | argumentCount (expected : Arity) (got : Nat)
  | argumentKind (position : Nat) (expected found : Kind)
  | range (cause : RangeError)
  | unreadable (text : String)
  | tooDeep
  | body (cause : EvalError)

end

mutual

def EvalError.message : EvalError → String
  | .empty => "empty expression"
  | .unknownVariable name => "no such variable " ++ name
  | .unknownFunction name => "no such function " ++ name
  | .mismatch op left right =>
    "cannot apply '" ++ op.spelling ++ "' to " ++ left.word ++ " and " ++ right.word
  | .notNumber found => "expected a number, found " ++ found.word
  | .call name cause => name ++ ": " ++ cause.message

def CallError.message : CallError → String
  | .argumentCount expected got => "expected " ++ expected.message ++ s!" argument(s), got {got}"
  | .argumentKind position expected found =>
    s!"argument {position}: expected " ++ expected.word ++ ", found " ++ found.word
  | .range cause => cause.message
  | .unreadable text => "VAL cannot read " ++ Text.quoted text ++ " as a number"
  | .tooDeep => "calls nested deeper than " ++ toString maxCallDepth
  | .body cause => cause.message

end

end ClassicBasic
