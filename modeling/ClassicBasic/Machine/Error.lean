import ClassicBasic.Diagnostic
import ClassicBasic.Expr.Error

/-!
# Faults of running programs

Every fault has a code of the runtime category, except that of an expression without operands,
which no parsed program holds.
-/

namespace ClassicBasic

inductive RuntimeError where
  | undefinedLine (number : Nat)
  | nextWithoutFor (var : Option String)
  | returnWithoutGosub
  | outOfData
  | onIndex (index : Int) (count : Nat)
  | unknownArray (name : String)
  | array (name : String) (cause : GridError)
  | notNumeric (target value : String)
  | loopVariable (name : String)
  | stepLimit (limit : Nat)
  | inputClosed
  | console (reason : String)
  | expression (cause : EvalError)

mutual

def EvalError.code : EvalError → Code
  | .empty => .badExpression
  | .unknownVariable _ => .undefinedName
  | .unknownFunction _ => .undefinedName
  | .mismatch .. => .typeMismatch
  | .notNumber _ => .typeMismatch
  | .call _ cause => cause.code

def CallError.code : CallError → Code
  | .argumentCount .. => .functionFailed
  | .argumentKind .. => .typeMismatch
  | .range _ => .indexOutOfRange
  | .unreadable _ => .functionFailed
  | .tooDeep => .functionFailed
  | .body cause => cause.code

end

namespace RuntimeError

def message : RuntimeError → String
  | .undefinedLine number => s!"no such line {number}"
  | .nextWithoutFor _ => "NEXT without FOR"
  | .returnWithoutGosub => "RETURN without GOSUB"
  | .outOfData => "out of DATA"
  | .onIndex index count => s!"ON index {index} out of range 1..={count}"
  | .unknownArray name => "no such array " ++ name
  | .array name cause => "array " ++ name ++ ": " ++ cause.message
  | .notNumeric target value => "cannot store " ++ Text.quoted value ++ " in numeric " ++ target
  | .loopVariable name => "loop variable " ++ name ++ " no longer holds a number"
  | .stepLimit limit => s!"step budget of {limit} statements exhausted"
  | .inputClosed => "input closed while waiting for INPUT"
  | .console reason => "console: " ++ reason
  | .expression cause => cause.message

def code : RuntimeError → Code
  | .undefinedLine _ => .undefinedLine
  | .nextWithoutFor _ => .nextWithoutFor
  | .returnWithoutGosub => .returnWithoutGosub
  | .outOfData => .outOfData
  | .onIndex .. => .indexOutOfRange
  | .unknownArray _ => .undefinedName
  | .array _ (.wrongKind ..) => .typeMismatch
  | .array _ _ => .indexOutOfRange
  | .notNumeric .. => .typeMismatch
  | .loopVariable _ => .typeMismatch
  | .stepLimit _ => .stepLimit
  | .inputClosed => .inputClosed
  | .console _ => .consoleFailed
  | .expression cause => cause.code

end RuntimeError

end ClassicBasic
