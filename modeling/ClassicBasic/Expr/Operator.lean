import ClassicBasic.Expr.Error

/-!
# Operators

Numbers take every operator. Texts are joined by `+` and compared by code point; no operator takes
a number and a text. The rank of an operator says how tightly it binds.
-/

namespace ClassicBasic

namespace Op

/-- A higher rank binds tighter. -/
def rank : Op → Nat
  | .plus => 1
  | .times => 2
  | .power => 3
  | .and | .or => 4
  | .less | .greater | .equal | .notEqual | .lessEqual | .greaterEqual => 5

def applyNumbers (a b : Float) : Op → Value
  | .plus => .number (a + b)
  | .times => .number (a * b)
  | .power => .number (a.pow b)
  | .and => .ofBool (0 < a && 0 < b)
  | .or => .ofBool (0 < a || 0 < b)
  | .less => .ofBool (a < b)
  | .greater => .ofBool (b < a)
  | .equal => .ofBool (a == b)
  | .notEqual => .ofBool (a != b)
  | .lessEqual => .ofBool (a ≤ b)
  | .greaterEqual => .ofBool (b ≤ a)

def applyTexts? (a b : String) : Op → Option Value
  | .plus => some (.text (a ++ b))
  | .less => some (.ofBool (a < b))
  | .greater => some (.ofBool (b < a))
  | .equal => some (.ofBool (a == b))
  | .notEqual => some (.ofBool (a != b))
  | .lessEqual => some (.ofBool (!(b < a)))
  | .greaterEqual => some (.ofBool (!(a < b)))
  | .times | .power | .and | .or => none

def apply (op : Op) : Value → Value → Except EvalError Value
  | .number a, .number b => .ok (op.applyNumbers a b)
  | .text a, .text b =>
    match op.applyTexts? a b with
    | some v => .ok v
    | none => .error (.mismatch op .text .text)
  | l, r => .error (.mismatch op l.kind r.kind)

end Op

/-- The number after a transform. -/
def Transform.apply (x : Float) : Transform → Float
  | .negate => -x
  | .invert => 1 / x

end ClassicBasic
