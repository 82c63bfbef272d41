import ClassicBasic.Expr.Operator

/-!
# Expression trees

Operators of one kind make a chain of operands. `push` adds an operator and an operand at the right
end of a tree: the same operator lengthens the chain, a tighter one goes into its last operand, any
other takes the whole tree as its left operand. A tighter operator does not enter a group, which is
a chain that stood between parentheses.
-/

namespace ClassicBasic

inductive Tree where
  | number (x : Float)
  | text (s : String)
  | var (name : String)
  | call (name : String) (args : List Tree)
  | transform (t : Transform) (operand : Tree)
  | chain (op : Op) (group : Bool) (operands : List Tree)
deriving Repr, Inhabited

namespace Tree

mutual

/-- The tree followed by an operator and an operand. -/
def push (tree : Tree) (op : Op) (operand : Tree) : Tree :=
  match tree with
  | .chain op' group operands =>
    if op = op' then .chain op' group (operands ++ [operand])
    else if op'.rank < op.rank && !group then .chain op' group (pushLast operands op operand)
    else .chain op false [.chain op' group operands, operand]
  | leaf => .chain op false [leaf, operand]

/-- `push` at the last of a list of trees. -/
def pushLast (trees : List Tree) (op : Op) (operand : Tree) : List Tree :=
  match trees with
  | [] => [operand]
  | [last] => [push last op operand]
  | t :: next :: rest => t :: pushLast (next :: rest) op operand

end

/-- The tree of a first operand alone. -/
def single (operand : Tree) : Tree := .chain .plus false [operand]

/-- The tree with a transform applied; that of a number is computed at once. -/
def transformed (t : Transform) : Tree → Except SyntaxError Tree
  | .number x => .ok (.number (t.apply x))
  | .text s => .error (.textOperand t s)
  | tree => .ok (.transform t tree)

/-- The tree as it stands between parentheses. -/
def grouped : Tree → Tree
  | .chain op _ operands => .chain op true operands
  | leaf => leaf

end Tree

/-- An expression: its text without surrounding blanks, and its tree. -/
structure Expr where
  raw : String
  tree : Tree
deriving Repr, Inhabited

end ClassicBasic
