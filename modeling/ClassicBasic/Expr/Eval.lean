import ClassicBasic.Expr.Builtin
import ClassicBasic.Expr.Tree
import ClassicBasic.Table

/-!
# Evaluating expressions

A workspace holds the variables, functions and arrays of a program. A chain is evaluated from left
to right, and the first fault is the fault of the whole. The body of a defined function sees its
parameters, then the names of whoever calls it; calls nest at most `maxCallDepth` deep. Drawing
from the random stream is the only effect, and a fault does not undo it.
-/

namespace ClassicBasic

/-- What a name stands for in front of a parenthesis. -/
inductive Function where
  | builtin (b : Builtin)
  /-- Reads the array of the same name. -/
  | array
  | defined (params : List String) (body : Expr)
deriving Inhabited

structure Workspace where
  vars : Table Value := {}
  functions : Table Function := {}
  arrays : Table Grid := {}
deriving Inhabited

/-- An evaluation draws from the random stream and may fail. -/
abbrev Evaluation := EStateM EvalError Random

/-- The bindings of the function calls that are under way, the innermost first. -/
abbrev Bindings := List (String × Value)

namespace Workspace

/-! ## Names -/

/-- The value of `name`: that of the innermost binding, or else of the variable. -/
def lookup? (w : Workspace) (bound : Bindings) (name : String) : Option Value :=
  (bound.lookup name).or (w.vars.get? name)

/-- Whether `name` will hold a number: by its value, or else by its spelling. -/
def nameIsNumeric (w : Workspace) (bound : Bindings) (name : String) : Bool :=
  match w.lookup? bound name with
  | some v => v.kind == .number
  | none => Kind.ofName name == .number

/-- Whether a call of `name` gives a number, as far as its declaration says. -/
def callIsNumeric (w : Workspace) (name : String) : Bool :=
  match w.functions.get? name with
  | some (.builtin b) => b.givesNumber || Kind.ofName name == .number
  | some .array | some (.defined ..) => Kind.ofName name == .number
  | none => false

/-! ## Calls -/

/-- The coordinates that the arguments of an array access stand for. -/
def coordinatesFrom : (position : Nat) → Args → Except CallError (List Nat)
  | _, [] => .ok []
  | position, .number x :: rest =>
    match Grid.coordinate x with
    | .ok c => return c :: (← coordinatesFrom (position + 1) rest)
    | .error e => .error (.range (.grid e))
  | position, v :: _ => .error (.argumentKind position .number v.kind)

/-- The element of the grid that the arguments address. -/
def readElement (g : Grid) (args : Args) : Except CallError Value := do
  match g.get (← coordinatesFrom 1 args) with
  | .ok v => .ok v
  | .error e => .error (.range (.grid e))

/-- The value of a call of `f`, which goes by `name`; `run` evaluates the body of a defined
function. -/
def applyFunction (w : Workspace) (run : Bindings → Tree → EStateM CallError Random Value)
    (name : String) (args : Args) : Function → EStateM CallError Random Value
  | .builtin b => b.apply args
  | .array =>
    match w.arrays.get? name with
    | some g => readElement g args
    | none => throw (.body (.unknownFunction name))
  | .defined params body => do
    args.expect params.length
    run (params.zip args) body.tree

end Workspace

/-! ## Trees -/

namespace Tree

section
variable (w : Workspace) (bound : Bindings)
  (apply : String → Function → Args → EStateM CallError Random Value)

mutual

/-- The value of a tree, where `apply` says what calls give. -/
def evalWith : Tree → Evaluation Value
  | .number x => return .number x
  | .text s => return .text s
  | .var name =>
    match w.lookup? bound name with
    | some v => return v
    | none => throw (.unknownVariable name)
  | .call name args =>
    match w.functions.get? name with
    | some f => do
      let values ← evalAll args
      EStateM.adaptExcept (.call name) (apply name f values)
    | none => throw (.unknownFunction name)
  | .transform t operand => do
    match ← evalWith operand with
    | .number x => return .number (t.apply x)
    | v => throw (.notNumber v.kind)
  | .chain _ _ [] => throw .empty
  | .chain op _ (first :: rest) => do
    let v ← evalWith first
    evalRest op v rest

/-- The values of the trees, from left to right. -/
def evalAll : List Tree → Evaluation (List Value)
  | [] => return []
  | t :: rest => do
    let v ← evalWith t
    return v :: (← evalAll rest)

/-- The value of a chain whose operands so far gave `v`. -/
def evalRest (op : Op) (v : Value) : List Tree → Evaluation Value
  | [] => return v
  | t :: rest => do
    let r ← evalWith t
    evalRest op (← op.apply v r) rest

end

mutual

/-- Whether the tree is known to give a number if it gives anything: all operators but `+` do. -/
def isNumeric : Tree → Bool
  | .number _ => true
  | .text _ => false
  | .var name => w.nameIsNumeric bound name
  | .call name _ => w.callIsNumeric name
  | .transform _ _ => true
  | .chain op _ operands => op != .plus || allNumeric operands

def allNumeric : List Tree → Bool
  | [] => true
  | t :: rest => isNumeric t && allNumeric rest

end

end

end Tree

namespace Workspace

/-- The value of a tree when `room` more calls may nest. -/
def evalWithin (w : Workspace) : (room : Nat) → Bindings → Tree → Evaluation Value
  | 0, bound, tree =>
    tree.evalWith w bound fun name f args =>
      w.applyFunction (fun _ _ => throw .tooDeep) name args f
  | room + 1, bound, tree =>
    tree.evalWith w bound fun name f args =>
      w.applyFunction
        (fun params body => EStateM.adaptExcept .body (evalWithin w room (params ++ bound) body))
        name args f

/-- The value of a tree, with `bound` in front of the variables. -/
def eval (w : Workspace) (bound : Bindings) (tree : Tree) : Evaluation Value :=
  w.evalWithin maxCallDepth bound tree

/-- The value of a tree that has to be a number. -/
def evalNumber (w : Workspace) (tree : Tree) : Evaluation Float := do
  match ← w.eval [] tree with
  | .number x => return x
  | v => throw (.notNumber v.kind)

/-- The workspace with the built-in functions, which replace others of their names. -/
def withBuiltins (w : Workspace) : Workspace :=
  { w with functions := Builtin.all.foldl (fun fs b => fs.insert b.name (.builtin b)) w.functions }

end Workspace

end ClassicBasic
