import ClassicBasic.Value

/-!
# Grids

A grid is an array of numbers or of texts with any number of dimensions, laid out row by row: the
element at coordinates `c` stands at the sum of each coordinate times the product of the later
sizes. Coordinates start at zero and stay below the sizes.
-/

namespace ClassicBasic

/-- Why a grid cannot be made, read or written. -/
inductive GridError where
  | coordinateCount (expected got : Nat)
  | outside (dimension index size : Nat)
  | badSubscript (x : Float)
  | badSize (x : Float)
  | tooLarge
  | wrongKind (expected found : Kind)
deriving Repr

structure Grid where
  kind : Kind
  sizes : List Nat
  cells : Array Value
deriving Repr

namespace Grid

/-- The most elements a grid may have. -/
def maxCells : Nat := twoTo 24

/-- Sizes are 64-bit words. -/
def wordLimit : Nat := UInt64.size

/-- The product of the sizes, taken from the left, if no product on the way leaves a word. -/
def cellCount? : (product : Nat) → List Nat → Option Nat
  | product, [] => some product
  | product, size :: sizes =>
    if product * size < wordLimit then cellCount? (product * size) sizes else none

/-- A grid of unset elements. -/
def make (kind : Kind) (sizes : List Nat) : Except GridError Grid :=
  match cellCount? 1 sizes with
  | some n =>
    if n ≤ maxCells then .ok { kind, sizes, cells := Array.replicate n (Value.unset kind) }
    else .error .tooLarge
  | none => .error .tooLarge

/-- The place of the coordinates `cs` in a grid of the given sizes, when those of the dimensions
before number `dim` gave `offset`. -/
def offsetFrom (dim offset : Nat) : (sizes cs : List Nat) → Except GridError Nat
  | size :: sizes, c :: cs =>
    if c < size then offsetFrom (dim + 1) (offset * size + c) sizes cs
    else .error (.outside dim c size)
  | _, _ => .ok offset

/-- The place of the coordinates `cs`. -/
def offset (g : Grid) (cs : List Nat) : Except GridError Nat :=
  if cs.length == g.sizes.length then offsetFrom 1 0 g.sizes cs
  else .error (.coordinateCount g.sizes.length cs.length)

def get (g : Grid) (cs : List Nat) : Except GridError Value :=
  match g.offset cs with
  | .ok i => .ok (g.cells.getD i (Value.unset g.kind))
  | .error e => .error e

/-- The grid with `v` at `cs`. The kind is checked before the coordinates. -/
def set (g : Grid) (cs : List Nat) (v : Value) : Except GridError Grid :=
  if v.kind == g.kind then
    match g.offset cs with
    | .ok i => .ok { g with cells := g.cells.setIfInBounds i v }
    | .error e => .error e
  else .error (.wrongKind g.kind v.kind)

/-- The coordinate that a subscript stands for: its integer part. -/
def coordinate (x : Float) : Except GridError Nat :=
  match Double.count? x with
  | some n => .ok n
  | none => .error (.badSubscript x)

/-- The size that an expression in DIM stands for: its integer part. -/
def sizeOf (x : Float) : Except GridError Nat :=
  match Double.count? x with
  | some n => .ok n
  | none => .error (.badSize x)

end Grid

def GridError.message : GridError → String
  | .coordinateCount expected got => s!"expected {expected} subscript(s), got {got}"
  | .outside dimension index size =>
    s!"subscript {index} out of range 0..{size} in dimension {dimension}"
  | .badSubscript x => "invalid subscript " ++ Numeral.exact x
  | .badSize x => "invalid size " ++ Numeral.exact x
  | .tooLarge => "more than " ++ toString Grid.maxCells ++ " elements"
  | .wrongKind expected found =>
    "cannot store " ++ found.word ++ " in a " ++ expected.word ++ " array"

end ClassicBasic
