import ClassicBasic.Expr.Error
import ClassicBasic.Number.Random
import ClassicBasic.Text.Blank

/-!
# Built-in functions

Each built-in function checks the number of its arguments, then the arguments one by one. `RND`
draws from the random stream; the others depend on their arguments alone.
-/

namespace ClassicBasic

/-- What fails or succeeds without a state does so with any. -/
instance liftExceptState {ε σ : Type} : MonadLift (Except ε) (EStateM ε σ) where
  monadLift
    | .ok a => pure a
    | .error e => throw e

/-! ## Arguments -/

/-- The arguments of a call. -/
abbrev Args := List Value

namespace Args

/-- The arguments must be at least `least` and at most `most`. -/
def expectBetween (args : Args) (least most : Nat) : Except CallError Unit :=
  if args.length < least || most < args.length then
    .error (.argumentCount (if least == most then .exactly least else .between least most)
      args.length)
  else .ok ()

def expect (args : Args) (n : Nat) : Except CallError Unit := args.expectBetween n n

/-- Argument `i`, which must be a number. Arguments are counted from zero here and from one in
messages. -/
def number (args : Args) (i : Nat) : Except CallError Float :=
  match args[i]? with
  | some (.number x) => .ok x
  | some v => .error (.argumentKind (i + 1) .number v.kind)
  | none => .error (.argumentCount (.atLeast (i + 1)) args.length)

/-- Argument `i`, which must be a text. -/
def text (args : Args) (i : Nat) : Except CallError String :=
  match args[i]? with
  | some (.text s) => .ok s
  | some v => .error (.argumentKind (i + 1) .text v.kind)
  | none => .error (.argumentCount (.atLeast (i + 1)) args.length)

/-- The integer part of argument `i`. -/
def int (args : Args) (i : Nat) : Except CallError Int := do
  .ok (Double.truncate (← args.number i))

/-- The integer part of argument `i`, which must not be below zero; `what` names it. -/
def count (args : Args) (i : Nat) (what : String) : Except CallError Nat := do
  let n ← args.int i
  if n < 0 then .error (.range (.count what n)) else .ok n.toNat

/-- The only argument, a number. -/
def oneNumber (args : Args) : Except CallError Float := do
  args.expect 1
  args.number 0

/-- The only argument, a text. -/
def oneText (args : Args) : Except CallError String := do
  args.expect 1
  args.text 0

end Args

/-! ## Functions -/

inductive Builtin where
  | abs | atn | cos | exp | int | sin | tan | sgn
  | log | sqr | val | rnd
  | asc | chr | len | left | right | mid | str | tab
deriving DecidableEq, Repr

namespace Builtin

def name : Builtin → String
  | .abs => "ABS" | .atn => "ATN" | .cos => "COS" | .exp => "EXP" | .int => "INT"
  | .sin => "SIN" | .tan => "TAN" | .sgn => "SGN" | .log => "LOG" | .sqr => "SQR"
  | .val => "VAL" | .rnd => "RND" | .asc => "ASC" | .chr => "CHR$" | .len => "LEN"
  | .left => "LEFT$" | .right => "RIGHT$" | .mid => "MID$" | .str => "STR$" | .tab => "TAB"

def all : List Builtin :=
  [.abs, .atn, .cos, .exp, .int, .sin, .tan, .sgn, .log, .sqr, .val, .rnd, .asc, .chr, .len, .left,
   .right, .mid, .str, .tab]

/-- Functions declared to give a number, whatever their name. -/
def givesNumber : Builtin → Bool
  | .abs | .atn | .cos | .exp | .int | .sin | .tan | .sgn | .log | .sqr | .val | .rnd => true
  | .asc | .chr | .len | .left | .right | .mid | .str | .tab => false

def sign (x : Float) : Float := if 0 < x then 1 else if x < 0 then -1 else 0

/-- The character of a code, if there is one. -/
def charOfCode? (n : Int) : Option Char :=
  if 0 ≤ n ∧ n.toNat.isValidChar then some (Char.ofNat n.toNat) else none

/-- The text of `cs`. -/
def ofChars (cs : List Char) : Value := .text (String.ofList cs)

/-- The value of a call. The argument of `RND` is not looked at. -/
def apply (args : Args) : Builtin → EStateM CallError Random Value
  | .abs => return .number (← args.oneNumber).abs
  | .atn => return .number (← args.oneNumber).atan
  | .cos => return .number (← args.oneNumber).cos
  | .exp => return .number (← args.oneNumber).exp
  | .int => return .number (← args.oneNumber).floor
  | .sin => return .number (← args.oneNumber).sin
  | .tan => return .number (← args.oneNumber).tan
  | .sgn => return .number (sign (← args.oneNumber))
  | .log => do
    let x ← args.oneNumber
    if x ≤ 0 then throw (.range (.logarithm x)) else return .number x.log
  | .sqr => do
    let x ← args.oneNumber
    if x < 0 then throw (.range (.squareRoot x)) else return .number x.sqrt
  | .val => do
    let s := Text.trim (← args.oneText).toList
    match Numeral.number? s with
    | some x => return .number x
    | none => throw (.unreadable (String.ofList s))
  | .rnd => do
    args.expectBetween 0 1
    let (x, stream) := (← get).next
    set stream
    return .number x
  | .asc => do
    match (← args.oneText).toList with
    | c :: _ => return .number c.toNat.toFloat
    | [] => throw (.range .emptyText)
  | .chr => do
    args.expect 1
    let n ← args.int 0
    match charOfCode? n with
    | some c => return ofChars [c]
    | none => throw (.range (.charCode n))
  | .len => return .number (← args.oneText).length.toFloat
  | .left => do
    args.expect 2
    let n ← args.count 1 "LEFT$ length"
    let s ← args.text 0
    return ofChars (s.toList.take n)
  | .right => do
    args.expect 2
    let s ← args.text 0
    let n ← args.count 1 "RIGHT$ length"
    return ofChars (s.toList.drop (s.length - n))
  | .mid => do
    args.expectBetween 2 3
    let s ← args.text 0
    let start ← args.count 1 "MID$ start"
    if start == 0 then throw (.range (.count "MID$ start" 0))
    let rest := s.toList.drop (start - 1)
    if args.length == 3 then return ofChars (rest.take (← args.count 2 "MID$ length"))
    else return ofChars rest
  | .str => return .text (Numeral.display (← args.oneNumber))
  | .tab => do
    args.expect 1
    return ofChars (List.replicate (← args.int 0).toNat ' ')

end Builtin

end ClassicBasic
