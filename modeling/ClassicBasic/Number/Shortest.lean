import ClassicBasic.Number.Double

/-!
# The fewest digits that read back

Every real strictly between a double's two midpoints to its neighbours rounds to it, and the
midpoints do too when its mantissa is even. `Shortest.digits` looks for the coarsest decimal grid
with a point in that interval and takes the point nearest to the double.
-/

namespace ClassicBasic

/-- The number `digits * 10 ^ exponent`. -/
structure Decimal where
  digits : Nat
  exponent : Int
deriving DecidableEq, Repr

namespace Shortest

/-- The number of digits of `n` in base ten. -/
def digitCount (n : Nat) : Nat := (Nat.toDigits 10 n).length

/-- The `p` with `10 ^ (p - 1) ≤ num / den < 10 ^ p`. -/
def magnitude (num den : Nat) : Int :=
  if den ≤ num then digitCount (num / den)
  else
    let j := digitCount (den / num) - 1
    if num * tenTo j == den then 1 - j else -j

/-- The reals that round to `mantissa * 2 ^ exponent`, in quarters of that unit. The gap below a
power of two is half as wide as the one above it. -/
structure Interval where
  low : Nat
  value : Nat
  high : Nat
  closed : Bool

def Interval.around (mantissa : Nat) (exponent : Int) : Interval where
  low := 4 * mantissa - if mantissa == twoTo 52 && -1074 < exponent then 1 else 2
  value := 4 * mantissa
  high := 4 * mantissa + 2
  closed := mantissa % 2 == 0

/-- Whether `x` lies in the interval, both scaled by `unit`. -/
def Interval.contains (i : Interval) (unit x : Nat) : Bool :=
  if i.closed then i.low * unit ≤ x && x ≤ i.high * unit
  else i.low * unit < x && x < i.high * unit

/-- The point nearest to the value among those of the interval on the grid of step `step`, a tie
going up. Values of the interval are scaled by `unit`. -/
def nearestOn (i : Interval) (unit step : Nat) : Option Nat :=
  let below := i.value * unit / step
  let gapBelow := i.value * unit - below * step
  let gapAbove := (below + 1) * step - i.value * unit
  match i.contains unit (below * step), i.contains unit ((below + 1) * step) with
  | true, true => some (if gapBelow < gapAbove then below else below + 1)
  | true, false => some below
  | false, true => some (below + 1)
  | false, false => none

/-- The point of the interval with `n` digits, if there is one. -/
def withDigits (i : Interval) (exponent p : Int) (n : Nat) : Option Decimal :=
  let e := p - n
  let unit := twoTo (exponent - 2).toNat * tenTo (-e).toNat
  let step := twoTo (2 - exponent).toNat * tenTo e.toNat
  (nearestOn i unit step).map fun d =>
    if d == tenTo n then ⟨1, p⟩ else ⟨d, e⟩

/-- The shortest decimal that rounds to `mantissa * 2 ^ exponent`. Seventeen digits always do. -/
def digits (mantissa : Nat) (exponent : Int) : Decimal :=
  let i := Interval.around mantissa exponent
  let p := magnitude (mantissa * twoTo exponent.toNat) (twoTo (-exponent).toNat)
  ((List.range 17).findSome? fun n => withDigits i exponent p (n + 1)).getD ⟨0, 0⟩

end Shortest

end ClassicBasic
