import ClassicBasic.Number.Power

/-!
# Doubles as exact numbers

A finite double is `± mantissa * 2 ^ exponent`. `Double.ofFloat` reads the three fields of the
machine format, `Double.nearest` goes back: it rounds a quotient of naturals to the nearest
double, a tie to the even mantissa. Conversions to integers are exact on the way and clamp at the
end.
-/

namespace ClassicBasic

/-- A double as what it stands for. -/
inductive Double where
  | nan
  | infinite (negative : Bool)
  | finite (negative : Bool) (mantissa : Nat) (exponent : Int)
deriving DecidableEq, Repr

namespace Double

/-- What a pattern of 64 bits stands for: a sign bit, eleven bits of exponent, 52 of fraction. -/
def ofBits (bits : Nat) : Double :=
  let negative := bits / twoTo 63 % 2 == 1
  let biased : Nat := bits / twoTo 52 % twoTo 11
  let fraction : Nat := bits % twoTo 52
  if biased == 2047 then if fraction == 0 then .infinite negative else .nan
  else if biased == 0 then .finite negative fraction (-1074)
  else .finite negative (twoTo 52 + fraction) ((biased : Int) - 1075)

def ofFloat (x : Float) : Double := ofBits x.toBits.toNat

/-- `num / den` to the nearest integer, a tie to the even one. -/
def roundDiv (num den : Nat) : Nat :=
  let q := num / den
  let r := num % den
  if 2 * r < den then q
  else if den < 2 * r then q + 1
  else q + q % 2

/-- The least exponent at which the mantissa of `num / den` has at most 53 bits, but not below that
of the smallest double. -/
def exponentFor (num den : Nat) : Int :=
  let estimate : Int := (num.log2 : Int) - den.log2 - 52
  -- `num / den` has 52 or 53 bits before the point at `estimate`.
  let short := num * twoTo (-estimate).toNat < den * twoTo (52 + estimate.toNat)
  max (if short then estimate - 1 else estimate) (-1074)

/-- The bits of the double nearest to `num / den`. Those of the doubles above zero grow with the
value, so a mantissa that rounds up to 54 bits carries into the exponent, and an exponent that is
too large gives infinity. -/
def nearestBits (num den : Nat) : Nat :=
  let e := exponentFor num den
  let m := roundDiv (num * twoTo (-e).toNat) (den * twoTo e.toNat)
  let bits := if m < twoTo 52 then m else (e + 1075).toNat * twoTo 52 + (m - twoTo 52)
  min bits (2047 * twoTo 52)

/-- The double nearest to `± num / den`. -/
def nearest (negative : Bool) (num den : Nat) : Float :=
  let bits := if num == 0 then 0 else nearestBits num den
  Float.ofBits (UInt64.ofNat (bits + if negative then twoTo 63 else 0))

def infinity (negative : Bool) : Float :=
  Float.ofBits (UInt64.ofNat (2047 * twoTo 52 + if negative then twoTo 63 else 0))

def nanFloat : Float := Float.ofBits (UInt64.ofNat (2047 * twoTo 52 + twoTo 51))

/-- `x` lies in the range that `lo` and `hi` close. -/
def clamp (lo hi x : Int) : Int := max lo (min hi x)

/-- `± n`. -/
def signed (negative : Bool) (n : Nat) : Int := if negative then -(n : Int) else n

/-- The bounds of a 64-bit signed integer. -/
def minInt : Int := -(twoTo 63 : Int)

def maxInt : Int := (twoTo 63 : Int) - 1

/-- The integer part of `x`, toward zero, clamped to 64 bits; zero for a value that is no number. -/
def truncate (x : Float) : Int :=
  match ofFloat x with
  | .nan => 0
  | .infinite negative => if negative then minInt else maxInt
  | .finite negative m e =>
    clamp minInt maxInt (signed negative (m * twoTo e.toNat / twoTo (-e).toNat))

/-- The integer nearest to `x`, a half going away from zero, clamped to 64 bits. -/
def roundAway (x : Float) : Int :=
  match ofFloat x with
  | .nan => 0
  | .infinite negative => if negative then minInt else maxInt
  | .finite negative m e =>
    let den := twoTo (-e).toNat
    clamp minInt maxInt (signed negative ((2 * (m * twoTo e.toNat) + den) / (2 * den)))

/-- The integer part of a number that is finite and not below zero, clamped to 64 bits without a
sign; nothing for any other. Negative zero counts as zero. -/
def count? (x : Float) : Option Nat :=
  match ofFloat x with
  | .nan => none
  | .infinite _ => none
  | .finite negative m e =>
    if negative && m != 0 then none
    else some (min (UInt64.size - 1) (m * twoTo e.toNat / twoTo (-e).toNat))

end Double

end ClassicBasic
