import ClassicBasic.Number.Shortest

/-!
# Reading and writing numbers

A number is read from a sign, digits with at most one point among or around them, and a power of
ten; or from a name of infinity or of no number, in any letter case. It is written with the fewest
digits that read back, without a power of ten.
-/

namespace ClassicBasic.Numeral

/-! ## Digits -/

/-- The number that a run of digits spells. -/
def ofDigits (ds : List Char) : Nat :=
  ds.foldl (fun n d => 10 * n + (d.toNat - '0'.toNat)) 0

/-- The digits at the start of `cs`, and the rest. -/
def spanDigits (cs : List Char) : List Char × List Char :=
  (cs.takeWhile Char.isDigit, cs.dropWhile Char.isDigit)

/-- The number spelled by `cs`, which must be digits only and at least one. -/
def digits? (cs : List Char) : Option Nat :=
  if !cs.isEmpty && cs.all Char.isDigit then some (ofDigits cs) else none

/-- The sign in front of `cs`, and the rest. -/
def splitSign : List Char → Bool × List Char
  | '-' :: cs => (true, cs)
  | '+' :: cs => (false, cs)
  | cs => (false, cs)

/-! ## Integers -/

/-- A natural number below `bound`, with an optional plus sign. -/
def natBelow? (bound : Nat) (cs : List Char) : Option Nat :=
  let body := match cs with
    | '+' :: ds => ds
    | ds => ds
  (digits? body).filter (· < bound)

/-- An integer of 64 bits, with an optional sign. -/
def int? (cs : List Char) : Option Int :=
  let (negative, body) := splitSign cs
  ((digits? body).map (Double.signed negative)).filter fun n =>
    Double.minInt ≤ n && n ≤ Double.maxInt

/-! ## Reading numbers -/

/-- The power of ten at the end of a number; none written is the zeroth. -/
def exponent? : List Char → Option Int
  | [] => some 0
  | c :: cs =>
    if c == 'e' || c == 'E' then
      let (negative, body) := splitSign cs
      (digits? body).map (Double.signed negative)
    else none

/-- A number without sign: digits, a point, digits, a power of ten. The digits on one side of the
point may be missing, and so may the point. -/
def decimal? (cs : List Char) : Option Decimal :=
  let (whole, rest) := spanDigits cs
  let (part, tail) := match rest with
    | '.' :: rest => spanDigits rest
    | rest => ([], rest)
  if whole.isEmpty && part.isEmpty then none
  else (exponent? tail).map fun e => ⟨ofDigits (whole ++ part), e - part.length⟩

/-- The double nearest to `± d`. A power of ten far outside the range of doubles is not computed:
the number is then below half the smallest double, or past the largest. -/
def nearest (negative : Bool) (d : Decimal) : Float :=
  let p : Int := Shortest.digitCount d.digits + d.exponent
  if d.digits == 0 || p < -330 then Double.nearest negative 0 1
  else if 310 < p then Double.infinity negative
  else Double.nearest negative (d.digits * tenTo d.exponent.toNat) (tenTo (-d.exponent).toNat)

/-- The number that `cs` spells. -/
def number? (cs : List Char) : Option Float :=
  let (negative, body) := splitSign cs
  let name := String.ofList (body.map Char.toLower)
  if name == "inf" || name == "infinity" then some (Double.infinity negative)
  else if name == "nan" then some Double.nanFloat
  else (decimal? body).map (nearest negative)

/-! ## Writing numbers -/

/-- `d` with a point and no power of ten. -/
def positional (d : Decimal) : String :=
  let ds := Nat.toDigits 10 d.digits
  if 0 ≤ d.exponent then String.ofList (ds ++ List.replicate d.exponent.toNat '0')
  else
    let places := (-d.exponent).toNat
    let padded := List.replicate (places + 1 - ds.length) '0' ++ ds
    let whole := padded.length - places
    String.ofList (padded.take whole ++ '.' :: padded.drop whole)

/-- `x` in the fewest digits that read back. -/
def exact (x : Float) : String :=
  match Double.ofFloat x with
  | .nan => "NaN"
  | .infinite negative => if negative then "-inf" else "inf"
  | .finite negative m e =>
    (if negative then "-" else "") ++ if m == 0 then "0" else positional (Shortest.digits m e)

/-- `x` as programs print it: like `exact`, but zero has no sign. -/
def display (x : Float) : String := if x == 0 then "0" else exact x

end ClassicBasic.Numeral
