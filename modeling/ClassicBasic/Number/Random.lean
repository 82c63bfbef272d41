import ClassicBasic.Number.Power

/-!
# The random stream

A seed is spread over the eight key words of a ChaCha stream cipher with twelve rounds. The stream
of 32-bit words is read two at a time; the top 53 bits of such a pair make a number from 0 up to,
but not including, 1. A stream is given by its key and the count of numbers drawn from it. Where no
seed is given, the key may be any.
-/

namespace ClassicBasic

structure Random where
  key : Vector UInt32 8
  drawn : Nat := 0
deriving Repr

namespace Random

/-! ## The key -/

/-- One step of the generator that spreads a seed. -/
def spread (state : UInt64) : UInt64 := state * 6364136223846793005 + 11634580027462260723

def rotateLeft (x : UInt32) (n : UInt32) : UInt32 := (x <<< n) ||| (x >>> (32 - n))

/-- The word that a state of the spreading generator gives. -/
def spreadWord (state : UInt64) : UInt32 :=
  let folded := (((state >>> 18) ^^^ state) >>> 27).toUInt32
  let turn := (state >>> 59).toUInt32
  (folded >>> turn) ||| (folded <<< ((32 - turn) &&& 31))

/-- The first `n` words spread from `state`. -/
def spreadWords : (n : Nat) → UInt64 → List UInt32
  | 0, _ => []
  | n + 1, state => spreadWord (spread state) :: spreadWords n (spread state)

/-- The stream of a seed, with nothing drawn yet. -/
def ofSeed (seed : UInt64) : Random where
  key := Vector.ofFn fun i => (spreadWords 8 seed).getD i.val 0

/-- A seed stands for its stream. -/
instance : Coe UInt64 Random := ⟨ofSeed⟩

/-! ## The cipher -/

abbrev Block := Vector UInt32 16

/-- The quarter round on the words `a`, `b`, `c`, `d` of a block. -/
def quarterRound (a b c d : Fin 16) (s : Block) : Block :=
  let s := s.set a (s.get a + s.get b)
  let s := s.set d (rotateLeft (s.get d ^^^ s.get a) 16)
  let s := s.set c (s.get c + s.get d)
  let s := s.set b (rotateLeft (s.get b ^^^ s.get c) 12)
  let s := s.set a (s.get a + s.get b)
  let s := s.set d (rotateLeft (s.get d ^^^ s.get a) 8)
  let s := s.set c (s.get c + s.get d)
  s.set b (rotateLeft (s.get b ^^^ s.get c) 7)

/-- A round on the columns and one on the diagonals. -/
def doubleRound (s : Block) : Block :=
  let s := quarterRound 0 4 8 12 s
  let s := quarterRound 1 5 9 13 s
  let s := quarterRound 2 6 10 14 s
  let s := quarterRound 3 7 11 15 s
  let s := quarterRound 0 5 10 15 s
  let s := quarterRound 1 6 11 12 s
  let s := quarterRound 2 7 8 13 s
  quarterRound 3 4 9 14 s

/-- The block that is enciphered: four constants, the key, a 64-bit counter and no nonce. -/
def startBlock (key : Vector UInt32 8) (counter : Nat) : Block :=
  let constants : Vector UInt32 4 := #v[0x61707865, 0x3320646e, 0x79622d32, 0x6b206574]
  constants ++ key ++ #v[UInt32.ofNat counter, UInt32.ofNat (counter / UInt32.size), 0, 0]

/-- Block `counter` of the key stream. -/
def keyBlock (key : Vector UInt32 8) (counter : Nat) : Block :=
  let start := startBlock key counter
  Vector.zipWith (· + ·) start (Nat.repeat doubleRound 6 start)

/-! ## Drawing -/

/-- Draw `n` of the stream: the words `2 n` and `2 n + 1`, of which the first is the lower. -/
def numberAt (key : Vector UInt32 8) (n : Nat) : Float :=
  let block := keyBlock key (2 * n / 16)
  let lower := block.toArray.getD (2 * n % 16) 0
  let upper := block.toArray.getD (2 * n % 16 + 1) 0
  let bits := lower.toUInt64 ||| (upper.toUInt64 <<< 32)
  (bits >>> 11).toFloat / (twoTo 53).toFloat

/-- The next number, and the stream after it. -/
def next (r : Random) : Float × Random :=
  (numberAt r.key r.drawn, { r with drawn := r.drawn + 1 })

end Random

end ClassicBasic
