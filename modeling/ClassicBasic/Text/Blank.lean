/-!
# White space

Blank characters are those with the Unicode property White_Space. Texts are lists of characters;
`trim` takes the blanks off both ends.
-/

namespace ClassicBasic.Text

/-- Characters with the property White_Space. -/
def isBlank (c : Char) : Bool :=
  (0x09 ≤ c.toNat && c.toNat ≤ 0x0D) || c.toNat == 0x20 || c.toNat == 0x85 || c.toNat == 0xA0 ||
    c.toNat == 0x1680 || (0x2000 ≤ c.toNat && c.toNat ≤ 0x200A) || c.toNat == 0x2028 ||
    c.toNat == 0x2029 || c.toNat == 0x202F || c.toNat == 0x205F || c.toNat == 0x3000

/-- `cs` without the longest run of `p` characters at either end. -/
def trimBy (p : Char → Bool) (cs : List Char) : List Char :=
  (((cs.dropWhile p).reverse).dropWhile p).reverse

def trimStart (cs : List Char) : List Char := cs.dropWhile isBlank

def trim (cs : List Char) : List Char := trimBy isBlank cs

/-- Whether `cs` holds nothing but blanks. -/
def allBlank (cs : List Char) : Bool := cs.all isBlank

/-- The number of bytes `cs` takes in UTF-8: offsets in messages count these. -/
def byteLength (cs : List Char) : Nat := cs.foldl (fun n c => n + c.utf8Size) 0

end ClassicBasic.Text
