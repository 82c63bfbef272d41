/-!
# Powers of two and of ten

The scales of the machine format and of decimal numerals.
-/

namespace ClassicBasic

def twoTo (n : Nat) : Nat := Nat.pow 2 n

def tenTo (n : Nat) : Nat := Nat.pow 10 n

end ClassicBasic
