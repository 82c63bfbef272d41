import ClassicBasic.Text.Hidden
import ClassicBasic.Text.Mark
import ClassicBasic.Text.Range

/-!
# Printable characters

Messages show a text in quotes, with the characters that a reader could not see or tell apart
written as their code points: those without a shape, the marks that merge with the character before
them, and letters that stand for no sound and take no ink.
-/

namespace ClassicBasic.Text

/-- The letters with the property Default_Ignorable_Code_Point, which fill the place of a letter. -/
def fillers : List (Nat × Nat) := [(0x115F, 0x1160), (0x3164, 0x3164), (0xFFA0, 0xFFA0)]

/-- Whether the character has no shape. -/
def isHidden (c : Char) : Bool :=
  inRanges (if c.toNat < 0x10000 then hiddenBasic else hiddenSupplementary) c.toNat

/-- Whether the character merges with the one before it. -/
def isMark (c : Char) : Bool :=
  inRanges (if c.toNat < 0x10000 then marksBasic else marksSupplementary) c.toNat

/-- Characters that messages show as themselves. -/
def isPrintable (c : Char) : Bool :=
  if c.toNat < 0x7F then 0x20 ≤ c.toNat
  else !(isHidden c || isMark c || inRanges fillers c.toNat)

end ClassicBasic.Text
