import ClassicBasic.Value

/-!
# The DATA cursor

READ takes the constants of a program one after the other; RESTORE starts again with the first.
-/

namespace ClassicBasic

structure DataCursor where
  values : List Value := []
  /-- How many constants have been read. -/
  position : Nat := 0
deriving Repr, Inhabited

namespace DataCursor

/-- The next constant, if any is left, and the cursor after it. -/
def read? (d : DataCursor) : Option (Value × DataCursor) :=
  (d.values[d.position]?).map fun v => (v, { d with position := d.position + 1 })

def restore (d : DataCursor) : DataCursor := { d with position := 0 }

end DataCursor

end ClassicBasic
