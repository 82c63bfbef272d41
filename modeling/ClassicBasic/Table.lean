/-!
# Tables by name

A table holds one entry for each name. `insert` replaces an entry in place, so the order is that in
which the names came.
-/

namespace ClassicBasic

structure Table (α : Type) where
  entries : List (String × α) := []
deriving Repr

namespace Table

variable {α : Type}

def empty : Table α := {}

instance : Inhabited (Table α) := ⟨empty⟩

def get? (t : Table α) (name : String) : Option α := t.entries.lookup name

def contains (t : Table α) (name : String) : Bool := (t.get? name).isSome

def size (t : Table α) : Nat := t.entries.length

def isEmpty (t : Table α) : Bool := t.entries.isEmpty

def names (t : Table α) : List String := t.entries.map (·.1)

/-- `entries` with `f` of the entry of `name` in its place; a new entry goes last. -/
def alterEntries (name : String) (f : Option α → α) : List (String × α) → List (String × α)
  | [] => [(name, f none)]
  | (k, v) :: rest =>
    if k == name then (k, f (some v)) :: rest else (k, v) :: alterEntries name f rest

def insert (t : Table α) (name : String) (v : α) : Table α :=
  ⟨alterEntries name (fun _ => v) t.entries⟩

/-- The table of a list of entries, the last one of a name winning. -/
def ofList (entries : List (String × α)) : Table α :=
  entries.foldl (fun t e => t.insert e.1 e.2) empty

end Table

end ClassicBasic
