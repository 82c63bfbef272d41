import ClassicBasic.Text.Name

/-!
# Searching outside quotes

`closing?` cuts a text at the parenthesis that closes its first open one, `findOutsideQuotes?` at
the first occurrence of a word or symbol. Both skip quoted regions.
-/

namespace ClassicBasic.Text

/-- `cs` cut at the `)` that brings `depth` open parentheses down to none: the text before it and
the text after it. A `)` with none open ends the search. -/
def closingFrom? : (depth : Nat) → (quoted : Bool) → List Char → Option (List Char × List Char)
  | _, _, [] => none
  | depth, quoted, c :: cs =>
    let keep (r : List Char × List Char) := (c :: r.1, r.2)
    if c == '"' then (closingFrom? depth (!quoted) cs).map keep
    else if quoted then (closingFrom? depth quoted cs).map keep
    else if c == '(' then (closingFrom? (depth + 1) quoted cs).map keep
    else if c == ')' then
      match depth with
      | 0 => none
      | 1 => some ([], cs)
      | depth + 2 => (closingFrom? (depth + 1) quoted cs).map keep
    else (closingFrom? depth quoted cs).map keep

/-- `cs` cut at the parenthesis that closes the first one open in it. -/
def closing? (cs : List Char) : Option (List Char × List Char) := closingFrom? 0 false cs

/-- The text after `needle`, if `cs` starts with it. -/
def dropLeading? : (needle cs : List Char) → Option (List Char)
  | [], cs => some cs
  | _ :: _, [] => none
  | n :: ns, c :: cs => if n == c then dropLeading? ns cs else none

/-- Whether `needle`, found between `before` and `after`, stands there in its own right: one made
of letters may not touch a word character. -/
def standsAlone (needle : List Char) (before after : Option Char) : Bool :=
  !needle.all Char.isAlpha || !(before.any isWordChar || after.any isWordChar)

/-- Whether `needle` occurs at the start of `cs`, with `before` in front of it. -/
def occursAt (needle : List Char) (before : Option Char) (cs : List Char) : Bool :=
  match dropLeading? needle cs with
  | some rest => standsAlone needle before rest.head?
  | none => false

/-- `findOutsideQuotes?` from inside a text: `before` is the character in front of `cs`. -/
def findFrom? (needle : List Char) (before : Option Char) (quoted : Bool) :
    List Char → Option (List Char × List Char)
  | [] => none
  | c :: cs =>
    let quoted' := if c == '"' then !quoted else quoted
    if (c != '"' || needle == ['"']) && !quoted' && occursAt needle before (c :: cs) then
      some ([], c :: cs)
    else (findFrom? needle (some c) quoted' cs).map fun r => (c :: r.1, r.2)

/-- `cs` cut in front of the first `needle` outside quotes. A quote is looked for where it closes a
quoted region. -/
def findOutsideQuotes? (needle cs : List Char) : Option (List Char × List Char) :=
  if needle.isEmpty then some ([], cs) else findFrom? needle none false cs

end ClassicBasic.Text
