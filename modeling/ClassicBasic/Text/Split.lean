/-!
# Splitting outside quotes and brackets

Double quotes toggle a quoted region. Where brackets count, `(`, `[` and `{` open a level that any
closer ends; a closer with no open level changes nothing. A separator counts only outside both.
-/

namespace ClassicBasic.Text

def isOpener (c : Char) : Bool := c == '(' || c == '[' || c == '\x7b'

def isCloser (c : Char) : Bool := c == ')' || c == ']' || c == '\x7d'

/-- Where a scan stands: inside quotes or not, and how many brackets are open. -/
structure Nesting where
  quoted : Bool := false
  depth : Nat := 0
deriving DecidableEq, Repr

/-- Which regions hide a separator. -/
inductive Shield where
  | quotes
  | quotesAndBrackets
deriving DecidableEq, Repr

namespace Nesting

/-- The state after reading `c`. -/
def step (shield : Shield) (n : Nesting) (c : Char) : Nesting :=
  if c == '"' then { n with quoted := !n.quoted }
  else if n.quoted || shield == .quotes then n
  else if isOpener c then { n with depth := n.depth + 1 }
  else if isCloser c then { n with depth := n.depth - 1 }
  else n

/-- Whether `c`, read in this state, ends a piece. Quotes never do, nor brackets that count. -/
def separates (shield : Shield) (sep : Char) (n : Nesting) (c : Char) : Bool :=
  c == sep && !n.quoted && n.depth == 0 && c != '"' &&
    (shield == .quotes || !(isOpener c || isCloser c))

end Nesting

/-- The pieces of a text that the scan enters in state `n`. -/
def piecesFrom (shield : Shield) (sep : Char) : Nesting → List Char → List (List Char)
  | _, [] => [[]]
  | n, c :: cs =>
    if n.separates shield sep c then [] :: piecesFrom shield sep n cs
    else (piecesFrom shield sep (n.step shield c) cs).modifyHead (c :: ·)

/-- The pieces of `cs` between separators. The empty text has none. -/
def splitOutside (shield : Shield) (sep : Char) (cs : List Char) : List (List Char) :=
  if cs.isEmpty then [] else piecesFrom shield sep {} cs

/-- `cs` cut at each `sep` outside quotes and brackets. -/
def splitOutsideBrackets (sep : Char) (cs : List Char) : List (List Char) :=
  splitOutside .quotesAndBrackets sep cs

/-- `cs` cut at each `sep` outside quotes. -/
def splitOutsideQuotes (sep : Char) (cs : List Char) : List (List Char) :=
  splitOutside .quotes sep cs

/-- The runs between the items that `p` accepts; at least one. -/
def splitEvery {α : Type} (p : α → Bool) : List α → List (List α)
  | [] => [[]]
  | a :: as => if p a then [] :: splitEvery p as else (splitEvery p as).modifyHead (a :: ·)

/-- The runs that end with an item that `p` accepts, and what is behind the last of these if there
is anything. -/
def splitAfter {α : Type} (p : α → Bool) : List α → List (List α)
  | [] => []
  | a :: as =>
    if p a then [a] :: splitAfter p as
    else
      match splitAfter p as with
      | [] => [[a]]
      | run :: runs => (a :: run) :: runs

/-- `cs` cut at the first character that `p` accepts, which is dropped. -/
def cutAt? (p : Char → Bool) : List Char → Option (List Char × List Char)
  | [] => none
  | c :: cs => if p c then some ([], cs) else (cutAt? p cs).map fun r => (c :: r.1, r.2)

end ClassicBasic.Text
