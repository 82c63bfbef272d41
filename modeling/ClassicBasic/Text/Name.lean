/-!
# Names

A name is a letter followed by letters, digits and underscores, with at most one `$` at the end.
The `$` says that the name stands for text.
-/

namespace ClassicBasic

namespace Text

/-- Characters that continue a word: a keyword next to one of them is part of a longer word. -/
def isWordChar (c : Char) : Bool := c.isAlphanum || c == '_' || c == '$'

/-- A letter, then letters, digits and underscores. -/
def isPlainName : List Char → Bool
  | [] => false
  | c :: cs => c.isAlpha && cs.all fun d => d.isAlphanum || d == '_'

/-- A plain name with or without one `$` at its end. -/
def isName (cs : List Char) : Bool :=
  isPlainName (if cs.getLast? = some '$' then cs.dropLast else cs)

end Text

/-- Whether `name` stands for text. -/
def isTextName (name : String) : Bool := name.toList.getLast? == some '$'

end ClassicBasic
