/-!
# JSON texts

The two ways to write a JSON value: in one line without blanks, and over several lines indented by
two blanks.
-/

namespace ClassicBasic

inductive Json where
  | string (s : String)
  | nat (n : Nat)
  | array (items : List Json)
  | object (fields : List (String × Json))

namespace Json

def hexDigit (n : Nat) : Char := (Nat.toDigits 16 (n % 16)).headD '0'

/-- A character inside a JSON string. -/
def escapeChar (c : Char) : String :=
  match c with
  | '"' => "\\\""
  | '\\' => "\\\\"
  | '\n' => "\\n"
  | '\r' => "\\r"
  | '\t' => "\\t"
  | '\x08' => "\\b"
  | '\x0c' => "\\f"
  | c =>
    if c.toNat < 0x20 then "\\u00" ++ String.ofList [hexDigit (c.toNat / 16), hexDigit c.toNat]
    else c.toString

def quote (s : String) : String :=
  s.toList.foldl (fun shown c => shown ++ escapeChar c) "\"" ++ "\""

mutual

/-- The value in one line. -/
def compact : Json → String
  | .string s => quote s
  | .nat n => toString n
  | .array items => "[" ++ ",".intercalate (compactItems items) ++ "]"
  | .object fields => "\x7b" ++ ",".intercalate (compactFields fields) ++ "\x7d"

def compactItems : List Json → List String
  | [] => []
  | item :: items => compact item :: compactItems items

def compactFields : List (String × Json) → List String
  | [] => []
  | (key, value) :: fields => (quote key ++ ":" ++ compact value) :: compactFields fields

end

/-- The start of a line at a depth of `level`. -/
def newline (level : Nat) : String := "\n" ++ String.ofList (List.replicate (2 * level) ' ')

/-- The parts between the two brackets, each on a line of its own; no parts, no lines. -/
def block (level : Nat) (opening closing : String) (parts : List String) : String :=
  if parts.isEmpty then opening ++ closing
  else
    let lines := (newline (level + 1)) ++ ("," ++ newline (level + 1)).intercalate parts
    opening ++ lines ++ newline level ++ closing

mutual

/-- The value over several lines, the first of which stands at a depth of `level`. -/
def prettyAt (level : Nat) : Json → String
  | .string s => quote s
  | .nat n => toString n
  | .array items => block level "[" "]" (prettyItems (level + 1) items)
  | .object fields => block level "\x7b" "\x7d" (prettyFields (level + 1) fields)

def prettyItems (level : Nat) : List Json → List String
  | [] => []
  | item :: items => prettyAt level item :: prettyItems level items

def prettyFields (level : Nat) : List (String × Json) → List String
  | [] => []
  | (key, value) :: fields =>
    (quote key ++ ": " ++ prettyAt level value) :: prettyFields level fields

end

def pretty (j : Json) : String := prettyAt 0 j

end Json

end ClassicBasic
