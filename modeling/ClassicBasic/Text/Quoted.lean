import ClassicBasic.Text.Printable

/-!
# Texts as messages show them

A text is shown between double quotes. A quote, a backslash and the usual controls are escaped by
a backslash and one character; other characters that do not print are shown by code point.
-/

namespace ClassicBasic.Text

/-- How one character is shown between quotes. -/
def showChar (c : Char) : String :=
  match c with
  | '"' => "\\\""
  | '\\' => "\\\\"
  | '\n' => "\\n"
  | '\r' => "\\r"
  | '\t' => "\\t"
  | '\x00' => "\\0"
  | c =>
    if isPrintable c then c.toString
    else "\\u\x7b" ++ String.ofList (Nat.toDigits 16 c.toNat) ++ "\x7d"

/-- `s` between quotes, escaped. -/
def quoted (s : String) : String :=
  s.toList.foldl (fun shown c => shown ++ showChar c) "\"" ++ "\""

end ClassicBasic.Text
