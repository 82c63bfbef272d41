import ClassicBasic.Expr.Error
import ClassicBasic.Text.Blank
import ClassicBasic.Text.Search
import ClassicBasic.Text.Split

/-!
# Lexemes of an expression

One scan from left to right cuts a text into operand texts, operators and parentheses with what
stands between them. A fault of the scan is the last lexeme, so whoever reads the lexemes in order
meets it after the faults to its left.
-/

namespace ClassicBasic

/-- An operator as it is written. Minus and slash have no operator of their own: they add a
negated operand and multiply by an inverted one. -/
inductive Symbol where
  | operator (op : Op)
  | minus
  | slash
deriving DecidableEq, Repr

def Symbol.spelling : Symbol → String
  | .operator op => op.spelling
  | .minus => "-"
  | .slash => "/"

inductive Lexeme where
  /-- The text of an operand, without surrounding blanks and not empty. -/
  | operand (text : List Char)
  | symbol (s : Symbol)
  /-- A parenthesis: the text in front of it, without blanks around it, and the text inside it. -/
  | parens (name inner : List Char)
  | fault (e : SyntaxError)
deriving DecidableEq, Repr

namespace Lexeme

/-- The operators, a longer one before those it starts with. -/
def symbols : List (List Char × Symbol) :=
  [(['<', '='], .operator .lessEqual), (['>', '='], .operator .greaterEqual),
   (['<', '>'], .operator .notEqual), (['A', 'N', 'D'], .operator .and),
   (['O', 'R'], .operator .or), (['+'], .operator .plus), (['-'], .minus),
   (['*'], .operator .times), (['/'], .slash), (['^'], .operator .power),
   (['<'], .operator .less), (['>'], .operator .greater), (['='], .operator .equal)]

/-- Whether the operand text `token` is a number up to the letter of its power of ten, so that a
sign belongs to the number. -/
def inExponent (token : List Char) : Bool :=
  match (Text.trimStart token).reverse with
  | e :: mantissa =>
    (e == 'E' || e == 'e') && !mantissa.isEmpty && mantissa.all fun c => c.isDigit || c == '.'
  | [] => false

/-- The operator at the start of `cs` and its length. `token` is the operand text so far, `before`
the character in front of `cs`. -/
def symbolAt? (token : List Char) (before : Option Char) (cs : List Char) : Option (Symbol × Nat) :=
  (symbols.find? fun (spelling, s) =>
      Text.occursAt spelling before cs &&
        !((s == .operator .plus || s == .minus) && inExponent token)).map
    fun (spelling, s) => (s, spelling.length)

/-- The operand that a collected text holds, if it holds any. -/
def flush (token : List Char) : List Lexeme :=
  let text := Text.trim token
  if text.isEmpty then [] else [.operand text]

/-- The lexemes of the rest `cs` of a text. `token` is the operand text so far, `before` the
character in front of `cs`, `offset` its place; the first `skip` characters of `cs` belong to the
lexeme before. -/
def scan (token : List Char) (before : Option Char) (offset : Nat) :
    (skip : Nat) → List Char → List Lexeme
  | _, [] => flush token
  | skip + 1, c :: cs => scan token (some c) (offset + c.utf8Size) skip cs
  | 0, c :: cs =>
    if c == '"' then
      match Text.cutAt? (· == '"') cs with
      | some (body, _) =>
        scan (token ++ '"' :: body ++ ['"']) (some c) (offset + c.utf8Size) (body.length + 1) cs
      | none => [.fault (.unterminatedText offset)]
    else if c == '(' then
      match Text.closing? (c :: cs) with
      | some (body, _) =>
        .parens (Text.trim token) body.tail ::
          scan [] (some c) (offset + c.utf8Size) body.length cs
      | none => [.fault (.unmatchedOpen offset)]
    else if c == ')' then [.fault (.unexpectedClose offset)]
    else
      match symbolAt? token before (c :: cs) with
      | some (s, length) =>
        flush token ++ .symbol s :: scan [] (some c) (offset + c.utf8Size) (length - 1) cs
      | none => scan (token ++ [c]) (some c) (offset + c.utf8Size) 0 cs

/-- The lexemes of `text`. -/
def all (text : List Char) : List Lexeme := scan [] none 0 0 text

end Lexeme

end ClassicBasic
