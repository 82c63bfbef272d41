import ClassicBasic.Expr.Lexeme
import ClassicBasic.Expr.Tree

/-!
# Reading expressions

The lexemes of a text are taken from left to right. An operand may have signs in front of it; an
operand after an operand, or an operator other than a sign after an operator, is a fault.
-/

namespace ClassicBasic

/-- The part of an expression read so far. -/
inductive Fragment where
  /-- Nothing but signs. -/
  | signs (negative : Bool)
  /-- An expression. -/
  | complete (tree : Tree)
  /-- An expression, an operator and signs. -/
  | dangling (tree : Tree) (s : Symbol) (negative : Bool)
deriving Inhabited

namespace Fragment

/-- The operand with its signs. -/
def applySign (negative : Bool) (operand : Tree) : Except SyntaxError Tree :=
  if negative then operand.transformed .negate else .ok operand

/-- The tree with an operator, as it is written, and its right operand. -/
def join (tree : Tree) (operand : Tree) : Symbol → Except SyntaxError Tree
  | .operator op => .ok (tree.push op operand)
  | .minus => do .ok (tree.push .plus (← operand.transformed .negate))
  | .slash => do .ok (tree.push .times (← operand.transformed .invert))

/-- What the fault of a missing operator shows: the operand, or the whole text if it has no short
form. -/
def missingBefore (source : List Char) : Tree → String
  | .var name => name
  | .call name _ => name
  | .text s => "\"" ++ s ++ "\""
  | _ => String.ofList (Text.trim source)

/-- The fragment followed by an operand. `source` is the whole text. -/
def addOperand (source : List Char) (operand : Tree) : Fragment → Except SyntaxError Fragment
  | .complete _ => .error (.missingOperator (missingBefore source operand))
  | .signs negative => do
    let operand ← applySign negative operand
    .ok (.complete (.single operand))
  | .dangling tree s negative => do
    let operand ← applySign negative operand
    .ok (.complete (← join tree operand s))

/-- The signs after one more operator. -/
def addSign (negative : Bool) : Symbol → Except SyntaxError Bool
  | .minus => .ok (!negative)
  | .operator .plus => .ok negative
  | s => .error (.missingOperand s.spelling)

/-- The fragment followed by an operator. -/
def addSymbol (s : Symbol) : Fragment → Except SyntaxError Fragment
  | .complete tree => .ok (.dangling tree s false)
  | .signs negative => do .ok (.signs (← addSign negative s))
  | .dangling tree s' negative => do .ok (.dangling tree s' (← addSign negative s))

/-- The expression that the fragment is at the end of the text. -/
def finish : Fragment → Except SyntaxError Tree
  | .complete tree => .ok tree
  | .dangling _ s _ => .error (.missingOperand s.spelling)
  | .signs true => .error (.missingOperand "-")
  | .signs false => .error .empty

end Fragment

namespace Tree

/-- The operand that a text without operators and parentheses stands for. -/
def literal (cs : List Char) : Except SyntaxError Tree :=
  let shown := String.ofList cs
  match cs with
  | '"' :: body =>
    if body.getLast? = some '"' && !body.dropLast.contains '"' then
      .ok (.text (String.ofList body.dropLast))
    else .error (.missingOperator shown)
  | c :: rest =>
    if c.isDigit || c == '.' then
      match Numeral.number? cs with
      | some x => .ok (.number x)
      | none => .error (.badNumber shown)
    else if Text.isName cs then .ok (.var shown)
    else if rest.any Text.isBlank then .error (.missingOperator shown)
    else .error (.badOperand shown)
  | [] => .error (.badOperand shown)

/-- The operand of a parenthesis: a group, or a call if a name stands in front. `parse` reads the
texts inside. -/
def parens (parse : List Char → Except SyntaxError Tree) (name inner : List Char) :
    Except SyntaxError Tree :=
  if name.isEmpty then do .ok (← parse inner).grouped
  else if Text.isName name then do
    let args ← if Text.allBlank inner then .ok [] else
      (Text.splitOutsideBrackets ',' inner).mapM parse
    .ok (.call (String.ofList name) args)
  else .error (.missingOperator (String.ofList name))

/-- The fragment that the lexemes make, added to what is read so far. -/
def build (parse : List Char → Except SyntaxError Tree) (source : List Char) :
    Fragment → List Lexeme → Except SyntaxError Tree
  | f, [] => f.finish
  | _, .fault e :: _ => .error e
  | f, .symbol s :: rest => do build parse source (← f.addSymbol s) rest
  | f, .operand cs :: rest => do
    build parse source (← f.addOperand source (← literal cs)) rest
  | f, .parens name inner :: rest => do
    build parse source (← f.addOperand source (← parens parse name inner)) rest

/-- `parse` for texts with parentheses nested less than `depth` deep. -/
def parseWithin : (depth : Nat) → List Char → Except SyntaxError Tree
  | 0, _ => .error .empty
  | depth + 1, cs => build (parseWithin depth) cs (.signs false) (Lexeme.all cs)

/-- The tree of an expression's text, in which parentheses cannot nest deeper than it is long. -/
def parse (cs : List Char) : Except SyntaxError Tree := parseWithin cs.length cs

end Tree

/-- The expression that `text` spells. -/
def Expr.parse (text : List Char) : Except SyntaxError Expr := do
  let tree ← Tree.parse text
  .ok { raw := String.ofList (Text.trim text), tree }

end ClassicBasic
