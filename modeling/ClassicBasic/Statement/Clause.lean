import ClassicBasic.Expr.Parser
import ClassicBasic.Statement.Basic

/-!
# Clauses of statements

The parts of a statement that are more than one expression: targets of assignments, signatures of
functions, constants of DATA, lists of PRINT and INPUT.
-/

namespace ClassicBasic.Clause

/-- The expression that `cs` spells. -/
def readExpr (cs : List Char) : Except ParseError Expr :=
  match Expr.parse cs with
  | .ok e => .ok e
  | .error e => .error (.expression (String.ofList (Text.trim cs)) e)

/-- The fault of a clause, shown by its text without surrounding blanks. -/
def invalid {α : Type} (clause : Clause) (cs : List Char) : Except ParseError α :=
  .error (.invalid clause (String.ofList (Text.trim cs)))

/-- The name that `cs` spells. -/
def readName (cs : List Char) : Except ParseError String :=
  if Text.isName (Text.trim cs) then .ok (String.ofList (Text.trim cs))
  else invalid .variableName cs

/-- The line that the number `n` names. -/
def readLine (n : Int) : Except ParseError Nat :=
  if 0 ≤ n && n.toNat < UInt32.size then .ok n.toNat else .error (.lineNumber n)

/-! ## Targets and signatures -/

/-- A name followed by texts in parentheses, when the first parenthesis closes at the very end. -/
def splitCall? (cs : List Char) : Option (List Char × List (List Char)) := do
  let (name, _) ← Text.cutAt? (· == '(') cs
  match ← Text.closing? (cs.drop name.length) with
  | (body, []) => some (Text.trim name, Text.splitOutsideBrackets ',' body.tail)
  | _ => none

/-- A variable, or an array with at least one subscript that is not blank. -/
def readTarget (text : List Char) : Except ParseError Target :=
  let cs := Text.trim text
  match splitCall? cs with
  | some (name, args) =>
    if !Text.isName name || args.all Text.allBlank then invalid .assignmentTarget cs
    else do .ok (.element { name := String.ofList name, subscripts := ← args.mapM readExpr })
  | none =>
    if Text.isName cs then .ok (.scalar (String.ofList cs)) else invalid .assignmentTarget cs

/-- An array with its sizes. -/
def readArray (cs : List Char) : Except ParseError Element :=
  match readTarget cs with
  | .ok (.element e) => .ok e
  | _ => invalid .arrayDeclaration cs

/-- The name of a function and its parameters. Blank ones are left out. -/
def readSignature (text : List Char) : Except ParseError (String × List String) :=
  let cs := Text.trim text
  match splitCall? cs with
  | some (name, args) => do
    let name ← readName name
    .ok (name, ← (args.filter fun a => !Text.allBlank a).mapM readName)
  | none => do .ok (← readName cs, [])

/-! ## DATA -/

/-- The text between two quotes, if `cs` starts and ends with one. -/
def unquote? : List Char → Option (List Char)
  | '"' :: body => if body.getLast? = some '"' then some body.dropLast else none
  | _ => none

/-- A constant of DATA: a text in quotes, a number, or else a text as it stands. -/
def readConstant (text : List Char) : Value :=
  let cs := Text.trim text
  match unquote? cs with
  | some body => .text (String.ofList body)
  | none =>
    match Numeral.number? cs with
    | some x => .number x
    | none => .text (String.ofList cs)

/-! ## PRINT -/

/-- A piece of a PRINT list before its expressions are read. -/
inductive PrintPiece where
  | expr (text : List Char)
  | comma
  | semicolon
  /-- The text ends inside quotes. -/
  | unclosed

/-- The piece that a collected text is, if it is not blank. -/
def printPiece (text : List Char) : List PrintPiece :=
  let cs := Text.trim text
  if cs.isEmpty then [] else [.expr cs]

/-- Whether `c` starts a new item after the text `item`: a quote after an operand, or an operand
after a quoted text. -/
def startsItem (item : List Char) (c : Char) : Bool :=
  let last := (item.reverse.dropWhile Text.isBlank).head?
  if c == '"' then last.any fun l => l.isAlphanum || l == '$' || l == ')' || l == '"'
  else c.isAlphanum && last == some '"'

/-- The pieces of the rest of a PRINT list. `item` is the item so far, `depth` the number of open
parentheses. -/
def printPieces (item : List Char) (quoted : Bool) (depth : Nat) : List Char → List PrintPiece
  | [] => if quoted then [.unclosed] else printPiece item
  | c :: cs =>
    if quoted then printPieces (item ++ [c]) (c != '"') depth cs
    else if depth == 0 && (c == ';' || c == ',') then
      printPiece item ++ (if c == ';' then .semicolon else .comma) :: printPieces [] false 0 cs
    else
      let depth' := if c == '(' then depth + 1 else if c == ')' then depth - 1 else depth
      if depth == 0 && startsItem item c then
        printPiece item ++ printPieces [c] (c == '"') depth' cs
      else printPieces (item ++ [c]) (c == '"') depth' cs

/-- The items of a PRINT list. Commas and semicolons count outside quotes and parentheses. -/
def readPrintItems (text : List Char) : Except ParseError (List PrintItem) :=
  (printPieces [] false 0 text).mapM fun
    | .expr cs => return .expr (← readExpr cs)
    | .comma => .ok .comma
    | .semicolon => .ok .semicolon
    | .unclosed => invalid .printList text

/-! ## INPUT -/

/-- The rest of an INPUT list after the separator that may follow its prompt. -/
def dropSeparator : List Char → List Char
  | ';' :: cs => cs
  | ',' :: cs => cs
  | cs => cs

/-- The prompt in quotes that may start an INPUT list, and the rest. -/
def readPrompt (text : List Char) : Except ParseError (Option String × List Char) :=
  match Text.trimStart text with
  | '"' :: rest =>
    match Text.cutAt? (· == '"') rest with
    | some (prompt, rest) =>
      .ok (some (String.ofList prompt), dropSeparator (Text.trimStart rest))
    | none => invalid .inputPrompt text
  | rest => .ok (none, rest)

/-- The prompt and the targets of an INPUT list. Blank targets are left out. -/
def readInputList (text : List Char) : Except ParseError (Option String × List Target) := do
  let (prompt, rest) ← readPrompt text
  let pieces := (Text.splitOutsideBrackets ',' rest).filter fun p => !Text.allBlank p
  let targets ← pieces.mapM readTarget
  if targets.isEmpty then invalid .inputList text else .ok (prompt, targets)

end ClassicBasic.Clause
