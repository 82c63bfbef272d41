import ClassicBasic.Statement.Clause
import ClassicBasic.Statement.Form

/-!
# Reading statements

A line is cut at colons outside quotes and brackets. A remark and an IF own the rest of the line,
colons included. The branches of an IF are blocks in their turn.
-/

namespace ClassicBasic

namespace Form

/-- The statement of a form, from what the slots of its pattern captured; `block` reads the branches
of an IF. The captures always have the shape that the pattern gives them. -/
def build (block : List Char → Except ParseError Block) (f : Form) (captures : List Capture) :
    Except ParseError Statement :=
  match f, captures with
  | .data, [.texts values] => .ok (.data (values.map fun v => Clause.readConstant v.toList))
  | .define, [.text signature, .text body] => do
    let (name, params) ← Clause.readSignature signature.toList
    return .define name params (← Clause.readExpr body.toList)
  | .dim, [.texts arrays] =>
    return .dim (← arrays.mapM fun a => Clause.readArray a.toList)
  | .finish, [] => return .finish
  | .forStep, [.text var, .text first, .text limit, .text step] => do
    let var ← Clause.readName var.toList
    let first ← Clause.readExpr first.toList
    let limit ← Clause.readExpr limit.toList
    return .forLoop var first limit (← Clause.readExpr step.toList)
  | .forLoop, [.text var, .text first, .text limit] => do
    let var ← Clause.readName var.toList
    let first ← Clause.readExpr first.toList
    let limit ← Clause.readExpr limit.toList
    return .forLoop var first limit (← Clause.readExpr ['1'])
  | .gosub, [.int line] => return .gosub (← Clause.readLine line)
  | .goto, [.int line] => return .goto (← Clause.readLine line)
  | .ifLine, [.text condition, .int line] | .ifGoto, [.text condition, .int line] => do
    let condition ← Clause.readExpr condition.toList
    return .ifLine condition (← Clause.readLine line)
  | .ifElseLine, [.text condition, .int line, .int elseLine] => do
    let condition ← Clause.readExpr condition.toList
    let line ← Clause.readLine line
    return .ifElseLine condition line (← Clause.readLine elseLine)
  | .ifThen, [.text condition, .text body] => do
    let condition ← Clause.readExpr condition.toList
    return .ifThen condition (← block body.toList)
  | .ifElse, [.text condition, .text body, .text elseBody] => do
    let condition ← Clause.readExpr condition.toList
    let body ← block body.toList
    return .ifElse condition body (← block elseBody.toList)
  | .input, [.text list] => do
    let (prompt, targets) ← Clause.readInputList list.toList
    return .input prompt targets
  | .letTo, [.text target, .text value] => do
    let target ← Clause.readTarget target.toList
    return .letTo target (← Clause.readExpr value.toList)
  | .next, [.texts vars] => return .next (← vars.mapM fun v => Clause.readName v.toList)
  | .nextBare, [] => return .next []
  | .onGosub, [.text index, .ints lines] => do
    let index ← Clause.readExpr index.toList
    return .onGosub index (← lines.mapM Clause.readLine)
  | .onGoto, [.text index, .ints lines] => do
    let index ← Clause.readExpr index.toList
    return .onGoto index (← lines.mapM Clause.readLine)
  | .print, [.text items] => return .print (← Clause.readPrintItems items.toList)
  | .printBare, [] => return .print []
  | .read, [.texts targets] => return .read (← targets.mapM fun t => Clause.readTarget t.toList)
  | .remark, [.text text] => return .remark text
  | .remarkBare, [] => return .remark ""
  | .restore, [] => return .restore
  | .returnFrom, [] => return .returnFrom
  | .stop, [] => return .stop
  | .assign, [.text target, .text value] => do
    let value ← Clause.readExpr value.toList
    match ← Clause.readTarget target.toList with
    | .scalar name => return .assign name value
    | .element e => return .assignElement e value
  | _, _ => .error .empty

end Form

namespace Statement

/-- The statement that `text` spells; `block` reads the branches of an IF. -/
def parseWith (block : List Char → Except ParseError Block) (text : List Char) :
    Except ParseError Statement :=
  let cs := Text.trim text
  if cs.isEmpty then .error .empty
  else
    match Pattern.firstMatch? Form.pattern Form.all cs with
    | some (form, captures) => form.build block captures
    | none => .error (.unknown (String.ofList cs))

/-- Whether a statement owns the rest of its line: a remark, or an IF that is a word. -/
def ownsLine (cs : List Char) : Bool :=
  (Text.dropLeading? ['R', 'E', 'M'] cs).isSome ||
    (Text.dropLeading? ['I', 'F'] cs).any fun rest => !rest.head?.any Text.isWordChar

/-- The statements of the pieces of a line, of which blank ones are skipped. -/
def parsePieces (one : List Char → Except ParseError Statement) :
    List (List Char) → Except ParseError Block
  | [] => .ok []
  | piece :: rest =>
    let cs := Text.trim piece
    if cs.isEmpty then parsePieces one rest
    else if ownsLine cs then return [← one ([':'].intercalate (piece :: rest))]
    else do
      let statement ← one cs
      return statement :: (← parsePieces one rest)

/-- `parseBlock` for texts in which IFs nest less than `depth` deep. -/
def parseBlockWithin : (depth : Nat) → List Char → Except ParseError Block
  | 0, _ => .error .empty
  | depth + 1, text => do
    let pieces := Text.splitOutsideBrackets ':' text
    let block ← parsePieces (parseWith (parseBlockWithin depth)) pieces
    if block.isEmpty then .error .empty else .ok block

/-- The statements of a line, in which IFs cannot nest deeper than it is long. -/
def parseBlock (text : List Char) : Except ParseError Block := parseBlockWithin text.length text

/-- The statement that `text` spells. -/
def parse (text : List Char) : Except ParseError Statement :=
  parseWith (parseBlockWithin text.length) text

end Statement

end ClassicBasic
