import ClassicBasic.Proofs.Expr.Composition
import ClassicBasic.Statement.Parser

/-!
# Writing statements

A statement is written as its keyword and its parts with single spaces between them, a block as its
statements with colons between them (`Statement.render`, `Block.render`). How expressions and
numbers are written is left open: a `Speller` gives their texts.

`Statement.Canonical` says which statements are written so that they can be told apart again: names
do not look like keywords, lists that the grammar needs are there, quotes are left out of quoted
texts, and nothing that takes the rest of a line or of a branch stands in front of something else.
-/

namespace ClassicBasic

/-- The texts by which expressions are written, and the numbers of DATA. -/
structure Speller where
  expr : Expr → List Char
  number : Float → List Char

/-! ## Texts -/

namespace Text

/-- `ws` with single spaces between them. -/
def words (ws : List (List Char)) : List Char := [' '].intercalate ws

/-- `us` with commas between them. -/
def commas (us : List (List Char)) : List Char := [','].intercalate us

/-- `us` between parentheses, behind `name`. -/
def applied (name : String) (us : List (List Char)) : List Char :=
  name.toList ++ ('(' :: commas us ++ [')'])

def inQuotes (s : String) : List Char := '"' :: s.toList ++ ['"']

/-- `n` in decimal digits. -/
def decimal (n : Nat) : List Char := Nat.toDigits 10 n

end Text

open Text

section
variable (w : Speller)

def Value.render : Value → List Char
  | .number x => w.number x
  | .text s => inQuotes s

def Element.render (e : Element) : List Char := applied e.name (e.subscripts.map w.expr)

def Target.render : Target → List Char
  | .scalar name => name.toList
  | .element e => e.render w

def PrintItem.render : PrintItem → List Char
  | .expr e => w.expr e
  | .comma => [',']
  | .semicolon => [';']

/-- A function's name, and its parameters if it has any. -/
def Text.signature (name : String) (params : List String) : List Char :=
  if params.isEmpty then name.toList else applied name (params.map String.toList)

/-- The list of an INPUT, with its prompt in front if it has one. -/
def Text.inputList (prompt : Option String) (targets : List Target) : List Char :=
  match prompt with
  | some p => words [inQuotes p ++ [';'], commas (targets.map (Target.render w))]
  | none => commas (targets.map (Target.render w))

mutual

def Statement.render : Statement → List Char
  | .data values => words ["DATA".toList, commas (values.map (Value.render w))]
  | .define name params body =>
    words ["DEF".toList, signature name params, ['='], w.expr body]
  | .dim arrays => words ["DIM".toList, commas (arrays.map (Element.render w))]
  | .finish => "END".toList
  | .forLoop var first limit step =>
    words ["FOR".toList, var.toList, ['='], w.expr first, "TO".toList, w.expr limit,
      "STEP".toList, w.expr step]
  | .gosub line => words ["GOSUB".toList, decimal line]
  | .goto line => words ["GOTO".toList, decimal line]
  | .ifLine condition line =>
    words ["IF".toList, w.expr condition, "THEN".toList, decimal line]
  | .ifElseLine condition line elseLine =>
    words ["IF".toList, w.expr condition, "THEN".toList, decimal line, "ELSE".toList,
      decimal elseLine]
  | .ifThen condition block =>
    words ["IF".toList, w.expr condition, "THEN".toList, [':'].intercalate (renderEach block)]
  | .ifElse condition block elseBlock =>
    words ["IF".toList, w.expr condition, "THEN".toList, [':'].intercalate (renderEach block),
      "ELSE".toList, [':'].intercalate (renderEach elseBlock)]
  | .input prompt targets => words ["INPUT".toList, inputList w prompt targets]
  | .letTo target e => words ["LET".toList, target.render w, ['='], w.expr e]
  | .next [] => "NEXT".toList
  | .next vars => words ["NEXT".toList, commas (vars.map String.toList)]
  | .onGosub index lines =>
    words ["ON".toList, w.expr index, "GOSUB".toList, commas (lines.map decimal)]
  | .onGoto index lines =>
    words ["ON".toList, w.expr index, "GOTO".toList, commas (lines.map decimal)]
  | .print [] => "PRINT".toList
  | .print items => words ["PRINT".toList, items.flatMap (PrintItem.render w)]
  | .read targets => words ["READ".toList, commas (targets.map (Target.render w))]
  | .remark text => if text.isEmpty then "REM".toList else words ["REM".toList, text.toList]
  | .restore => "RESTORE".toList
  | .returnFrom => "RETURN".toList
  | .stop => "STOP".toList
  | .assign var e => words [var.toList, ['='], w.expr e]
  | .assignElement target e => words [target.render w, ['='], w.expr e]

def Statement.renderEach : List Statement → List (List Char)
  | [] => []
  | s :: rest => s.render :: Statement.renderEach rest

end

/-- The statements of a block with colons between them. -/
def Block.render (b : Block) : List Char := [':'].intercalate (b.map (Statement.render w))

namespace Statement

theorem renderEach_eq_map (b : List Statement) : renderEach w b = b.map (render w) := by
  induction b with
  | nil => rfl
  | cons s b ih => exact congrArg (s.render w :: ·) ih

theorem render_data (values : List Value) : (data values).render w =
    words ["DATA".toList, commas (values.map (Value.render w))] := rfl

theorem render_ifLine (condition : Expr) (line : Nat) : (ifLine condition line).render w =
    words ["IF".toList, w.expr condition, "THEN".toList, decimal line] := rfl

theorem render_ifElseLine (condition : Expr) (line elseLine : Nat) :
    (ifElseLine condition line elseLine).render w =
      words ["IF".toList, w.expr condition, "THEN".toList, decimal line, "ELSE".toList,
        decimal elseLine] := rfl

theorem render_ifThen (condition : Expr) (block : Block) : (ifThen condition block).render w =
    words ["IF".toList, w.expr condition, "THEN".toList, block.render w] := by
  rw [Block.render, ← renderEach_eq_map]
  rfl

theorem render_ifElse (condition : Expr) (block elseBlock : Block) :
    (ifElse condition block elseBlock).render w =
      words ["IF".toList, w.expr condition, "THEN".toList, block.render w, "ELSE".toList,
        elseBlock.render w] := by
  rw [Block.render, Block.render, ← renderEach_eq_map, ← renderEach_eq_map]
  rfl

theorem render_onGoto (index : Expr) (lines : List Nat) : (onGoto index lines).render w =
    words ["ON".toList, w.expr index, "GOTO".toList, commas (lines.map decimal)] := rfl

theorem render_remark (text : String) : (remark text).render w =
    if text.isEmpty then "REM".toList else words ["REM".toList, text.toList] := rfl

theorem render_assign (var : String) (e : Expr) :
    (assign var e).render w = words [var.toList, ['='], w.expr e] := rfl

theorem render_assignElement (target : Element) (e : Expr) :
    (assignElement target e).render w = words [target.render w, ['='], w.expr e] := rfl

end Statement

end

/-! ## Names and clauses that can be told apart -/

/-- The keywords of statements and the words inside them. -/
def Text.reserved : List String :=
  ["DATA", "DEF", "DIM", "END", "FOR", "GOSUB", "GOTO", "IF", "INPUT", "LET", "NEXT", "ON", "PRINT",
   "READ", "REM", "RESTORE", "RETURN", "STOP", "THEN", "ELSE", "TO", "STEP"]

/-- A name that does not start with a reserved word and is no operator. -/
def Text.isFree (name : String) : Bool :=
  isName name.toList && !reserved.any (fun k => k.toList.isPrefixOf name.toList) &&
    name != "AND" && name != "OR"

/-- The text of `e` reads as `e`, and the names in it are free. -/
structure Speller.Spells (w : Speller) (e : Expr) : Prop where
  parse : Expr.parse (w.expr e) = .ok e
  names : ∀ n ∈ e.tree.names, isFree n = true

/-- A text without quotes, or a number whose text reads as it. -/
def Value.Writable (w : Speller) : Value → Prop
  | .number x => Numeral.number? (w.number x) = some x
  | .text s => '"' ∉ s.toList

structure Element.Writable (w : Speller) (e : Element) : Prop where
  name : isFree e.name = true
  ne_nil : e.subscripts ≠ []
  spells : ∀ x ∈ e.subscripts, w.Spells x

def Target.Writable (w : Speller) : Target → Prop
  | .scalar name => isFree name = true
  | .element e => e.Writable w

/-- The subscripts have no equals sign outside quotes: the first one is that of the assignment. -/
def Element.NoEquals (w : Speller) (e : Element) : Prop :=
  ∀ x ∈ e.subscripts, findOutsideQuotes? ['='] (w.expr x) = none

def Target.NoEquals (w : Speller) : Target → Prop
  | .scalar _ => True
  | .element e => e.NoEquals w

def PrintItem.isExpr : PrintItem → Bool
  | .expr _ => true
  | _ => false

/-- Each expression of a PRINT list is one item on its own, and a comma or semicolon stands between
two of them. -/
structure PrintItem.Separate (w : Speller) (items : List PrintItem) : Prop where
  spells : ∀ e, .expr e ∈ items → w.Spells e
  whole : ∀ e, .expr e ∈ items → Clause.readPrintItems (w.expr e) = .ok [.expr e]
  apart : items.IsChain fun a b => ¬ (a.isExpr = true ∧ b.isExpr = true)

/-- A line that can be named. -/
def IsLineNumber (n : Nat) : Prop := n < UInt32.size

/-! ## Canonical statements -/

namespace Statement

/-- A remark, or an IF of any form: what follows on the line belongs to it. -/
def takesRest (s : Statement) : Bool := s.keyword == "IF" || s.keyword == "REM"

mutual

/-- Whether an ELSE stands in the statement or in its branches. -/
def hasElse : Statement → Bool
  | .ifElseLine .. | .ifElse .. => true
  | .ifThen _ block => anyElse block
  | _ => false

def anyElse : List Statement → Bool
  | [] => false
  | s :: rest => hasElse s || anyElse rest

end

end Statement

/-- A branch of an IF: not empty, without a remark, and only its last statement is an IF. -/
structure Block.IsBranch (b : Block) : Prop where
  ne_nil : b ≠ []
  last : ∀ s ∈ b.dropLast, s.takesRest = false
  no_remark : ∀ s ∈ b, s.keyword ≠ "REM"

/-- The statements that are written so that they can be told apart again. -/
inductive Statement.Canonical (w : Speller) : Statement → Prop where
  | data {values : List Value} : values ≠ [] → (∀ v ∈ values, v.Writable w) →
    Canonical w (.data values)
  | define {name : String} {params : List String} {body : Expr} : isFree name = true →
    (∀ p ∈ params, isFree p = true) → w.Spells body → Canonical w (.define name params body)
  | dim {arrays : List Element} : arrays ≠ [] → (∀ a ∈ arrays, a.Writable w) →
    Canonical w (.dim arrays)
  | finish : Canonical w .finish
  | forLoop {var : String} {first limit step : Expr} : isFree var = true → w.Spells first →
    w.Spells limit → w.Spells step → Canonical w (.forLoop var first limit step)
  | gosub {line : Nat} : IsLineNumber line → Canonical w (.gosub line)
  | goto {line : Nat} : IsLineNumber line → Canonical w (.goto line)
  | ifLine {condition : Expr} {line : Nat} : w.Spells condition → IsLineNumber line →
    Canonical w (.ifLine condition line)
  | ifElseLine {condition : Expr} {line elseLine : Nat} : w.Spells condition → IsLineNumber line →
    IsLineNumber elseLine → Canonical w (.ifElseLine condition line elseLine)
  | ifThen {condition : Expr} {block : Block} : w.Spells condition → Block.IsBranch block →
    Statement.anyElse block = false → (∀ s ∈ block, Canonical w s) →
    Canonical w (.ifThen condition block)
  | ifElse {condition : Expr} {block elseBlock : Block} : w.Spells condition →
    Block.IsBranch block → Statement.anyElse block = false → (∀ s ∈ block, Canonical w s) →
    Block.IsBranch elseBlock → (∀ s ∈ elseBlock, Canonical w s) →
    Canonical w (.ifElse condition block elseBlock)
  | input {prompt : Option String} {targets : List Target} : (∀ p ∈ prompt, '"' ∉ p.toList) →
    targets ≠ [] → (∀ t ∈ targets, t.Writable w) → Canonical w (.input prompt targets)
  | letTo {target : Target} {e : Expr} : target.Writable w → target.NoEquals w → w.Spells e →
    Canonical w (.letTo target e)
  | next {vars : List String} : (∀ v ∈ vars, isFree v = true) → Canonical w (.next vars)
  | onGosub {index : Expr} {lines : List Nat} : w.Spells index → lines ≠ [] →
    (∀ n ∈ lines, IsLineNumber n) → Canonical w (.onGosub index lines)
  | onGoto {index : Expr} {lines : List Nat} : w.Spells index → lines ≠ [] →
    (∀ n ∈ lines, IsLineNumber n) → Canonical w (.onGoto index lines)
  | print {items : List PrintItem} : PrintItem.Separate w items → Canonical w (.print items)
  | read {targets : List Target} : targets ≠ [] → (∀ t ∈ targets, t.Writable w) →
    Canonical w (.read targets)
  | remark {text : String} : trim text.toList = text.toList → Canonical w (.remark text)
  | restore : Canonical w .restore
  | returnFrom : Canonical w .returnFrom
  | stop : Canonical w .stop
  | assign {var : String} {e : Expr} : isFree var = true → w.Spells e →
    Canonical w (.assign var e)
  | assignElement {target : Element} {e : Expr} : target.Writable w → target.NoEquals w →
    w.Spells e → Canonical w (.assignElement target e)

/-- Canonical statements, of which only the last takes the rest of the line. -/
structure Block.Canonical (w : Speller) (b : Block) : Prop where
  last : ∀ s ∈ b.dropLast, s.takesRest = false
  statements : ∀ s ∈ b, s.Canonical w

end ClassicBasic
