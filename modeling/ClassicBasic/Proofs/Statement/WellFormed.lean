import ClassicBasic.Proofs.Contract
import ClassicBasic.Proofs.Expr.Proper
import ClassicBasic.Proofs.Statement.InlineIf

/-!
# Well-formed programs

A program that was read is well-formed down to the branches of its IFs and to the leaves of its
expressions (`Program.trees_wellFormed`). Names are names wherever one stands, arrays have
subscripts, lines and branches have statements, and the trees of expressions are well-formed.

The clauses of a statement are read as what they have to be, one lemma each. A form makes a
well-formed statement of them if its branches are read as well-formed blocks
(`Form.build_wellFormed`), and with this the induction is on how deep the branches nest
(`Statement.parseBlockWithin_wellFormed`).
-/

namespace ClassicBasic

/-! ## Statements -/

/-- An array with at least one subscript, or in DIM with at least one size. -/
structure Element.WellFormed (a : Element) : Prop where
  name : Text.isName a.name.toList = true
  ne_nil : a.subscripts ≠ []
  subscripts : ∀ e ∈ a.subscripts, e.tree.WellFormed

def Target.WellFormed : Target → Prop
  | .scalar name => Text.isName name.toList = true
  | .element a => a.WellFormed

def PrintItem.WellFormed : PrintItem → Prop
  | .expr e => e.tree.WellFormed
  | .comma | .semicolon => True

inductive Statement.WellFormed : Statement → Prop where
  | data {values : List Value} : WellFormed (.data values)
  | define {name : String} {params : List String} {body : Expr} :
      Text.isName name.toList = true → (∀ p ∈ params, Text.isName p.toList = true) →
      body.tree.WellFormed → WellFormed (.define name params body)
  | dim {arrays : List Element} : (∀ a ∈ arrays, a.WellFormed) → WellFormed (.dim arrays)
  | finish : WellFormed .finish
  | forLoop {var : String} {first limit step : Expr} : Text.isName var.toList = true →
      first.tree.WellFormed → limit.tree.WellFormed → step.tree.WellFormed →
      WellFormed (.forLoop var first limit step)
  | gosub {line : Nat} : WellFormed (.gosub line)
  | goto {line : Nat} : WellFormed (.goto line)
  | ifLine {condition : Expr} {line : Nat} : condition.tree.WellFormed →
      WellFormed (.ifLine condition line)
  | ifElseLine {condition : Expr} {line elseLine : Nat} : condition.tree.WellFormed →
      WellFormed (.ifElseLine condition line elseLine)
  | ifThen {condition : Expr} {block : Block} : condition.tree.WellFormed → block ≠ [] →
      (∀ s ∈ block, WellFormed s) → WellFormed (.ifThen condition block)
  | ifElse {condition : Expr} {block elseBlock : Block} : condition.tree.WellFormed →
      block ≠ [] → (∀ s ∈ block, WellFormed s) → elseBlock ≠ [] →
      (∀ s ∈ elseBlock, WellFormed s) → WellFormed (.ifElse condition block elseBlock)
  | input {prompt : Option String} {targets : List Target} : (∀ t ∈ targets, t.WellFormed) →
      WellFormed (.input prompt targets)
  | letTo {target : Target} {e : Expr} : target.WellFormed → e.tree.WellFormed →
      WellFormed (.letTo target e)
  | next {vars : List String} : (∀ v ∈ vars, Text.isName v.toList = true) →
      WellFormed (.next vars)
  | onGosub {index : Expr} {lines : List Nat} : index.tree.WellFormed →
      WellFormed (.onGosub index lines)
  | onGoto {index : Expr} {lines : List Nat} : index.tree.WellFormed →
      WellFormed (.onGoto index lines)
  | print {items : List PrintItem} : (∀ item ∈ items, item.WellFormed) →
      WellFormed (.print items)
  | read {targets : List Target} : (∀ t ∈ targets, t.WellFormed) → WellFormed (.read targets)
  | remark {text : String} : WellFormed (.remark text)
  | restore : WellFormed .restore
  | returnFrom : WellFormed .returnFrom
  | stop : WellFormed .stop
  | assign {var : String} {e : Expr} : Text.isName var.toList = true → e.tree.WellFormed →
      WellFormed (.assign var e)
  | assignElement {target : Element} {e : Expr} : target.WellFormed → e.tree.WellFormed →
      WellFormed (.assignElement target e)

/-- A line or a branch with at least one statement. -/
structure Block.WellFormed (b : Block) : Prop where
  ne_nil : b ≠ []
  statements : ∀ s ∈ b, s.WellFormed

def Program.WellFormed (p : Program) : Prop := ∀ l ∈ p.lines, l.block.WellFormed

/-! ## Clauses -/

namespace Clause

theorem readExpr_wellFormed (cs : List Char) : Yields (·.tree.WellFormed) (readExpr cs) := by
  unfold readExpr
  cases h : Expr.parse cs with
  | ok e => exact .ok (Expr.wellFormed_of_parse h)
  | error e => exact .error _

theorem readName_isName (cs : List Char) :
    Yields (fun name => Text.isName name.toList = true) (readName cs) := by
  unfold readName
  split
  · rename_i hname
    exact .ok (by rwa [String.toList_ofList])
  · exact .error _

/-- As many subscripts are read as there are texts between the parentheses. -/
theorem subscripts_wellFormed {args : List (List Char)} (hne : args ≠ []) :
    Yields (fun es => es ≠ [] ∧ ∀ e ∈ es, e.tree.WellFormed) (args.mapM readExpr) := by
  intro es h
  refine ⟨?_, Yields.mapM readExpr_wellFormed args es h⟩
  rintro rfl
  exact hne (List.forall₂_nil_right_iff.mp (mapM_eq_ok.mp h))

theorem readTarget_wellFormed (cs : List Char) : Yields Target.WellFormed (readTarget cs) := by
  unfold readTarget
  simp only
  split
  · rename_i name args _
    split
    · exact .error _
    · rename_i hclause
      simp only [Bool.or_eq_true, Bool.not_eq_true', not_or, Bool.not_eq_false] at hclause
      obtain ⟨hname, hargs⟩ := hclause
      have hne : args ≠ [] := by
        rintro rfl
        exact hargs rfl
      refine .bind (subscripts_wellFormed hne) fun subscripts hsubscripts => .ok ?_
      exact ⟨by rwa [String.toList_ofList], hsubscripts.1, hsubscripts.2⟩
  · split
    · rename_i hname
      refine .ok ?_
      rwa [Target.WellFormed, String.toList_ofList]
    · exact .error _

theorem readArray_wellFormed (cs : List Char) : Yields Element.WellFormed (readArray cs) := by
  have htarget := readTarget_wellFormed cs
  unfold readArray
  split
  · rename_i a h
    exact .ok (htarget _ h)
  · exact .error _

theorem readSignature_isName (cs : List Char) :
    Yields (fun r => Text.isName r.1.toList = true ∧ ∀ p ∈ r.2, Text.isName p.toList = true)
      (readSignature cs) := by
  unfold readSignature
  simp only
  split
  · refine .bind (readName_isName _) fun name hname => ?_
    exact .bind (.mapM readName_isName _) fun params hparams => .ok ⟨hname, hparams⟩
  · exact .bind (readName_isName _) fun name hname => .ok ⟨hname, by simp⟩

theorem readPrintItems_wellFormed (cs : List Char) :
    Yields (fun items => ∀ item ∈ items, item.WellFormed) (readPrintItems cs) := by
  refine .mapM (fun piece => ?_) _
  cases piece with
  | expr text => exact .bind (readExpr_wellFormed text) fun e he => .ok he
  | comma | semicolon => exact .ok trivial
  | unclosed => exact .error _

theorem readInputList_wellFormed (cs : List Char) :
    Yields (fun r => ∀ t ∈ r.2, t.WellFormed) (readInputList cs) := by
  refine .skip fun (prompt, rest) => ?_
  refine .bind (.mapM readTarget_wellFormed _) fun targets htargets => ?_
  split
  · exact .error _
  · exact .ok htargets

end Clause

/-! ## Blocks -/

theorem Form.build_wellFormed {block : List Char → Except ParseError Block}
    (hblock : ∀ text, Yields Block.WellFormed (block text)) (f : Form) (captures : List Capture) :
    Yields Statement.WellFormed (f.build block captures) := by
  unfold Form.build
  split
  -- DATA
  case h_1 => exact .ok .data
  -- DEF
  case h_2 =>
    refine .bind (Clause.readSignature_isName _) fun (name, params) hsignature => ?_
    exact .bind (Clause.readExpr_wellFormed _) fun body hbody =>
      .ok (.define hsignature.1 hsignature.2 hbody)
  -- DIM
  case h_3 =>
    have hread (a : String) : Yields Element.WellFormed (Clause.readArray a.toList) :=
      Clause.readArray_wellFormed _
    exact .bind (.mapM hread _) fun arrays harrays => .ok (.dim harrays)
  -- FOR, with STEP and without
  case h_5 | h_6 =>
    refine .bind (Clause.readName_isName _) fun var hvar => ?_
    refine .bind (Clause.readExpr_wellFormed _) fun first hfirst => ?_
    refine .bind (Clause.readExpr_wellFormed _) fun limit hlimit => ?_
    exact .bind (Clause.readExpr_wellFormed _) fun step hstep =>
      .ok (.forLoop hvar hfirst hlimit hstep)
  -- GOSUB and GOTO
  case h_7 => exact .skip fun _ => .ok .gosub
  case h_8 => exact .skip fun _ => .ok .goto
  -- IF with line numbers
  case h_9 | h_10 =>
    exact .bind (Clause.readExpr_wellFormed _) fun condition hcondition => .skip fun _ =>
      .ok (.ifLine hcondition)
  case h_11 =>
    exact .bind (Clause.readExpr_wellFormed _) fun condition hcondition => .skip fun _ =>
      .skip fun _ => .ok (.ifElseLine hcondition)
  -- IF with statements
  case h_12 =>
    refine .bind (Clause.readExpr_wellFormed _) fun condition hcondition => ?_
    exact .bind (hblock _) fun body hbody =>
      .ok (.ifThen hcondition hbody.ne_nil hbody.statements)
  case h_13 =>
    refine .bind (Clause.readExpr_wellFormed _) fun condition hcondition => ?_
    refine .bind (hblock _) fun body hbody => .bind (hblock _) fun elseBody helse => .ok ?_
    exact .ifElse hcondition hbody.ne_nil hbody.statements helse.ne_nil helse.statements
  -- INPUT
  case h_14 =>
    exact .bind (Clause.readInputList_wellFormed _) fun list hlist => .ok (.input hlist)
  -- LET
  case h_15 =>
    refine .bind (Clause.readTarget_wellFormed _) fun target htarget => ?_
    exact .bind (Clause.readExpr_wellFormed _) fun e he => .ok (.letTo htarget he)
  -- NEXT
  case h_16 =>
    have hread (v : String) : Yields (fun name => Text.isName name.toList = true)
        (Clause.readName v.toList) := Clause.readName_isName _
    exact .bind (.mapM hread _) fun vars hvars => .ok (.next hvars)
  case h_17 => exact .ok (.next (by simp))
  -- ON
  case h_18 =>
    exact .bind (Clause.readExpr_wellFormed _) fun index hindex => .skip fun _ =>
      .ok (.onGosub hindex)
  case h_19 =>
    exact .bind (Clause.readExpr_wellFormed _) fun index hindex => .skip fun _ =>
      .ok (.onGoto hindex)
  -- PRINT
  case h_20 =>
    exact .bind (Clause.readPrintItems_wellFormed _) fun items hitems => .ok (.print hitems)
  case h_21 => exact .ok (.print (by simp))
  -- READ
  case h_22 =>
    have hread (t : String) : Yields Target.WellFormed (Clause.readTarget t.toList) :=
      Clause.readTarget_wellFormed _
    exact .bind (.mapM hread _) fun targets htargets => .ok (.read htargets)
  -- Assignments
  case h_28 =>
    refine .bind (Clause.readExpr_wellFormed _) fun e he => ?_
    refine .bind (Clause.readTarget_wellFormed _) fun target htarget => ?_
    cases target with
    | scalar name => exact .ok (.assign htarget he)
    | element a => exact .ok (.assignElement htarget he)
  -- No slot captures what does not fit the form.
  case h_29 => exact .error _
  -- The others have no parts, or a text that may be any.
  all_goals exact .ok (by constructor)

namespace Statement

theorem parseWith_wellFormed {block : List Char → Except ParseError Block}
    (hblock : ∀ text, Yields Block.WellFormed (block text)) (text : List Char) :
    Yields Statement.WellFormed (parseWith block text) := by
  unfold parseWith
  simp only
  split
  · exact .error _
  · split
    · exact Form.build_wellFormed hblock _ _
    · exact .error _

theorem parseBlockWithin_wellFormed (depth : Nat) (text : List Char) :
    Yields Block.WellFormed (parseBlockWithin depth text) := by
  induction depth generalizing text with
  | zero => exact .error _
  | succ depth ih =>
    rw [parseBlockWithin, parsePieces_eq]
    refine .bind (.mapM (parseWith_wellFormed ih) _) fun b hb => ?_
    split
    · exact .error _
    · rename_i hne
      exact .ok ⟨by simpa using hne, hb⟩

end Statement

/-! ## Programs -/

/-- **What is read is well-formed.** In a program that can be read every line and every branch of an
IF has a statement; every name of a variable, an array, a function or a parameter is a name; every
array that is declared or stored into has a subscript; and in every expression each chain has an
operand, each chain of another operator than `+` has two, and no transform stands around a
constant. -/
theorem Program.trees_wellFormed {source : List Char} {p : Program} (h : parse source = .ok p) :
    p.WellFormed := by
  intro l hl
  exact Statement.parseBlockWithin_wellFormed _ _ _ (parse_lines h hl)

/-- An array, a function with a group and a sign in its body, and an IF in a branch of another. -/
def Program.branchInBranch : List Char :=
  "10 DIM A(N):DEF FNA(X)=(X-1)*-X\n20 IF N THEN IF A(N) THEN NEXT I".toList

theorem Program.trees_wellFormed_branchInBranch :
    ∃ p, parse branchInBranch = .ok p ∧ p.statementCount = 3 ∧ p.WellFormed := by
  have hcount : (parse branchInBranch).toOption.map statementCount = some 3 := by decide +kernel
  cases hparse : parse branchInBranch with
  | error r =>
    rw [hparse] at hcount
    cases hcount
  | ok p =>
    rw [hparse] at hcount
    exact ⟨p, rfl, Option.some.inj hcount, trees_wellFormed hparse⟩

end ClassicBasic
