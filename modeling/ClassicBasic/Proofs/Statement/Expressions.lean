import ClassicBasic.Proofs.Contract
import ClassicBasic.Proofs.Statement.InlineIf

/-!
# The expressions of a program

Every expression that a statement holds was read by `Expr.parse`: the conditions, the values, the
bodies of functions, the subscripts of targets and the sizes of arrays. What holds of all that can
be read therefore holds of all that a program evaluates (`Program.HasBlock.isRead`).
-/

namespace ClassicBasic

/-! ## The expressions of a statement -/

def Target.exprs : Target → List Expr
  | .scalar _ => []
  | .element e => e.subscripts

def PrintItem.exprs : PrintItem → List Expr
  | .expr e => [e]
  | .comma => []
  | .semicolon => []

/-- The expressions of a statement itself, without those of the branches of an IF. -/
def Statement.exprs : Statement → List Expr
  | .data _ | .finish | .gosub _ | .goto _ | .next _ | .remark _ | .restore | .returnFrom
  | .stop => []
  | .define _ _ body => [body]
  | .dim arrays => arrays.flatMap Element.subscripts
  | .forLoop _ first limit step => [first, limit, step]
  | .ifLine condition _ | .ifElseLine condition _ _ | .ifThen condition _
  | .ifElse condition _ _ => [condition]
  | .input _ targets | .read targets => targets.flatMap Target.exprs
  | .letTo target e => e :: target.exprs
  | .onGosub index _ | .onGoto index _ => [index]
  | .print items => items.flatMap PrintItem.exprs
  | .assign _ e => [e]
  | .assignElement target e => e :: target.subscripts

/-- An expression that some text spells. -/
def Expr.IsRead (e : Expr) : Prop := ∃ cs, Expr.parse cs = .ok e

def Element.IsRead (a : Element) : Prop := ∀ e ∈ a.subscripts, e.IsRead

def Target.IsRead (t : Target) : Prop := ∀ e ∈ t.exprs, e.IsRead

def Statement.IsRead (st : Statement) : Prop := ∀ e ∈ st.exprs, e.IsRead

theorem Statement.isRead_targets {targets : List Target} (h : ∀ t ∈ targets, t.IsRead) :
    ∀ e ∈ targets.flatMap Target.exprs, e.IsRead := by
  intro e he
  obtain ⟨t, ht, he⟩ := List.mem_flatMap.mp he
  exact h t ht e he

/-! ## Reading them -/

namespace Clause

theorem readExpr_isRead (cs : List Char) : Yields Expr.IsRead (readExpr cs) := by
  unfold readExpr
  cases h : Expr.parse cs with
  | ok e => exact .ok ⟨cs, h⟩
  | error e => exact .error _

theorem readTarget_isRead (cs : List Char) : Yields Target.IsRead (readTarget cs) := by
  unfold readTarget
  simp only
  split
  · split
    · exact .error _
    · exact .bind (.mapM readExpr_isRead _) fun subscripts hsubscripts => .ok hsubscripts
  · split
    · exact .ok nofun
    · exact .error _

theorem readArray_isRead (cs : List Char) : Yields Element.IsRead (readArray cs) := by
  unfold readArray
  have htarget := readTarget_isRead cs
  split
  · rename_i e h
    exact .ok (htarget _ h)
  · exact .error _

theorem readPrintItems_isRead (cs : List Char) :
    Yields (fun items => ∀ item ∈ items, ∀ e ∈ item.exprs, e.IsRead) (readPrintItems cs) := by
  refine .mapM (fun piece => ?_) _
  cases piece with
  | expr text =>
    exact .bind (readExpr_isRead text) fun e he => .ok (by simpa [PrintItem.exprs] using he)
  | comma | semicolon => exact .ok nofun
  | unclosed => exact .error _

theorem readInputList_isRead (cs : List Char) :
    Yields (fun r => ∀ t ∈ r.2, t.IsRead) (readInputList cs) := by
  refine .skip fun (prompt, rest) => .bind (.mapM readTarget_isRead _) fun targets htargets => ?_
  split
  · exact .error _
  · exact .ok htargets

end Clause

/-- Whatever its form, the expressions of a statement are read from its slots. -/
theorem Form.build_isRead (block : List Char → Except ParseError Block) (f : Form)
    (captures : List Capture) : Yields Statement.IsRead (f.build block captures) := by
  have hone {st : Statement} {e : Expr} (hst : st.exprs = [e]) (he : e.IsRead) : st.IsRead := by
    simpa [Statement.IsRead, hst] using he
  unfold Form.build
  split
  -- DEF
  case h_2 =>
    exact .skip fun signature => .bind (Clause.readExpr_isRead _) fun body hbody =>
      .ok (hone rfl hbody)
  -- DIM
  case h_3 =>
    have hread (a : String) : Yields Element.IsRead (Clause.readArray a.toList) :=
      Clause.readArray_isRead _
    refine .bind (.mapM hread _) fun arrays harrays => .ok fun e he => ?_
    obtain ⟨a, ha, he⟩ := List.mem_flatMap.mp he
    exact harrays a ha e he
  -- FOR, with STEP and without
  case h_5 | h_6 =>
    refine .skip fun var => .bind (Clause.readExpr_isRead _) fun first hfirst => ?_
    refine .bind (Clause.readExpr_isRead _) fun limit hlimit => ?_
    refine .bind (Clause.readExpr_isRead _) fun step hstep => .ok ?_
    simp [Statement.IsRead, Statement.exprs, hfirst, hlimit, hstep]
  -- IF with one branch, and ON
  case h_9 | h_10 | h_12 | h_18 | h_19 =>
    exact .bind (Clause.readExpr_isRead _) fun condition hcondition => .skip fun _ =>
      .ok (hone rfl hcondition)
  -- IF with two branches
  case h_11 | h_13 =>
    exact .bind (Clause.readExpr_isRead _) fun condition hcondition => .skip fun _ =>
      .skip fun _ => .ok (hone rfl hcondition)
  -- INPUT
  case h_14 =>
    exact .bind (Clause.readInputList_isRead _) fun list hlist =>
      .ok (Statement.isRead_targets hlist)
  -- LET
  case h_15 =>
    refine .bind (Clause.readTarget_isRead _) fun target htarget => ?_
    exact .bind (Clause.readExpr_isRead _) fun e he =>
      .ok (List.forall_mem_cons.mpr ⟨he, htarget⟩)
  -- PRINT
  case h_20 =>
    refine .bind (Clause.readPrintItems_isRead _) fun items hitems => .ok fun e he => ?_
    obtain ⟨item, hitem, he⟩ := List.mem_flatMap.mp he
    exact hitems item hitem e he
  -- READ
  case h_22 =>
    have hread (t : String) : Yields Target.IsRead (Clause.readTarget t.toList) :=
      Clause.readTarget_isRead _
    exact .bind (.mapM hread _) fun targets htargets => .ok (Statement.isRead_targets htargets)
  -- Assignments
  case h_28 =>
    refine .bind (Clause.readExpr_isRead _) fun e he => ?_
    refine .bind (Clause.readTarget_isRead _) fun target htarget => ?_
    cases target with
    | scalar name => exact .ok (hone rfl he)
    | element a => exact .ok (List.forall_mem_cons.mpr ⟨he, htarget⟩)
  -- The slots of GOSUB, GOTO and NEXT hold lines and names.
  case h_7 | h_8 | h_16 => exact .skip fun _ => .ok nofun
  -- No slot captures what does not fit the form.
  case h_29 => exact .error _
  all_goals exact .ok nofun

/-! ## Whole programs -/

theorem Statement.parseWith_isRead (block : List Char → Except ParseError Block)
    (text : List Char) : Yields Statement.IsRead (parseWith block text) := by
  unfold parseWith
  simp only
  split
  · exact .error _
  · split
    · exact Form.build_isRead _ _ _
    · exact .error _

/-- All expressions of a program that can be read are read. -/
theorem Program.HasBlock.isRead {source : List Char} {p : Program} (hp : parse source = .ok p)
    {b : Block} (h : p.HasBlock b) {st : Statement} (hst : st ∈ b) : st.IsRead := by
  obtain ⟨text, depth, -, hparse⟩ := h.text fun _ hl => parse_lines hp hl
  obtain ⟨block, -, htexts⟩ := Statement.parseBlockWithin_texts hparse
  obtain ⟨c, -, hst⟩ := forall₂_right htexts hst
  exact Statement.parseWith_isRead block c st hst

end ClassicBasic
