import ClassicBasic.Proofs.Statement.Written

/-!
# Reading written blocks

The text of a canonical block that is not empty reads as that block (`parseBlock_render`). The line
is cut at colons before any statement is read, and a statement without branches has none outside
quotes, so the texts of the block's statements are the ones it was written from (`texts_render`). An
IF or a remark may hold colons. It comes last and owns the rest of the line.

Which form an IF has is decided by what is behind its THEN: a branch starts with a letter and not
with a digit, and without an ELSE in the branch the first ELSE behind it is that of the IF.
-/

namespace ClassicBasic

open Text (words decimal Composed Lacks Leads)

theorem Block.Canonical.tail {w : Speller} {s t : Statement} {b : Block}
    (h : Block.Canonical w (s :: t :: b)) : Block.Canonical w (t :: b) where
  last r hr := h.last r (by rw [List.dropLast_cons_cons]; exact List.mem_cons_of_mem s hr)
  statements r hr := h.statements r (List.mem_cons_of_mem s hr)

namespace Statement

variable {w : Speller}

/-! ## The texts of a written block -/

/-- A statement without branches is one piece of its line. -/
theorem Canonical.piecesFrom_append {s : Statement} (h : s.Canonical w)
    (hs : s.takesRest = false) (cs : List Char) :
    Text.piecesFrom .quotesAndBrackets ':' {} (s.render w ++ cs) =
      (Text.piecesFrom .quotesAndBrackets ':' {} cs).modifyHead (s.render w ++ ·) :=
  (h.free hs).pieces (fun _ hc => hc) 0 cs

theorem Canonical.pieceTexts_cons {s : Statement} (h : s.Canonical w) (hs : s.takesRest = false)
    (rest : List (List Char)) :
    pieceTexts (s.render w :: rest) = Text.trim (s.render w) :: pieceTexts rest := by
  simp [pieceTexts, h.leads.isEmpty_trim, h.not_ownsLine hs]

/-- The first piece of a line starts with the first word of the line. -/
theorem leads_piece {lead text : List Char} (h : Leads lead text) :
    ∃ piece rest, Text.piecesFrom .quotesAndBrackets ':' {} text = piece :: rest ∧
      Leads lead piece := by
  obtain ⟨tail, rfl, htail⟩ := h.rest
  have hplain : ∀ c ∈ lead, Text.IsPlain c := by
    intro c hc
    have hword := h.isWordChar c hc
    refine .of_isInert (Text.isInert_of_isWordChar hword) ?_
    rintro rfl
    cases hword
  obtain ⟨piece, rest, hpieces⟩ := List.exists_cons_of_ne_nil
    (Text.piecesFrom_ne_nil .quotesAndBrackets ':' {} tail)
  refine ⟨lead ++ piece, rest, ?_, h.ne_nil, h.isWordChar, piece, rfl, fun c hc => ?_⟩
  · exact (Text.piecesFrom_plain hplain 0 tail).trans (by rw [hpieces]; rfl)
  · refine htail c ?_
    have hjoined := Text.intercalate_piecesFrom .quotesAndBrackets ':' {} tail
    have hne : piece ≠ [] := by
      rintro rfl
      cases hc
    rw [hpieces] at hjoined
    rwa [← hjoined, Text.head?_intercalate hne]

/-- A line that starts with an IF or a remark is one text. -/
theorem texts_eq_singleton {lead : String} {text : List Char} (h : Leads lead.toList text)
    (hlead : lead = "REM" ∨ lead = "IF") : texts text = [text] := by
  obtain ⟨piece, rest, hpieces, hpiece⟩ := leads_piece h
  have hjoined := Text.intercalate_piecesFrom .quotesAndBrackets ':' {} text
  rw [hpieces] at hjoined
  rw [texts_eq, hpieces]
  simp [pieceTexts, hpiece.isEmpty_trim, ownsLine_of_leads hpiece.trim hlead, hjoined]

/-- Up to blanks around them, the texts of a written block are those of its statements. -/
theorem texts_render {b : Block} (h : b.Canonical w) :
    (texts (b.render w)).map Text.trim = b.map fun s => Text.trim (s.render w) := by
  rw [Block.render]
  induction b with
  | nil => rfl
  | cons s b ih =>
    have hs := h.statements s List.mem_cons_self
    cases b with
    | nil =>
      rw [List.map_singleton, List.intercalate_singleton, List.map_singleton]
      cases htakes : s.takesRest with
      | true => rw [texts_eq_singleton hs.leads (lead_of_takesRest htakes), List.map_singleton]
      | false =>
        have hpieces := hs.piecesFrom_append htakes []
        rw [List.append_nil] at hpieces
        rw [texts_eq, hpieces]
        simp [Text.piecesFrom, hs.pieceTexts_cons htakes, pieceTexts, Text.trim_trim]
    | cons t b =>
      have htakes : s.takesRest = false := h.last s (by simp)
      have hcolon (cs : List Char) : Text.piecesFrom .quotesAndBrackets ':' {} (':' :: cs) =
          [] :: Text.piecesFrom .quotesAndBrackets ':' {} cs := rfl
      rw [List.map_cons, List.map_cons, List.intercalate_cons_cons, ← List.map_cons, texts_eq,
        List.append_assoc, hs.piecesFrom_append htakes, List.singleton_append, hcolon,
        List.modifyHead_cons, List.append_nil, hs.pieceTexts_cons htakes, ← texts_eq,
        List.map_cons, Text.trim_trim, ih h.tail]
      rfl

/-- A block is read from its texts, one by one. -/
theorem parseBlock_eq_ok {text : List Char} {b : Block} (hne : b ≠ [])
    (h : ((texts text).map Text.trim).mapM (parseWith parseBlock) = .ok b) :
    parseBlock text = .ok b := by
  rw [parseBlock]
  cases hlength : text.length with
  | zero =>
    rw [List.length_eq_zero_iff.mp hlength] at h
    cases h
    exact absurd rfl hne
  | succ depth =>
    have hdepth : ∀ c ∈ (texts text).map Text.trim,
        parseWith (parseBlockWithin depth) c = parseWith parseBlock c := by
      intro c hc
      obtain ⟨u, hu, rfl⟩ := List.mem_map.mp hc
      refine parseWith_congr fun t ht => parseBlockWithin_eq ?_
      have hbranch := length_lt_of_mem_branchTexts ht
      have htrim := Text.length_trim_le u
      have htext := length_le_of_mem_texts hu
      omega
    rw [parseBlockWithin_succ_trim, mapM_congr hdepth, h]
    exact bind_eq_ok.mpr ⟨b, rfl, if_neg (by simpa using hne)⟩

theorem parseBlock_render_of_each {b : Block} (h : b.Canonical w) (hne : b ≠ [])
    (heach : ∀ s ∈ b, parseWith parseBlock (s.render w) = .ok s) :
    parseBlock (b.render w) = .ok b := by
  refine parseBlock_eq_ok hne ?_
  rw [texts_render h, mapM_eq_ok, List.forall₂_map_left_iff, List.forall₂_same]
  intro s hs
  rw [parseWith_trim, heach s hs]

/-! ## Branches -/

theorem Canonical.head?_render {s : Statement} (h : s.Canonical w) :
    ∃ c ∈ (s.render w).head?, c.isAlpha = true := by
  have hlead : ∃ c ∈ s.lead.toList.head?, c.isAlpha = true := by
    cases h with
    | assign hvar _ => exact Text.head?_of_isName (Text.isName_of_isFree hvar)
    | assignElement htarget _ _ => exact Text.head?_of_isName (Text.isName_of_isFree htarget.name)
    | _ => simp [lead, keyword]
  obtain ⟨rest, hrest, -⟩ := h.leads.rest
  obtain ⟨c, hc, halpha⟩ := hlead
  refine ⟨c, ?_, halpha⟩
  rw [hrest, List.head?_append, hc]
  rfl

theorem hasElse_of_mem {b : Block} {s : Statement} (h : anyElse b = false) (hs : s ∈ b) :
    s.hasElse = false := by
  induction b with
  | nil => cases hs
  | cons t b ih =>
    rw [anyElse, Bool.or_eq_false_iff] at h
    rcases List.mem_cons.mp hs with rfl | hs
    · exact h.1
    · exact ih h.2 hs

/-- The texts without ELSE as a word. -/
abbrev ElseFree : List Char → Prop := Composed (· ≠ "ELSE".toList) fun _ => True

theorem elseFree_of_free {u : List Char} (h : Free "ELSE" u) : ElseFree u :=
  h.mono (fun _ hu => hu) fun _ _ => trivial

theorem elseFree_if {condition : Expr} {u : List Char} (hcondition : w.Spells condition)
    (hu : ElseFree u) : ElseFree (words ["IF".toList, w.expr condition, "THEN".toList, u]) := by
  have hinner : "ELSE" ∈ Text.inner := by simp [Text.inner]
  refine .intercalate rfl trivial (List.forall_iff_forall_mem.mp ⟨?_, ?_, ?_, hu⟩)
  · exact .word (List.all_eq_true.mp rfl) (by simp)
  · exact elseFree_of_free (free_expr hinner hcondition)
  · exact .word (List.all_eq_true.mp rfl) (by simp)

theorem elseFree_block {b : Block} (h : ∀ s ∈ b, ElseFree (s.render w)) : ElseFree (b.render w) :=
  .intercalate rfl trivial (List.forall_mem_map.mpr h)

/-- No ELSE is found in a statement that has none in its branches. It may have colons. -/
theorem Canonical.elseFree {s : Statement} (h : s.Canonical w) (helse : s.hasElse = false)
    (hremark : s.keyword ≠ "REM") : ElseFree (s.render w) := by
  have hplain (hs : s.takesRest = false) : ElseFree (s.render w) := elseFree_of_free (h.free hs)
  induction h with
  | ifLine hcondition _ => exact elseFree_if hcondition (elseFree_of_free (free_decimal _))
  | @ifThen _ block hcondition hbranch hnone hblock ih =>
    rw [render_ifThen]
    refine elseFree_if hcondition (elseFree_block fun s hs => ?_)
    exact ih s hs (hasElse_of_mem hnone hs) (hbranch.no_remark s hs) fun htakes =>
      elseFree_of_free ((hblock s hs).free htakes)
  | ifElseLine | ifElse => cases helse
  | remark => exact absurd rfl hremark
  | _ => exact hplain rfl

/-- What is needed of the text of a branch: it starts with a letter, and reads as the branch. -/
structure IsBranchText (b : Block) (text : List Char) : Prop where
  head? : ∃ c ∈ text.head?, c.isAlpha = true
  parse : parseBlock text = .ok b

theorem IsBranchText.not_allBlank {b : Block} {text : List Char} (h : IsBranchText b text) :
    ¬ Text.allBlank text = true := by
  obtain ⟨c, hc, halpha⟩ := h.head?
  intro hblank
  have hc' := List.all_eq_true.mp hblank c (List.mem_of_mem_head? hc)
  rw [Text.not_isBlank_of_isWordChar (Text.isWordChar_of_isAlpha halpha)] at hc'
  cases hc'

theorem IsBranchText.parse_captured {b : Block} {text : List Char} (h : IsBranchText b text) :
    parseBlock (String.ofList (Text.trim text)).toList = .ok b := by
  rw [String.toList_ofList, parseBlock_trim, h.parse]

/-! ## IF statements -/

section
variable {block : List Char → Except ParseError Block} {condition : Expr}

theorem leads_if (ws : List (List Char)) : Leads "IF".toList (words ("IF".toList :: ws)) :=
  .words (by simp) (List.all_eq_true.mp rfl) ws

theorem candidates_word_if : Pattern.candidates Form.pattern Form.all "IF".toList =
    [.ifElseLine, .ifElse, .ifLine, .ifThen, .ifGoto, .assign] := rfl

/-- The condition ends at the THEN. -/
theorem filled_if {parts : List Part} {ws : List (List Char)} {captures : List Capture}
    (hcondition : w.Spells condition) (h : Pattern.Filled parts ws captures) :
    Pattern.Filled (.literal "IF" :: Form.text "cond" :: .literal "THEN" :: parts)
      ("IF".toList :: w.expr condition :: "THEN".toList :: ws)
      (.text (String.ofList (Text.trim (w.expr condition))) :: captures) :=
  .literal rfl (.slot (not_allBlank_expr hcondition) rfl
    (hcondition.lacks (by simp [Text.inner])) rfl h)

theorem unfilled_if {parts : List Part} {ws : List (List Char)} (hcondition : w.Spells condition)
    (h : Pattern.Unfilled parts ws) :
    Pattern.Unfilled (.literal "IF" :: Form.text "cond" :: .literal "THEN" :: parts)
      ("IF".toList :: w.expr condition :: "THEN".toList :: ws) :=
  .literal rfl
    (.slot (not_allBlank_expr hcondition) (hcondition.lacks (by simp [Text.inner])) rfl h)

theorem ElseFree.lacks {u : List Char} (h : ElseFree u) : Lacks "ELSE".toList u := by
  obtain ⟨-, hword, hnumeric, -, -⟩ := Text.inner_spec (by simp [Text.inner] : "ELSE" ∈ Text.inner)
  exact Composed.lacks hword hnumeric (fun _ h => h) h

/-- Neither form with an ELSE is filled by a text without one. -/
theorem unfilled_else {s : Slot} {parts : List Part} {u : List Char} (h : ElseFree u) :
    Pattern.Unfilled (.slot s :: .literal "ELSE" :: parts) [u] :=
  .endless rfl (ElseFree.lacks (.spaced trivial h))

theorem parseWith_ifElseLine {line elseLine : Nat} (hcondition : w.Spells condition)
    (hline : IsLineNumber line) (helseLine : IsLineNumber elseLine) :
    parseWith block ((Statement.ifElseLine condition line elseLine).render w) =
      .ok (.ifElseLine condition line elseLine) := by
  have hlacks : Lacks "ELSE".toList (decimal line) :=
    ElseFree.lacks (elseFree_of_free (free_decimal line))
  have hfilled : Pattern.Filled Form.ifElseLine.parts
      ["IF".toList, w.expr condition, "THEN".toList, decimal line, "ELSE".toList, decimal elseLine]
      [.text (String.ofList (Text.trim (w.expr condition))), .int line, .int elseLine] :=
    filled_if hcondition (.slot (Text.IsItem.decimal line).not_allBlank
      (Slot.convert_int "line" hline) hlacks rfl
      (.last (Text.IsItem.decimal elseLine).not_allBlank (Slot.convert_int "elseline" helseLine)))
  rw [render_ifElseLine,
    parseWith_of_filled block [] (leads_if _) candidates_word_if (by simp) hfilled (by simp)]
  exact bind_eq_ok.mpr ⟨_, readExpr_captured hcondition, bind_eq_ok.mpr
    ⟨_, Clause.readLine_eq hline, bind_eq_ok.mpr ⟨_, Clause.readLine_eq helseLine, rfl⟩⟩⟩

theorem parseWith_ifLine {line : Nat} (hcondition : w.Spells condition)
    (hline : IsLineNumber line) :
    parseWith block ((Statement.ifLine condition line).render w) =
      .ok (.ifLine condition line) := by
  have helse {s : Slot} {parts : List Part} :
      Pattern.Unfilled (.slot s :: .literal "ELSE" :: parts) [decimal line] :=
    unfilled_else (elseFree_of_free (free_decimal line))
  have hbefore : ∀ f ∈ [Form.ifElseLine, .ifElse], Pattern.Unfilled f.parts
      ["IF".toList, w.expr condition, "THEN".toList, decimal line] :=
    List.forall_iff_forall_mem.mp ⟨unfilled_if hcondition helse, unfilled_if hcondition helse⟩
  have hfilled : Pattern.Filled Form.ifLine.parts
      ["IF".toList, w.expr condition, "THEN".toList, decimal line]
      [.text (String.ofList (Text.trim (w.expr condition))), .int line] :=
    filled_if hcondition
      (.last (Text.IsItem.decimal line).not_allBlank (Slot.convert_int "line" hline))
  rw [render_ifLine,
    parseWith_of_filled block _ (leads_if _) candidates_word_if hbefore hfilled (by simp)]
  exact bind_eq_ok.mpr ⟨_, readExpr_captured hcondition, bind_eq_ok.mpr
    ⟨_, Clause.readLine_eq hline, rfl⟩⟩

theorem parseWith_ifThen {b : Block} {u : List Char} (hcondition : w.Spells condition)
    (hb : IsBranchText b u) (helse : ElseFree u) :
    parseWith parseBlock (words ["IF".toList, w.expr condition, "THEN".toList, u]) =
      .ok (.ifThen condition b) := by
  have hbefore : ∀ f ∈ [Form.ifElseLine, .ifElse, .ifLine], Pattern.Unfilled f.parts
      ["IF".toList, w.expr condition, "THEN".toList, u] :=
    List.forall_iff_forall_mem.mp ⟨unfilled_if hcondition (unfilled_else helse),
      unfilled_if hcondition (unfilled_else helse), unfilled_if hcondition (.letter hb.head?)⟩
  have hfilled : Pattern.Filled Form.ifThen.parts
      ["IF".toList, w.expr condition, "THEN".toList, u]
      [.text (String.ofList (Text.trim (w.expr condition))), .text (String.ofList (Text.trim u))] :=
    filled_if hcondition (.last hb.not_allBlank rfl)
  rw [parseWith_of_filled parseBlock _ (leads_if _) candidates_word_if hbefore hfilled (by simp)]
  exact bind_eq_ok.mpr ⟨_, readExpr_captured hcondition,
    bind_eq_ok.mpr ⟨_, hb.parse_captured, rfl⟩⟩

theorem parseWith_ifElse {b b' : Block} {u v : List Char} (hcondition : w.Spells condition)
    (hb : IsBranchText b u) (helse : ElseFree u) (hb' : IsBranchText b' v) :
    parseWith parseBlock
        (words ["IF".toList, w.expr condition, "THEN".toList, u, "ELSE".toList, v]) =
      .ok (.ifElse condition b b') := by
  have hbefore : ∀ f ∈ [Form.ifElseLine], Pattern.Unfilled f.parts
      ["IF".toList, w.expr condition, "THEN".toList, u, "ELSE".toList, v] :=
    List.forall_iff_forall_mem.mp (unfilled_if hcondition (.letter hb.head?))
  have hfilled : Pattern.Filled Form.ifElse.parts
      ["IF".toList, w.expr condition, "THEN".toList, u, "ELSE".toList, v]
      [.text (String.ofList (Text.trim (w.expr condition))), .text (String.ofList (Text.trim u)),
        .text (String.ofList (Text.trim v))] :=
    filled_if hcondition (.slot hb.not_allBlank rfl helse.lacks rfl (.last hb'.not_allBlank rfl))
  rw [parseWith_of_filled parseBlock _ (leads_if _) candidates_word_if hbefore hfilled (by simp)]
  exact bind_eq_ok.mpr ⟨_, readExpr_captured hcondition, bind_eq_ok.mpr
    ⟨_, hb.parse_captured, bind_eq_ok.mpr ⟨_, hb'.parse_captured, rfl⟩⟩⟩

end

/-! ## Every block -/

theorem head?_block {b : Block} (hne : b ≠ []) (h : ∀ s ∈ b, s.Canonical w) :
    ∃ c ∈ (b.render w).head?, c.isAlpha = true := by
  obtain ⟨s, b, rfl⟩ := List.exists_cons_of_ne_nil hne
  obtain ⟨c, hc, halpha⟩ := (h s List.mem_cons_self).head?_render
  have hne : s.render w ≠ [] := by
    intro hnil
    rw [hnil] at hc
    cases hc
  refine ⟨c, ?_, halpha⟩
  rwa [Block.render, List.map_cons, Text.head?_intercalate hne]

/-- A canonical statement reads as itself. -/
theorem Canonical.parseWith_render {s : Statement} (h : s.Canonical w) :
    parseWith parseBlock (s.render w) = .ok s := by
  have hbranchText {b : Block} (hbranch : b.IsBranch) (hb : ∀ s ∈ b, s.Canonical w)
      (ih : ∀ s ∈ b, parseWith parseBlock (s.render w) = .ok s) :
      IsBranchText b (b.render w) :=
    ⟨head?_block hbranch.ne_nil hb,
      parseBlock_render_of_each ⟨hbranch.last, hb⟩ hbranch.ne_nil ih⟩
  have helseFree {b : Block} (hbranch : b.IsBranch) (hnone : anyElse b = false)
      (hb : ∀ s ∈ b, s.Canonical w) : ElseFree (b.render w) :=
    elseFree_block fun s hs =>
      (hb s hs).elseFree (hasElse_of_mem hnone hs) (hbranch.no_remark s hs)
  induction h with
  | data hne hvalues => exact parseWith_data hne hvalues
  | define hname hparams hbody => exact parseWith_define hname hparams hbody
  | dim hne harrays => exact parseWith_dim hne harrays
  | forLoop hvar hfirst hlimit hstep => exact parseWith_forLoop hvar hfirst hlimit hstep
  | gosub hline => exact parseWith_gosub hline
  | goto hline => exact parseWith_goto hline
  | ifLine hcondition hline => exact parseWith_ifLine hcondition hline
  | ifElseLine hcondition hline helseLine => exact parseWith_ifElseLine hcondition hline helseLine
  | ifThen hcondition hbranch hnone hblock ih =>
    rw [render_ifThen]
    exact parseWith_ifThen hcondition (hbranchText hbranch hblock ih)
      (helseFree hbranch hnone hblock)
  | ifElse hcondition hbranch hnone hblock hbranch' hblock' ih ih' =>
    rw [render_ifElse]
    exact parseWith_ifElse hcondition (hbranchText hbranch hblock ih)
      (helseFree hbranch hnone hblock) (hbranchText hbranch' hblock' ih')
  | input hprompt hne htargets => exact parseWith_input hprompt hne htargets
  | letTo htarget hequals he => exact parseWith_letTo htarget hequals he
  | next hvars => exact parseWith_next hvars
  | onGosub hindex hne hlines => exact parseWith_onGosub hindex hne hlines
  | onGoto hindex hne hlines => exact parseWith_onGoto hindex hne hlines
  | print hitems => exact parseWith_print hitems
  | read hne htargets => exact parseWith_read hne htargets
  | remark htext => exact parseWith_remark htext
  | assign hvar he => exact parseWith_assign hvar he
  | assignElement htarget hequals he => exact parseWith_assignElement htarget hequals he
  | finish | restore | returnFrom | stop => rfl

/-- **Parsing undoes printing.** A canonical block that is not empty reads as itself. -/
theorem parseBlock_render {b : Block} (h : b.Canonical w) (hne : b ≠ []) :
    parseBlock (b.render w) = .ok b :=
  parseBlock_render_of_each h hne fun s hs => (h.statements s hs).parseWith_render

/-- Expressions are written as they were read. -/
def rawSpeller : Speller where
  expr e := e.raw.toList
  number _ := "2.5".toList

/-- A block with keywords and colons in quotes, and with an IF in both branches of another. -/
def nestedBranches : Block :=
  [.data [.text "ELSE:", .number (Numeral.nearest false ⟨25, -1⟩)],
   .assignElement ⟨"A", [⟨"I", .single (.var "I")⟩]⟩ ⟨"\"=\"", .single (.text "=")⟩,
   .ifElse ⟨"X", .single (.var "X")⟩
    [.print [.expr ⟨"\"ELSE\"", .single (.text "ELSE")⟩, .semicolon,
        .expr ⟨"Y", .single (.var "Y")⟩],
     .ifLine ⟨"Z", .single (.var "Z")⟩ 10]
    [.ifElse ⟨"Y", .single (.var "Y")⟩ [.goto 20] [.next []]]]

theorem parseBlock_render_nestedBranches :
    nestedBranches.Canonical rawSpeller ∧
      parseBlock ("DATA \"ELSE:\",2.5:A(I) = \"=\":IF X THEN PRINT \"ELSE\";Y:" ++
        "IF Z THEN 10 ELSE IF Y THEN GOTO 20 ELSE NEXT").toList = .ok nestedBranches := by
  have hvar (name : String) (hparse : Expr.parse name.toList = .ok ⟨name, .single (.var name)⟩)
      (hfree : Text.isFree name = true) : rawSpeller.Spells ⟨name, .single (.var name)⟩ :=
    ⟨hparse, by simpa [Tree.single, Tree.names, Tree.namesEach] using hfree⟩
  have hequals : rawSpeller.Spells ⟨"\"=\"", .single (.text "=")⟩ := ⟨rfl, by rintro _ ⟨⟩⟩
  have helse : rawSpeller.Spells ⟨"\"ELSE\"", .single (.text "ELSE")⟩ := ⟨rfl, by rintro _ ⟨⟩⟩
  have hdata : (Statement.data [.text "ELSE:", .number (Numeral.nearest false ⟨25, -1⟩)]).Canonical
      rawSpeller := .data (by simp) (by simp [Value.Writable]; rfl)
  have hprint : PrintItem.Separate rawSpeller
      [.expr ⟨"\"ELSE\"", .single (.text "ELSE")⟩, .semicolon, .expr ⟨"Y", .single (.var "Y")⟩] :=
    ⟨by simpa using ⟨helse, hvar "Y" rfl rfl⟩, by simpa using ⟨rfl, rfl⟩,
      by simp [PrintItem.isExpr]⟩
  have hlines : IsLineNumber 10 ∧ IsLineNumber 20 := by simp [IsLineNumber, UInt32.size]
  have hassign : (Statement.assignElement ⟨"A", [⟨"I", .single (.var "I")⟩]⟩
      ⟨"\"=\"", .single (.text "=")⟩).Canonical rawSpeller :=
    .assignElement ⟨rfl, by simp, List.forall_mem_singleton.mpr (hvar "I" rfl rfl)⟩
      (List.forall_mem_singleton.mpr rfl) hequals
  have hinner : (Statement.ifElse ⟨"Y", .single (.var "Y")⟩ [.goto 20] [.next []]).Canonical
      rawSpeller :=
    .ifElse (hvar "Y" rfl rfl) ⟨by simp, by simp, by simp [keyword]⟩ rfl
      (List.forall_mem_singleton.mpr (.goto hlines.2)) ⟨by simp, by simp, by simp [keyword]⟩
      (List.forall_mem_singleton.mpr (.next (by simp)))
  have hcanonical : nestedBranches.Canonical rawSpeller :=
    ⟨by simp [nestedBranches, takesRest, keyword], List.forall_iff_forall_mem.mp
      ⟨hdata, hassign, .ifElse (hvar "X" rfl rfl)
        ⟨by simp, by simp [takesRest, keyword], by simp [keyword]⟩ rfl
        (List.forall_iff_forall_mem.mp ⟨.print hprint, .ifLine (hvar "Z" rfl rfl) hlines.1⟩)
        ⟨by simp, by simp, by simp [keyword]⟩ (List.forall_mem_singleton.mpr hinner)⟩⟩
  have htext : nestedBranches.render rawSpeller =
      ("DATA \"ELSE:\",2.5:A(I) = \"=\":IF X THEN PRINT \"ELSE\";Y:" ++
        "IF Z THEN 10 ELSE IF Y THEN GOTO 20 ELSE NEXT").toList := rfl
  exact ⟨hcanonical, htext ▸ parseBlock_render hcanonical (by simp [nestedBranches])⟩

/-- The empty block is written as nothing, and no block is read from nothing. -/
theorem not_parseBlock_render_nil :
    ¬ ∀ (w : Speller) (b : Block), b.Canonical w → parseBlock (b.render w) = .ok b := by
  intro h
  have hnil : Block.Canonical ⟨fun _ => [], fun _ => []⟩ [] := ⟨by simp, by simp⟩
  have hparse : parseBlock [] = .error .empty := rfl
  exact nomatch hparse.symm.trans (h _ [] hnil)

end Statement

end ClassicBasic
