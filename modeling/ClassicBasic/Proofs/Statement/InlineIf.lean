import ClassicBasic.Proofs.Program
import ClassicBasic.Proofs.Text.Nesting

/-!
# Inline IFs and the rest of their lines

An IF whose branches stand on its own line takes the rest of the line, so it should be the last
statement of its block. Two tests decide this: `Statement.ownsLine` looks for IF as a word before
the line is cut, the patterns of the forms look for IF as a prefix afterwards. They disagree on a
text such as `IFX THEN STOP`, where a word character touches the IF: it is an IF, but the line is
cut behind it.

`inlineIf_last_iff` says that there is no other cause: in a program that can be read, inline IFs
are the last statements of their blocks exactly if no statement text with another one behind it is
an inline IF that touches a word character (`Statement.touchesWord`). Both sides speak of the blocks
of all lines and branches; `Program.HasBlock` and `Program.HasText` are these blocks and texts.
-/

namespace ClassicBasic

/-! ## Blocks and their texts -/

namespace Statement

/-- The blocks of the branches of an inline IF; other statements have none. -/
def branches : Statement → List Block
  | .ifThen _ block => [block]
  | .ifElse _ block elseBlock => [block, elseBlock]
  | _ => []

/-- An IF with statements, not line numbers, in its branches. -/
def isInlineIf : Statement → Bool
  | .ifThen .. => true
  | .ifElse .. => true
  | _ => false

theorem isInlineIf_eq_false {s : Statement} : s.isInlineIf = false ↔ s.branches = [] := by
  cases s <;> simp [isInlineIf, branches]

/-- The texts of the statements in the pieces of a line. -/
def pieceTexts : List (List Char) → List (List Char)
  | [] => []
  | piece :: rest =>
    if (Text.trim piece).isEmpty then pieceTexts rest
    else if ownsLine (Text.trim piece) then [[':'].intercalate (piece :: rest)]
    else Text.trim piece :: pieceTexts rest

/-- The texts of the statements of a line or branch. -/
def texts (line : List Char) : List (List Char) := pieceTexts (Text.splitOutsideBrackets ':' line)

/-- Whether an IF at the start of `text` touches a word character. -/
def touchesWord (text : List Char) : Bool :=
  match text with
  | 'I' :: 'F' :: c :: _ => Text.isWordChar c
  | _ => false

end Statement

/-- The texts of the branches among the captures of a form. -/
def Form.branchTexts : Form → List Capture → List (List Char)
  | .ifThen, [_, .text body] => [body.toList]
  | .ifElse, [_, .text body, .text elseBody] => [body.toList, elseBody.toList]
  | _, _ => []

/-- The texts of the branches of the statement that `text` spells, by its form. -/
def Statement.branchTexts (text : List Char) : List (List Char) :=
  match Pattern.firstMatch? Form.pattern Form.all (Text.trim text) with
  | some (form, captures) => form.branchTexts captures
  | none => []

namespace Program

/-- The blocks of a program: those of its lines and of all branches in them. -/
inductive HasBlock (p : Program) : Block → Prop
  | line {l : Line} : l ∈ p.lines → HasBlock p l.block
  | branch {b b' : Block} {s : Statement} : HasBlock p b → s ∈ b → b' ∈ s.branches → HasBlock p b'

/-- The texts of the lines of a program and of all branches in them. -/
inductive HasText (p : Program) : List Char → Prop
  | line {l : Line} : l ∈ p.lines → HasText p l.text.toList
  | branch {text text' c : List Char} : HasText p text → c ∈ Statement.texts text →
      text' ∈ Statement.branchTexts c → HasText p text'

end Program

/-! ## Reading blocks -/

theorem Form.build_branches {block : List Char → Except ParseError Block} {f : Form}
    {captures : List Capture} {s : Statement} (h : f.build block captures = .ok s) :
    List.Forall₂ (fun t b => block t = .ok b) (f.branchTexts captures) s.branches := by
  unfold Form.build at h
  split at h
  case h_12 condition body =>
    obtain ⟨_, -, h⟩ := bind_eq_ok.mp h
    obtain ⟨b, hb, h⟩ := bind_eq_ok.mp h
    cases h
    exact .cons hb .nil
  case h_13 condition body elseBody =>
    obtain ⟨_, -, h⟩ := bind_eq_ok.mp h
    obtain ⟨b, hb, h⟩ := bind_eq_ok.mp h
    obtain ⟨e, he, h⟩ := bind_eq_ok.mp h
    cases h
    exact .cons hb (.cons he .nil)
  -- No other form has branches, whatever its clauses are.
  all_goals
    repeat (first | obtain ⟨_, -, h⟩ := bind_eq_ok.mp h | split at h)
  all_goals cases h
  all_goals exact .nil

namespace Statement

/-- The branches of a statement are read from the texts of its branches. -/
theorem parseWith_branches {block : List Char → Except ParseError Block} {text : List Char}
    {s : Statement} (h : parseWith block text = .ok s) :
    List.Forall₂ (fun t b => block t = .ok b) (branchTexts text) s.branches := by
  unfold parseWith at h
  simp only at h
  split at h
  · cases h
  · cases hmatch : Pattern.firstMatch? Form.pattern Form.all (Text.trim text) with
    | none =>
      rw [hmatch] at h
      cases h
    | some found =>
      obtain ⟨form, captures⟩ := found
      have htexts : branchTexts text = form.branchTexts captures := by
        unfold branchTexts
        rw [hmatch]
      rw [hmatch] at h
      rw [htexts]
      exact Form.build_branches h

/-- The statements of a line are read from the texts of its statements. -/
theorem parsePieces_eq (one : List Char → Except ParseError Statement) (pieces : List (List Char)) :
    parsePieces one pieces = (pieceTexts pieces).mapM one := by
  induction pieces with
  | nil => rfl
  | cons piece rest ih =>
    simp only [parsePieces, pieceTexts]
    split
    · exact ih
    split
    · simp
    · simp [ih]

theorem parseBlockWithin_texts {depth : Nat} {text : List Char} {b : Block}
    (h : parseBlockWithin depth text = .ok b) :
    ∃ block : List Char → Except ParseError Block, (∃ d, block = parseBlockWithin d) ∧
      List.Forall₂ (fun c s => parseWith block c = .ok s) (texts text) b := by
  cases depth with
  | zero => cases h
  | succ depth =>
    simp only [parseBlockWithin, parsePieces_eq] at h
    obtain ⟨b', hb, h⟩ := bind_eq_ok.mp h
    split at h
    · cases h
    · cases h
      exact ⟨_, ⟨depth, rfl⟩, mapM_eq_ok.mp hb⟩

end Statement

/-! ## Where inline IFs stand -/

/-- A text that fits a pattern starts with the leading literal of the pattern. -/
theorem Pattern.firstMatch?_leading {α : Type} {pattern : α → Pattern} {items : List α}
    {text : List Char} {item : α} {captures : List Capture} {literal : String}
    (h : firstMatch? pattern items text = some (item, captures))
    (hlit : (pattern item).leading? = some literal) :
    ∃ rest, Text.trimStart text = literal.toList ++ rest := by
  obtain ⟨item', hmem, hmatch⟩ := List.exists_of_findSome?_eq_some h
  have hitem : item' = item := by
    split at hmatch
    · exact (Prod.mk.inj (Option.some.inj hmatch)).1
    · cases hmatch
  subst hitem
  simp only [candidates, List.mem_append, List.mem_filter, hlit, Option.any_some,
    Option.isNone_some, Bool.false_eq_true, and_false, or_false] at hmem
  obtain ⟨rest, hrest⟩ := Option.isSome_iff_exists.mp hmem.2
  exact ⟨rest, Text.dropLeading?_eq_some.mp hrest⟩

namespace Statement

/-- A text with branches starts with IF. -/
theorem starts_if {text : List Char} (h : branchTexts text ≠ []) :
    ∃ rest, Text.trim text = 'I' :: 'F' :: rest := by
  unfold branchTexts at h
  split at h
  · rename_i form captures hmatch
    have hlit : form.pattern.leading? = some "IF" := by
      unfold Form.branchTexts at h
      split at h
      · rfl
      · rfl
      · exact absurd rfl h
    obtain ⟨rest, hrest⟩ := Pattern.firstMatch?_leading hmatch hlit
    exact ⟨rest, by simpa using hrest⟩
  · exact absurd rfl h

/-- Only the last statement of a line owns it. -/
theorem ownsLine_of_mem_dropLast {pieces : List (List Char)} {c : List Char}
    (h : c ∈ (pieceTexts pieces).dropLast) : ownsLine c = false ∧ Text.trim c = c := by
  induction pieces with
  | nil => simp [pieceTexts] at h
  | cons piece rest ih =>
    simp only [pieceTexts] at h
    split at h
    · exact ih h
    split at h
    · simp at h
    · rename_i howns
      cases hrest : pieceTexts rest with
      | nil => simp [hrest] at h
      | cons d ds =>
        rw [hrest, List.dropLast_cons_cons, ← hrest, List.mem_cons] at h
        rcases h with rfl | h
        · exact ⟨by simpa using howns, Text.trim_trim piece⟩
        · exact ih h

/-- An inline IF with a statement behind it touches a word character. -/
theorem touchesWord_of_mem_dropLast {line c : List Char} (hc : c ∈ (texts line).dropLast)
    (h : branchTexts c ≠ []) : touchesWord c = true := by
  obtain ⟨howns, htrim⟩ := ownsLine_of_mem_dropLast hc
  obtain ⟨rest, hrest⟩ := starts_if h
  rw [htrim] at hrest
  subst hrest
  cases rest with
  | nil => simp [ownsLine, Text.dropLeading?] at howns
  | cons d rest => simpa [touchesWord, ownsLine, Text.dropLeading?] using howns

/-- Inline IFs stand last in a block, if in its text they do or touch no word. -/
theorem inlineIf_last_iff_texts {block : List Char → Except ParseError Block} {line : List Char}
    {b : Block} (h : List.Forall₂ (fun c s => parseWith block c = .ok s) (texts line) b) :
    (∀ s ∈ b.dropLast, s.isInlineIf = false) ↔
      ∀ c ∈ (texts line).dropLast, touchesWord c = true → branchTexts c = [] := by
  have hlast := forall₂_dropLast h
  have hiff : ∀ {c s}, parseWith block c = .ok s → (s.isInlineIf = false ↔ branchTexts c = []) := by
    intro c s hs
    rw [isInlineIf_eq_false, ← List.length_eq_zero_iff, ← List.length_eq_zero_iff,
      (parseWith_branches hs).length_eq]
  constructor
  · intro hb c hc _
    obtain ⟨s, hs, hparse⟩ := forall₂_left hlast hc
    exact (hiff hparse).mp (hb s hs)
  · intro ht s hs
    obtain ⟨c, hc, hparse⟩ := forall₂_right hlast hs
    refine (hiff hparse).mpr (Classical.byContradiction fun hne => hne ?_)
    exact ht c hc (touchesWord_of_mem_dropLast hc hne)

end Statement

/-! ## Whole programs -/

namespace Program

theorem line_parse_block {l : SourceLine} {line : Line} (h : Line.parse l = .ok line) :
    Statement.parseBlock line.text.toList = .ok line.block := by
  unfold Line.parse at h
  split at h
  · rename_i block hblock
    cases h
    exact hblock
  · cases h

/-- The lines of a program are read from their texts. -/
theorem parse_lines {source : List Char} {p : Program} (h : parse source = .ok p) {l : Line}
    (hl : l ∈ p.lines) : Statement.parseBlock l.text.toList = .ok l.block := by
  unfold parse ofLoaded at h
  split at h
  · obtain ⟨_, -, hline⟩ := forall₂_right (ofLines_eq_ok.mp h) hl
    exact line_parse_block hline
  · cases h

section
variable {p : Program}
  (hp : ∀ l ∈ p.lines, Statement.parseBlock l.text.toList = .ok l.block)
include hp

/-- Every block is read from a text of the program. -/
theorem HasBlock.text {b : Block} (h : p.HasBlock b) :
    ∃ text depth, p.HasText text ∧ Statement.parseBlockWithin depth text = .ok b := by
  induction h with
  | @line l hl => exact ⟨_, _, .line hl, hp l hl⟩
  | branch _ hs hb' ih =>
    obtain ⟨text, depth, htext, hparse⟩ := ih
    obtain ⟨_, ⟨d, rfl⟩, htexts⟩ := Statement.parseBlockWithin_texts hparse
    obtain ⟨c, hc, hcs⟩ := forall₂_right htexts hs
    obtain ⟨text', htext', hb'⟩ := forall₂_right (Statement.parseWith_branches hcs) hb'
    exact ⟨text', d, .branch htext hc htext', hb'⟩

/-- Every text of the program is read as a block. -/
theorem HasText.block {text : List Char} (h : p.HasText text) :
    ∃ b depth, p.HasBlock b ∧ Statement.parseBlockWithin depth text = .ok b := by
  induction h with
  | @line l hl => exact ⟨_, _, .line hl, hp l hl⟩
  | branch _ hc htext' ih =>
    obtain ⟨b, depth, hb, hparse⟩ := ih
    obtain ⟨_, ⟨d, rfl⟩, htexts⟩ := Statement.parseBlockWithin_texts hparse
    obtain ⟨s, hs, hcs⟩ := forall₂_left htexts hc
    obtain ⟨b', hb', hparse'⟩ := forall₂_left (Statement.parseWith_branches hcs) htext'
    exact ⟨b', d, .branch hb hs hb', hparse'⟩

end

/-- **Where an inline IF does not own its line.** In a program that can be read, every inline IF is
the last statement of its block exactly if none that has a statement behind it touches a word
character. -/
theorem inlineIf_last_iff {source : List Char} {p : Program} (h : parse source = .ok p) :
    (∀ b, p.HasBlock b → ∀ s ∈ b.dropLast, s.isInlineIf = false) ↔
      ∀ text, p.HasText text → ∀ c ∈ (Statement.texts text).dropLast,
        Statement.touchesWord c = true → Statement.branchTexts c = [] := by
  have hp : ∀ l ∈ p.lines, Statement.parseBlock l.text.toList = .ok l.block :=
    fun _ hl => parse_lines h hl
  constructor
  · intro hb text htext
    obtain ⟨b, _, hblock, hparse⟩ := htext.block hp
    obtain ⟨_, _, htexts⟩ := Statement.parseBlockWithin_texts hparse
    exact (Statement.inlineIf_last_iff_texts htexts).mp (hb b hblock)
  · intro ht b hb
    obtain ⟨text, _, htext, hparse⟩ := hb.text hp
    obtain ⟨_, _, htexts⟩ := Statement.parseBlockWithin_texts hparse
    exact (Statement.inlineIf_last_iff_texts htexts).mpr (ht text htext)

/-- The END behind this IF is a statement of the line and not of its branch. -/
theorem inlineIf_not_last :
    ∃ p, parse "10 IFX THEN STOP:END".toList = .ok p ∧
      ¬ ∀ b, p.HasBlock b → ∀ s ∈ b.dropLast, s.isInlineIf = false := by
  let line : Line :=
    { number := 10, sourceLine := 1, text := "IFX THEN STOP:END",
      block := [.ifThen ⟨"X", .single (.var "X")⟩ [.stop], .finish] }
  have hparse : parse "10 IFX THEN STOP:END".toList = .ok ⟨[line]⟩ := rfl
  refine ⟨_, hparse, fun hlast => ?_⟩
  have htexts : Statement.texts line.text.toList =
      ["IFX THEN STOP".toList, "END".toList] := by decide
  have hbranch := (inlineIf_last_iff hparse).mp hlast line.text.toList (.line (by simp))
    "IFX THEN STOP".toList (by rw [htexts]; simp) (by decide)
  exact absurd hbranch (by decide)

end Program

end ClassicBasic
