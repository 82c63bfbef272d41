import ClassicBasic.Proofs.Number.Numeral
import ClassicBasic.Proofs.Pattern
import ClassicBasic.Proofs.Statement.InlineIf

/-!
# Blocks on their own and inside a statement

A block that stands in a branch of an IF is read with less depth left than on its own, and without
the blanks around it. Neither matters: any depth that is no less than the length of the text gives
the same block (`parseBlockWithin_eq`), because a branch is shorter than its IF, and so does the
text between its blanks (`parseBlock_trim`). A block starts with a letter or with a colon
(`starts_of_parseBlock`), so it is not taken for the number of a line.
-/

namespace ClassicBasic

/-! ## Reading with another depth -/

/-- A form reads nothing but the texts of its branches as blocks. -/
theorem Form.build_congr {block block' : List Char → Except ParseError Block} {f : Form}
    {captures : List Capture} (h : ∀ t ∈ f.branchTexts captures, block t = block' t) :
    f.build block captures = f.build block' captures := by
  unfold Form.build
  split
  case h_12 condition body => rw [h body.toList (by simp [Form.branchTexts])]
  case h_13 condition body elseBody =>
    rw [h body.toList (by simp [Form.branchTexts]), h elseBody.toList (by simp [Form.branchTexts])]
  all_goals rfl

namespace Statement

variable {block block' : List Char → Except ParseError Block} {text line c t : List Char}

theorem parseWith_congr (h : ∀ t ∈ branchTexts text, block t = block' t) :
    parseWith block text = parseWith block' text := by
  unfold parseWith
  unfold branchTexts at h
  simp only
  split
  · rfl
  · cases hmatch : Pattern.firstMatch? Form.pattern Form.all (Text.trim text) with
    | none => rfl
    | some found =>
      rw [hmatch] at h
      exact Form.build_congr h

/-- The IF itself takes room beside its branches. -/
theorem length_lt_of_mem_branchTexts (h : t ∈ branchTexts text) : t.length < text.length := by
  unfold branchTexts at h
  split at h
  case h_2 => cases h
  rename_i form captures hmatch
  have hfits := Pattern.fits?_of_firstMatch? hmatch
  rw [Text.trim_trim] at hfits
  have hcapture : ∃ parts s, form.pattern.parts = .literal "IF" :: parts ∧
      .text s ∈ captures ∧ t = s.toList := by
    unfold Form.branchTexts at h
    split at h
    · exact ⟨_, _, rfl, by simp, List.mem_singleton.mp h⟩
    · rcases List.mem_pair.mp h with rfl | rfl
      · exact ⟨_, _, rfl, by simp, rfl⟩
      · exact ⟨_, _, rfl, by simp, rfl⟩
    · cases h
  obtain ⟨parts, s, hparts, hs, rfl⟩ := hcapture
  rw [hparts] at hfits
  obtain ⟨rest, hrest, hfits⟩ := Pattern.fits?_literal hfits
  have hlength := congrArg List.length hrest
  rw [Text.trimStart_trim, List.length_append] at hlength
  calc s.toList.length ≤ rest.length := Pattern.fits?_length hfits hs
    _ < (Text.trim text).length := by simp [hlength]
    _ ≤ text.length := Text.length_trim_le text

theorem length_le_of_mem_pieceTexts {pieces : List (List Char)} (h : c ∈ pieceTexts pieces) :
    c.length ≤ ([':'].intercalate pieces).length := by
  induction pieces with
  | nil => cases h
  | cons piece rest ih =>
    have hpiece : piece.length ≤ ([':'].intercalate (piece :: rest)).length :=
      Text.length_le_intercalate (by simp)
    have hrest : ([':'].intercalate rest).length ≤ ([':'].intercalate (piece :: rest)).length := by
      cases rest with
      | nil => simp [List.intercalate]
      | cons q rest =>
        rw [List.intercalate_cons_cons, List.length_append]
        omega
    simp only [pieceTexts] at h
    split at h
    · exact (ih h).trans hrest
    split at h
    · rw [List.mem_singleton.mp h]
    · rcases List.mem_cons.mp h with rfl | h
      · exact (Text.length_trim_le piece).trans hpiece
      · exact (ih h).trans hrest

theorem length_le_of_mem_texts (h : c ∈ texts line) : c.length ≤ line.length := by
  have hlength := length_le_of_mem_pieceTexts h
  unfold Text.splitOutsideBrackets Text.splitOutside at hlength
  split at hlength
  · simpa [List.intercalate] using hlength.trans (Nat.zero_le _)
  · rwa [Text.intercalate_piecesFrom] at hlength

theorem parseBlockWithin_succ (depth : Nat) (text : List Char) :
    parseBlockWithin (depth + 1) text = (do
      let block ← (texts text).mapM (parseWith (parseBlockWithin depth))
      if block.isEmpty then .error .empty else .ok block) := by
  rw [parseBlockWithin, parsePieces_eq]
  rfl

/-- Depths that are no less than the length of the text do not differ. -/
theorem parseBlockWithin_congr {depth depth' : Nat} (h : text.length ≤ depth)
    (h' : text.length ≤ depth') : parseBlockWithin depth text = parseBlockWithin depth' text := by
  induction depth generalizing depth' text with
  | zero =>
    rw [List.length_eq_zero_iff.mp (Nat.le_zero.mp h)]
    cases depth' <;> rfl
  | succ depth ih =>
    cases depth' with
    | zero =>
      rw [List.length_eq_zero_iff.mp (Nat.le_zero.mp h')]
      rfl
    | succ depth' =>
      have heach : ∀ c ∈ texts text, parseWith (parseBlockWithin depth) c =
          parseWith (parseBlockWithin depth') c := by
        intro c hc
        refine parseWith_congr fun t ht => ?_
        have hc := length_le_of_mem_texts hc
        have ht := length_lt_of_mem_branchTexts ht
        exact ih (by omega) (by omega)
      rw [parseBlockWithin_succ, parseBlockWithin_succ, mapM_congr heach]

theorem parseBlockWithin_eq {depth : Nat} (h : text.length ≤ depth) :
    parseBlockWithin depth text = parseBlock text :=
  parseBlockWithin_congr h (Nat.le_refl _)

/-- The branches of a statement are read as blocks on their own. -/
theorem parse_eq (text : List Char) : parse text = parseWith parseBlock text :=
  parseWith_congr fun _ ht => parseBlockWithin_eq (length_lt_of_mem_branchTexts ht).le

/-! ## Blanks around a block -/

/-- Blanks around a statement do not count. -/
theorem parseWith_trim (block : List Char → Except ParseError Block) (text : List Char) :
    parseWith block (Text.trim text) = parseWith block text := by
  simp only [parseWith, Text.trim_trim]

section
variable {ws : List Char}

/-- Blanks at the start of the first piece only stand around the first statement. -/
theorem pieceTexts_blanks_append (hws : Text.allBlank ws = true) (piece : List Char)
    (rest : List (List Char)) :
    (pieceTexts ((ws ++ piece) :: rest)).map Text.trim =
      (pieceTexts (piece :: rest)).map Text.trim := by
  have hline :
      [':'].intercalate ((ws ++ piece) :: rest) = ws ++ [':'].intercalate (piece :: rest) := by
    cases rest <;> simp [List.intercalate]
  simp only [pieceTexts, Text.trim_append_left hws, hline]
  split
  · rfl
  split
  · simp only [List.map_cons, Text.trim_append_left hws]
  · rfl

/-- Blanks at the end of the last piece only stand around the last statement. -/
theorem pieceTexts_append_blanks (hws : Text.allBlank ws = true) (init : List (List Char))
    (last : List Char) :
    (pieceTexts (init ++ [last ++ ws])).map Text.trim =
      (pieceTexts (init ++ [last])).map Text.trim := by
  induction init with
  | nil =>
    simp only [List.nil_append, pieceTexts, Text.trim_append_right hws, List.intercalate_singleton]
    split
    · rfl
    split
    · simp only [List.map_cons, Text.trim_append_right hws]
    · rfl
  | cons piece init ih =>
    have hline := Text.intercalate_append_last [':'] last ws (piece :: init)
    rw [List.cons_append, List.cons_append] at hline
    simp only [List.cons_append, pieceTexts, hline]
    split
    · exact ih
    split
    · simp only [List.map_cons, Text.trim_append_right hws, List.map_nil]
    · rw [List.map_cons, ih, List.map_cons]

end

theorem texts_eq (line : List Char) :
    texts line = pieceTexts (Text.piecesFrom .quotesAndBrackets ':' {} line) := by
  cases line <;> rfl

/-- Up to blanks around them, the statements are those of the text between its blanks. -/
theorem map_trim_texts (line : List Char) :
    (texts line).map Text.trim = (texts (Text.trim line)).map Text.trim := by
  obtain ⟨pre, post, hline, hpre, -, hpost⟩ := Text.exists_trim line
  obtain ⟨init, last, hpieces, hpieces'⟩ :=
    Text.piecesFrom_append_blanks .quotesAndBrackets {} (pre ++ Text.trim line)
      (by decide : Text.isBlank ':' = false) hpost
  obtain ⟨piece, rest, hpiece⟩ := List.exists_cons_of_ne_nil
    (Text.piecesFrom_ne_nil .quotesAndBrackets ':' {} (Text.trim line))
  rw [texts_eq, texts_eq, hpiece, ← pieceTexts_blanks_append hpre]
  nth_rewrite 1 [hline]
  rw [hpieces', pieceTexts_append_blanks hpost, ← hpieces,
    Text.piecesFrom_blanks_append _ _ _ (by decide) hpre, hpiece]
  rfl

theorem parseBlockWithin_succ_trim (depth : Nat) (text : List Char) :
    parseBlockWithin (depth + 1) text = (do
      let block ← ((texts text).map Text.trim).mapM (parseWith (parseBlockWithin depth))
      if block.isEmpty then .error .empty else .ok block) := by
  have heach : parseWith (parseBlockWithin depth) ∘ Text.trim =
      parseWith (parseBlockWithin depth) := funext (parseWith_trim _)
  rw [parseBlockWithin_succ, List.mapM_map, heach]

/-- Blanks around a block do not count. -/
theorem parseBlock_trim (text : List Char) : parseBlock (Text.trim text) = parseBlock text := by
  rw [← parseBlockWithin_eq (Text.length_trim_le text), parseBlock]
  cases text.length with
  | zero => rfl
  | succ depth => rw [parseBlockWithin_succ_trim, parseBlockWithin_succ_trim, map_trim_texts text]

end Statement

/-! ## How a block starts -/

/-- A call is a name, perhaps with blanks around it, and a text in parentheses. -/
theorem Clause.splitCall?_shape {cs name : List Char} {args : List (List Char)}
    (h : splitCall? cs = some (name, args)) :
    ∃ before inner, cs = before ++ ('(' :: inner ++ [')']) ∧ name = Text.trim before ∧
      args = Text.splitOutsideBrackets ',' inner := by
  obtain ⟨⟨before, after⟩, hcut, h⟩ := Option.bind_eq_some_iff.mp h
  obtain ⟨rfl, -⟩ := Text.cutAt?_char.mp hcut
  obtain ⟨⟨body, rest⟩, hclosing, h⟩ := Option.bind_eq_some_iff.mp h
  rw [List.drop_left] at hclosing
  split at h
  · rename_i heq
    cases h
    cases heq
    obtain ⟨inner, rfl, rfl, -⟩ := Text.closing?_open hclosing
    exact ⟨before, inner, rfl, rfl, rfl⟩
  · cases h

/-- A target starts with a letter. -/
theorem Clause.starts_of_readTarget {cs : List Char} {target : Target}
    (h : readTarget cs = .ok target) : ∃ c ∈ (Text.trim cs).head?, c.isAlpha = true := by
  have hhead := (Text.trimmed_trim cs).1
  unfold readTarget at h
  generalize Text.trim cs = text at h hhead ⊢
  simp only at h
  split at h
  · rename_i name args hsplit
    split at h
    · cases h
    · rename_i hname
      simp only [Bool.or_eq_true, Bool.not_eq_true', not_or, Bool.not_eq_false] at hname
      obtain ⟨c, hc, halpha⟩ := Text.head?_of_isName hname.1
      obtain ⟨before, inner, rfl, rfl, -⟩ := splitCall?_shape hsplit
      cases before with
      | nil => cases hc
      | cons b before =>
        have hb : (Text.trim (b :: before)).head? = some b := Text.head?_trim hhead
        rw [hb] at hc
        exact ⟨c, hc, halpha⟩
  · split at h
    · rename_i hname
      exact Text.head?_of_isName hname
    · cases h

/-- All forms but the assignment start with a keyword. -/
theorem Form.starts {f : Form} (h : f ≠ .assign) :
    ∃ literal, f.pattern.leading? = some literal ∧
      ∃ c ∈ literal.toList.head?, c.isAlpha = true := by
  cases f
  case assign => exact absurd rfl h
  all_goals exact ⟨_, rfl, _, rfl, rfl⟩

theorem Form.captures_assign {cs : List Char} {captures : List Capture}
    (h : Pattern.fits? Form.assign.parts cs = some captures) :
    ∃ target value, captures = [.text target, .text value] := by
  obtain ⟨_, _, _, _, -, -, htarget, hrest, rfl⟩ := Pattern.fits?_slot h
  obtain ⟨_, -, hrest⟩ := Pattern.fits?_literal hrest
  obtain ⟨_, _, _, _, -, -, hvalue, hend, rfl⟩ := Pattern.fits?_slot hrest
  cases htarget
  cases hvalue
  rw [Pattern.fits?] at hend
  split at hend
  · cases hend
    exact ⟨_, _, rfl⟩
  · cases hend

namespace Statement

variable {block : List Char → Except ParseError Block} {text : List Char} {s : Statement}

/-- A statement starts with a letter. -/
theorem starts_of_parseWith (h : parseWith block text = .ok s) :
    ∃ c ∈ (Text.trim text).head?, c.isAlpha = true := by
  have hhead := (Text.trimmed_trim text).1
  unfold parseWith at h
  simp only at h
  split at h
  · cases h
  cases hmatch : Pattern.firstMatch? Form.pattern Form.all (Text.trim text) with
  | none =>
    rw [hmatch] at h
    cases h
  | some found =>
    obtain ⟨form, captures⟩ := found
    rw [hmatch] at h
    by_cases hform : form = .assign
    · subst hform
      have hfits := Pattern.fits?_of_firstMatch? hmatch
      rw [Text.trim_trim] at hfits
      obtain ⟨target, value, rfl⟩ := Form.captures_assign hfits
      obtain ⟨_, -, h⟩ := bind_eq_ok.mp h
      obtain ⟨_, htarget, -⟩ := bind_eq_ok.mp h
      have hfirst := Pattern.head?_of_fits?_slot hfits hhead
      rw [← hfirst] at hhead ⊢
      rw [← Text.head?_trim hhead]
      exact Clause.starts_of_readTarget htarget
    · obtain ⟨literal, hliteral, c, hc, halpha⟩ := Form.starts hform
      obtain ⟨rest, hrest⟩ := Pattern.firstMatch?_leading hmatch hliteral
      rw [Text.trimStart_trim] at hrest
      refine ⟨c, ?_, halpha⟩
      rw [hrest, List.head?_append, hc]
      rfl

theorem pieceTexts_cons {c : Char} {piece : List Char} {rest : List (List Char)}
    (hc : Text.isBlank c = false) :
    ∃ first others, pieceTexts ((c :: piece) :: rest) = first :: others ∧ first.head? = some c := by
  have hfirst : (Text.trim (c :: piece)).head? = some c :=
    Text.head?_trim (by rintro d ⟨⟩; exact hc)
  have hne : (Text.trim (c :: piece)).isEmpty = false := by
    cases h : Text.trim (c :: piece) <;> simp [h] at hfirst ⊢
  simp only [pieceTexts, hne, Bool.false_eq_true, if_false]
  split
  · exact ⟨_, _, rfl, by cases rest <;> simp [List.intercalate]⟩
  · exact ⟨_, _, rfl, hfirst⟩

/-- A block starts with a letter or, if its first statement is left out, with a colon. -/
theorem starts_of_parseBlock {b : Block} (h : parseBlock text = .ok b) :
    ∃ c ∈ (Text.trim text).head?, c = ':' ∨ c.isAlpha = true := by
  rw [← parseBlock_trim] at h
  have hhead := (Text.trimmed_trim text).1
  generalize Text.trim text = line at h hhead ⊢
  obtain ⟨block, -, htexts⟩ := parseBlockWithin_texts h
  have hline := Text.intercalate_piecesFrom .quotesAndBrackets ':' {} line
  obtain ⟨piece, rest, hpieces⟩ := List.exists_cons_of_ne_nil
    (Text.piecesFrom_ne_nil .quotesAndBrackets ':' {} line)
  rw [texts_eq, hpieces] at htexts
  rw [hpieces] at hline
  cases piece with
  | nil =>
    cases rest with
    | nil =>
      rw [List.intercalate_singleton] at hline
      subst hline
      cases h
    | cons next rest =>
      rw [← hline, List.intercalate_cons_cons]
      exact ⟨':', rfl, .inl rfl⟩
  | cons c piece =>
    have hfirst : line.head? = some c := by
      rw [← hline]
      cases rest <;> simp [List.intercalate]
    have hc : Text.isBlank c = false := hhead c hfirst
    obtain ⟨first, others, heq, hfirst'⟩ := pieceTexts_cons hc
    rw [heq] at htexts
    cases htexts with
    | cons hs _ =>
      obtain ⟨d, hd, halpha⟩ := starts_of_parseWith hs
      rw [Text.head?_trim (by rw [hfirst', ← hfirst]; exact hhead), hfirst'] at hd
      exact ⟨d, hfirst ▸ hd, .inr halpha⟩

end Statement

end ClassicBasic
