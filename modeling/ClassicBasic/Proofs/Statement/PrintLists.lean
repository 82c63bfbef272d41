import ClassicBasic.Proofs.Statement.Clauses

/-!
# Reading written PRINT lists

The items of a PRINT list are found in one scan that collects the text of an item until something
ends it. `Clause.runsOn` says that nothing does: the scan goes through a text and leaves it as one
item (`Clause.printPieces_append`). That is so of a text that is one item on its own
(`Clause.runsOn_of_single`), and an expression closes its quotes and parentheses, so what follows it
is scanned as if it stood alone. Blanks around a list do not count.
-/

namespace ClassicBasic

namespace Clause

/-! ## Texts that are one item -/

/-- Whether the scan of a PRINT list is inside quotes, and how many parentheses are open, after
`c`. -/
def printNesting (n : Bool × Nat) (c : Char) : Bool × Nat :=
  if n.1 then (c != '"', n.2)
  else (c == '"', if c == '(' then n.2 + 1 else if c == ')' then n.2 - 1 else n.2)

/-- Whether `c` ends the item in front of it: a separator, or the start of another item. -/
def endsItem (item : List Char) (n : Bool × Nat) (c : Char) : Bool :=
  !n.1 && n.2 == 0 && (c == ';' || c == ',' || startsItem item c)

/-- Whether the item so far goes on through all of the text. -/
def runsOn (item : List Char) (n : Bool × Nat) : List Char → Bool
  | [] => true
  | c :: cs => !endsItem item n c && runsOn (item ++ [c]) (printNesting n c) cs

section
variable {item u cs ws : List Char} {n : Bool × Nat} {c : Char}

theorem printPieces_cons (h : endsItem item n c = false) (cs : List Char) :
    printPieces item n.1 n.2 (c :: cs) =
      printPieces (item ++ [c]) (printNesting n c).1 (printNesting n c).2 cs := by
  obtain ⟨quoted, depth⟩ := n
  rw [printPieces]
  cases quoted with
  | true => rfl
  | false =>
    simp only [endsItem, Bool.not_false, Bool.true_and, Bool.and_eq_false_iff,
      Bool.or_eq_false_iff] at h
    rcases h with hdepth | ⟨hsep, hstarts⟩
    · simp [hdepth, printNesting]
    · simp [hsep, hstarts, printNesting]

theorem printPieces_append (h : runsOn item n u = true) (cs : List Char) :
    printPieces item n.1 n.2 (u ++ cs) =
      printPieces (item ++ u) (u.foldl printNesting n).1 (u.foldl printNesting n).2 cs := by
  induction u generalizing item n with
  | nil => simp
  | cons c u ih =>
    simp only [runsOn, Bool.and_eq_true, Bool.not_eq_true'] at h
    rw [List.cons_append, printPieces_cons h.1, ih h.2, List.append_assoc]
    rfl

theorem printPiece_eq (h : ¬ Text.allBlank item = true) :
    printPiece item = [.expr (Text.trim item)] := by
  have hne : (Text.trim item).isEmpty = false := by
    rw [Text.isEmpty_trim, ← Bool.not_eq_true]
    exact h
  simp [printPiece, hne]

/-- An item is ended by a separator, which is a piece of its own. -/
theorem printPieces_separator (hc : c = ';' ∨ c = ',') (item cs : List Char) :
    printPieces item false 0 (c :: cs) =
      printPiece item ++ (if c == ';' then .semicolon else .comma) ::
        printPieces [] false 0 cs := by
  rw [printPieces]
  rcases hc with rfl | rfl <;> rfl

theorem not_allBlank_append (h : ¬ Text.allBlank item = true) (u : List Char) :
    ¬ Text.allBlank (item ++ u) = true := by
  rw [Text.allBlank_append, Bool.and_eq_true]
  exact fun hall => h hall.1

/-- What starts an item stands behind one, and is not blank. -/
theorem startsItem_spec (h : startsItem item c = true) :
    ¬ Text.allBlank item = true ∧ Text.isBlank c = false := by
  constructor
  · intro hall
    have hnil : item.reverse.dropWhile Text.isBlank = [] := by
      rw [List.dropWhile_eq_nil_iff]
      simpa [Text.allBlank] using hall
    simp [startsItem, hnil] at h
  · unfold startsItem at h
    simp only at h
    split at h
    · rename_i hc
      rw [eq_of_beq hc]
      rfl
    · simp only [Bool.and_eq_true] at h
      exact Text.not_isBlank_of_isWordChar (by simp [Text.isWordChar, h.1])

/-- An item is ended by a separator or by another item. -/
theorem printPieces_ends (h : endsItem item n c = true) (cs : List Char) :
    (∃ sep rest, (sep = .comma ∨ sep = .semicolon) ∧
        printPieces item n.1 n.2 (c :: cs) = printPiece item ++ sep :: rest) ∨
      (startsItem item c = true ∧ ∃ n' : Bool × Nat,
        printPieces item n.1 n.2 (c :: cs) = printPiece item ++ printPieces [c] n'.1 n'.2 cs) := by
  obtain ⟨quoted, depth⟩ := n
  simp only [endsItem, Bool.and_eq_true, Bool.not_eq_true', beq_iff_eq, Bool.or_eq_true] at h
  obtain ⟨⟨rfl, rfl⟩, hc⟩ := h
  by_cases hsep : c = ';' ∨ c = ','
  · refine .inl ⟨if c == ';' then .semicolon else .comma, printPieces [] false 0 cs, ?_,
      printPieces_separator hsep item cs⟩
    split <;> simp
  · have hstarts : startsItem item c = true := hc.resolve_left hsep
    have hno : (c == ';' || c == ',') = false := by simpa using hsep
    refine .inr ⟨hstarts, (c == '"', if c == '(' then 1 else if c == ')' then 0 else 0), ?_⟩
    simp [printPieces, hno, hstarts]

/-- The first piece is the item so far with some of what follows, unless a quote stays open. -/
theorem printPieces_first (h : ¬ Text.allBlank item = true) (cs : List Char) :
    ∃ piece rest, printPieces item n.1 n.2 cs = piece :: rest ∧
      (piece = .unclosed ∨ ∃ u, u <+: cs ∧ piece = .expr (Text.trim (item ++ u))) := by
  induction cs generalizing item n with
  | nil =>
    rw [printPieces, printPiece_eq h]
    split
    · exact ⟨_, [], rfl, .inl rfl⟩
    · exact ⟨_, [], rfl, .inr ⟨[], List.nil_prefix, by rw [List.append_nil]⟩⟩
  | cons c cs ih =>
    cases hends : endsItem item n c with
    | false =>
      obtain ⟨piece, rest, heq, hpiece⟩ := ih (n := printNesting n c) (not_allBlank_append h [c])
      refine ⟨piece, rest, by rw [printPieces_cons hends, heq], hpiece.imp_right ?_⟩
      rintro ⟨u, hu, rfl⟩
      exact ⟨c :: u, List.cons_prefix_cons.mpr ⟨rfl, hu⟩, by rw [List.append_assoc]; rfl⟩
    | true =>
      obtain ⟨rest, heq⟩ : ∃ rest,
          printPieces item n.1 n.2 (c :: cs) = printPiece item ++ rest := by
        rcases printPieces_ends hends cs with ⟨sep, rest, -, heq⟩ | ⟨-, n', heq⟩
        · exact ⟨_, heq⟩
        · exact ⟨_, heq⟩
      rw [heq, printPiece_eq h]
      exact ⟨_, rest, rfl, .inr ⟨[], List.nil_prefix, by rw [List.append_nil]⟩⟩

theorem printPieces_ne_nil (h : ¬ Text.allBlank item = true) (cs : List Char) :
    printPieces item n.1 n.2 cs ≠ [] := by
  obtain ⟨piece, rest, heq, -⟩ := printPieces_first (n := n) h cs
  rw [heq]
  exact List.cons_ne_nil piece rest

/-- A text that is a single item is one because nothing in it ends the item. -/
theorem runsOn_of_single {t : List Char} (h : printPieces item n.1 n.2 u = [.expr t]) :
    runsOn item n u = true := by
  induction u generalizing item n with
  | nil => rfl
  | cons c u ih =>
    cases hends : endsItem item n c with
    | false =>
      rw [printPieces_cons hends] at h
      rw [runsOn, hends, ih h]
      rfl
    | true =>
      rcases printPieces_ends hends u with ⟨sep, rest, hsep, heq⟩ | ⟨hstarts, n', heq⟩
      · rw [heq] at h
        rcases List.append_eq_singleton_iff.mp h with ⟨-, hrest⟩ | ⟨-, hrest⟩
        · obtain ⟨rfl, -⟩ := List.cons.inj hrest
          simp at hsep
        · cases hrest
      · obtain ⟨hitem, hc⟩ := startsItem_spec hstarts
        rw [heq, printPiece_eq hitem] at h
        obtain ⟨-, hnil⟩ := List.cons.inj h
        exact absurd hnil (printPieces_ne_nil (by simp [Text.allBlank, hc]) u)

/-! ## Blanks around a list -/

/-- Blanks at the start of an item do not count. -/
theorem startsItem_blanks (hws : Text.allBlank ws = true) (item : List Char) (c : Char) :
    startsItem (ws ++ item) c = startsItem item c := by
  have hlast : ((ws ++ item).reverse.dropWhile Text.isBlank).head? =
      (item.reverse.dropWhile Text.isBlank).head? := by
    have hws' : ws.reverse.dropWhile Text.isBlank = [] := by
      rw [List.dropWhile_eq_nil_iff]
      simpa [Text.allBlank] using hws
    rw [List.reverse_append, List.dropWhile_append]
    split
    · rename_i hempty
      rw [hws', List.isEmpty_iff.mp hempty]
    · rename_i hne
      cases hdrop : item.reverse.dropWhile Text.isBlank with
      | nil => simp [hdrop] at hne
      | cons d ds => rfl
  simp only [startsItem, hlast]

theorem printPiece_blanks (hws : Text.allBlank ws = true) (item : List Char) :
    printPiece (ws ++ item) = printPiece item := by
  rw [printPiece, printPiece, Text.trim_append_left hws]

theorem printPieces_blanks (hws : Text.allBlank ws = true) (item : List Char) (quoted : Bool)
    (depth : Nat) (cs : List Char) :
    printPieces (ws ++ item) quoted depth cs = printPieces item quoted depth cs := by
  induction cs generalizing item quoted depth with
  | nil => rw [printPieces, printPieces, printPiece_blanks hws]
  | cons c cs ih =>
    simp only [printPieces, startsItem_blanks hws, printPiece_blanks hws, List.append_assoc, ih]

/-- Blanks neither end an item nor open anything. -/
theorem runsOn_blanks (item : List Char) (n : Bool × Nat) (hws : Text.allBlank ws = true) :
    runsOn item n ws = true ∧ ws.foldl printNesting n = n := by
  induction ws generalizing item with
  | nil => exact ⟨rfl, rfl⟩
  | cons c ws ih =>
    simp only [Text.allBlank, List.all_cons, Bool.and_eq_true] at hws
    have hne {d : Char} (hd : Text.isBlank d = false) : c ≠ d := by
      rintro rfl
      rw [hws.1] at hd
      cases hd
    have hstarts : startsItem item c = false := by
      rw [← Bool.not_eq_true]
      intro h
      rw [(startsItem_spec h).2] at hws
      cases hws.1
    have hends : endsItem item n c = false := by
      simp [endsItem, hstarts, hne (by rfl : Text.isBlank ';' = false),
        hne (by rfl : Text.isBlank ',' = false)]
    have hnesting : printNesting n c = n := by
      obtain ⟨quoted, depth⟩ := n
      cases quoted <;> simp [printNesting, hne (by rfl : Text.isBlank '"' = false),
        hne (by rfl : Text.isBlank '(' = false), hne (by rfl : Text.isBlank ')' = false)]
    rw [runsOn, hends, List.foldl_cons, hnesting]
    exact ih (item ++ [c]) hws.2

theorem printPieces_blanks_append (hws : Text.allBlank ws = true) (item : List Char)
    (quoted : Bool) (depth : Nat) (cs : List Char) :
    printPieces item quoted depth (ws ++ cs) = printPieces (item ++ ws) quoted depth cs := by
  obtain ⟨hrun, hnesting⟩ := runsOn_blanks item (quoted, depth) hws
  have happend := printPieces_append hrun cs
  rwa [hnesting] at happend

theorem printPieces_append_blanks (hws : Text.allBlank ws = true) (item : List Char)
    (quoted : Bool) (depth : Nat) (cs : List Char) :
    printPieces item quoted depth (cs ++ ws) = printPieces item quoted depth cs := by
  induction cs generalizing item quoted depth with
  | nil =>
    have hrun := printPieces_blanks_append hws item quoted depth []
    rw [List.append_nil] at hrun
    rw [List.nil_append, hrun, printPieces, printPieces, printPiece, printPiece,
      Text.trim_append_right hws]
  | cons c cs ih => simp only [List.cons_append, printPieces, ih]

/-- Blanks around a PRINT list do not count. -/
theorem readPrintItems_trim (text : List Char) :
    readPrintItems (Text.trim text) = readPrintItems text := by
  obtain ⟨pre, post, htext, hpre, -, hpost⟩ := Text.exists_trim text
  have hpieces : printPieces [] false 0 text = printPieces [] false 0 (Text.trim text) := by
    nth_rewrite 1 [htext]
    rw [printPieces_append_blanks hpost, printPieces_blanks_append hpre]
    simpa using printPieces_blanks hpre [] false 0 (Text.trim text)
  have hfault {α : Type} : (invalid .printList (Text.trim text) : Except ParseError α) =
      invalid .printList text := by
    rw [invalid, invalid, Text.trim_trim]
  rw [readPrintItems, readPrintItems, hpieces, hfault]

end

/-! ## Written lists -/

theorem printNesting_plain {u : List Char} (h : ∀ c ∈ u, c ≠ '"' ∧ c ≠ '(' ∧ c ≠ ')')
    (depth : Nat) : u.foldl printNesting (false, depth) = (false, depth) := by
  induction u with
  | nil => rfl
  | cons c u ih =>
    obtain ⟨hc, hu⟩ := List.forall_mem_cons.mp h
    have hstep : printNesting (false, depth) c = (false, depth) := by simp [printNesting, hc]
    rw [List.foldl_cons, hstep, ih hu]

theorem printNesting_quoted {body : List Char} (h : '"' ∉ body) (depth : Nat) :
    body.foldl printNesting (true, depth) = (true, depth) := by
  induction body with
  | nil => rfl
  | cons c body ih =>
    simp only [List.mem_cons, not_or] at h
    have hstep : printNesting (true, depth) c = (true, depth) := by
      simpa [printNesting] using fun hc => h.1 hc.symm
    rw [List.foldl_cons, hstep, ih h.2]

/-- The quotes and parentheses of a composed text close. -/
theorem printNesting_composed {W : List Char → Prop} {M : Char → Prop} {u : List Char}
    (h : Text.Composed W M u) (depth : Nat) :
    u.foldl printNesting (false, depth) = (false, depth) := by
  induction h generalizing depth with
  | nil => rfl
  | word hchars _ =>
    exact printNesting_plain
      (fun c hc => Text.ne_of_isInert (Text.isInert_of_isWordChar (hchars c hc))) depth
  | @mark c hc _ =>
    simp only [Text.isPunctuation, Text.isOpener, Text.isCloser, Bool.and_eq_true,
      Bool.not_eq_true', bne_iff_ne, Bool.or_eq_false_iff, beq_eq_false_iff_ne] at hc
    exact printNesting_plain (by simpa using ⟨hc.1.1.2, hc.1.2.1.1, hc.2.1.1⟩) depth
  | numeral hchars =>
    exact printNesting_plain
      (fun c hc => Text.ne_of_isInert (Text.isInert_of_isNumeric (hchars c hc)).1) depth
  | quoted hbody =>
    have hopen : printNesting (false, depth) '"' = (true, depth) := rfl
    rw [List.cons_append, List.foldl_cons, hopen, List.foldl_append, printNesting_quoted hbody]
    rfl
  | parens _ ih =>
    have hopen : printNesting (false, depth) '(' = (false, depth + 1) := rfl
    rw [List.cons_append, List.foldl_cons, hopen, List.foldl_append, ih]
    rfl
  | append _ _ _ ihu ihv => rw [List.foldl_append, ihu, ihv]

end Clause

namespace PrintItem

variable {w : Speller} {items : List PrintItem}

/-- The piece that an item is written as. -/
def piece (w : Speller) : PrintItem → Clause.PrintPiece
  | .expr e => .expr (Text.trim (w.expr e))
  | .comma => .comma
  | .semicolon => .semicolon

namespace Separate

theorem tail {item : PrintItem} (h : Separate w (item :: items)) : Separate w items where
  spells e he := h.spells e (by simp [he])
  whole e he := h.whole e (by simp [he])
  apart := by
    cases items with
    | nil => exact .nil
    | cons next items => exact (List.isChain_cons_cons.mp h.apart).2

/-- The scan goes through a written expression. -/
theorem printPieces_expr {e : Expr} (h : Separate w items) (he : .expr e ∈ items)
    (cs : List Char) :
    Clause.printPieces [] false 0 (w.expr e ++ cs) =
      Clause.printPieces (w.expr e) false 0 cs := by
  have hpieces : ∃ t, Clause.printPieces [] false 0 (w.expr e) = [.expr t] := by
    have hwhole := mapM_eq_ok.mp (h.whole e he)
    generalize Clause.printPieces [] false 0 (w.expr e) = pieces at hwhole
    cases hwhole with
    | @cons piece _ _ _ hpiece hrest =>
      cases hrest
      cases piece with
      | expr t => exact ⟨t, rfl⟩
      | comma => cases hpiece
      | semicolon => cases hpiece
      | unclosed => cases hpiece
  obtain ⟨t, ht⟩ := hpieces
  have hrun : Clause.runsOn [] (false, 0) (w.expr e) = true := Clause.runsOn_of_single ht
  have hclosed : (w.expr e).foldl Clause.printNesting (false, 0) = (false, 0) :=
    Clause.printNesting_composed (Expr.composed (W := fun _ => True) trivial trivial
      (h.spells e he).parse fun _ _ => trivial) 0
  have happend := Clause.printPieces_append hrun cs
  rwa [hclosed, List.nil_append] at happend

theorem printPieces_render (h : Separate w items) :
    Clause.printPieces [] false 0 (items.flatMap (PrintItem.render w)) =
      items.map (PrintItem.piece w) := by
  induction items with
  | nil => rfl
  | cons item items ih =>
    have hrest := ih h.tail
    rw [List.flatMap_cons, List.map_cons, ← hrest]
    cases item with
    | comma => exact Clause.printPieces_separator (.inr rfl) [] _
    | semicolon => exact Clause.printPieces_separator (.inl rfl) [] _
    | expr e =>
      have hblank := Expr.not_allBlank_of_parse (h.spells e (by simp)).parse
      have hends {c : Char} (hc : c = ';' ∨ c = ',') (cs : List Char) :
          Clause.printPieces (w.expr e) false 0 (c :: cs) =
            .expr (Text.trim (w.expr e)) :: Clause.printPieces [] false 0 (c :: cs) := by
        rw [Clause.printPieces_separator hc, Clause.printPieces_separator hc,
          Clause.printPiece_eq hblank]
        rfl
      rw [PrintItem.render, h.printPieces_expr (by simp)]
      -- A separator, or the end of the list, ends the expression.
      cases items with
      | nil => exact Clause.printPiece_eq hblank
      | cons next items =>
        have hnext := (List.isChain_cons_cons.mp h.apart).1
        cases next with
        | expr e' => exact absurd ⟨rfl, rfl⟩ hnext
        | comma => exact hends (.inr rfl) _
        | semicolon => exact hends (.inl rfl) _

theorem not_allBlank {item : PrintItem} (h : Separate w (item :: items)) :
    ¬ Text.allBlank ((item :: items).flatMap (PrintItem.render w)) = true := by
  rw [List.flatMap_cons, Text.allBlank_append, Bool.and_eq_true]
  intro hall
  cases item with
  | expr e => exact Expr.not_allBlank_of_parse (h.spells e (by simp)).parse hall.1
  | comma => exact absurd hall.1 Bool.false_ne_true
  | semicolon => exact absurd hall.1 Bool.false_ne_true

/-- A PRINT list is read back. -/
theorem readPrintItems_render (h : Separate w items) :
    Clause.readPrintItems (Text.trim (items.flatMap (PrintItem.render w))) = .ok items := by
  rw [Clause.readPrintItems_trim, Clause.readPrintItems, h.printPieces_render, mapM_eq_ok,
    List.forall₂_map_left_iff, List.forall₂_same]
  intro item hitem
  cases item with
  | comma => rfl
  | semicolon => rfl
  | expr e =>
    exact bind_eq_ok.mpr ⟨e, Clause.readExpr_trim (h.spells e hitem), rfl⟩

end Separate

end PrintItem

end ClassicBasic
