import ClassicBasic.Proofs.Statement.Filling
import ClassicBasic.Proofs.Statement.PrintLists

/-!
# Reading written statements

The text of a canonical statement that has no branches reads as that statement (`parseWith_data` and
its siblings). Its first word decides which forms are tried. Most of them are the first to be tried
for their keyword, so it is enough that the text fills the form and that its clauses are read back.

The words of such a text are its keywords and free names, so an ELSE is not found in it, and the
line is not cut inside it (`Canonical.free`).
-/

namespace ClassicBasic

open Text (words commas decimal inQuotes signature isFree Composed Lacks Leads)

/-! ## The words of written clauses -/

namespace Text

/-- The keywords that stand between the slots of a form. -/
def inner : List String := ["THEN", "ELSE", "TO", "STEP", "GOSUB", "GOTO"]

theorem inner_spec {keyword : String} (h : keyword ∈ inner) :
    keyword ∈ reserved ∧ IsKeyword keyword.toList ∧
      keyword.toList.any (!isNumeric ·) = true ∧ keyword.toList ≠ ['A', 'N', 'D'] ∧
      keyword.toList ≠ ['O', 'R'] := by
  have hkeyword {k : List Char} (hne : k ≠ []) (hall : k.all Char.isAlpha = true) : IsKeyword k :=
    ⟨hne, List.all_eq_true.mp hall⟩
  simp only [inner, List.mem_cons, List.not_mem_nil, or_false] at h
  rcases h with rfl | rfl | rfl | rfl | rfl | rfl <;>
    exact ⟨by simp [reserved], hkeyword (by simp) rfl, rfl, by simp, by simp⟩

end Text

section
variable {w : Speller} {keyword : String}

/-- The texts without `keyword` as a word, and without a colon outside quotes. -/
abbrev Free (keyword : String) : List Char → Prop :=
  Composed (· ≠ keyword.toList) (· ≠ ':')

theorem free_name {name : String} (hkeyword : keyword ∈ Text.reserved) (h : isFree name = true) :
    Free keyword name.toList := by
  refine .word (Text.isWordChar_of_isFree h) fun heq => ?_
  exact Text.not_prefix_of_isFree h hkeyword (heq ▸ List.prefix_refl _)

theorem free_decimal (n : Nat) : Free keyword (decimal n) := .numeral (Text.isNumeric_decimal n)

theorem free_commas {us : List (List Char)} (h : ∀ u ∈ us, Free keyword u) :
    Free keyword (commas us) := .intercalate rfl (by decide) h

theorem free_words {us : List (List Char)} (h : us.Forall (Free keyword)) :
    Free keyword (words us) := .intercalate rfl (by decide) (List.forall_iff_forall_mem.mp h)

theorem free_applied {name : String} {us : List (List Char)} (hkeyword : keyword ∈ Text.reserved)
    (hname : isFree name = true) (h : ∀ u ∈ us, Free keyword u) :
    Free keyword (Text.applied name us) := by
  refine .append (free_name hkeyword hname) (.parens (free_commas h)) (.of_head? ?_)
  rintro c ⟨⟩
  rfl

theorem free_expr {e : Expr} (hkeyword : keyword ∈ Text.inner) (h : w.Spells e) :
    Free keyword (w.expr e) := by
  obtain ⟨hreserved, -, -, hand, hor⟩ := Text.inner_spec hkeyword
  refine Expr.composed hand.symm hor.symm h.parse fun n hn heq => ?_
  exact Text.not_prefix_of_isFree (h.names n hn) hreserved (heq ▸ List.prefix_refl _)

theorem lacks_of_free {u : List Char} (hkeyword : keyword ∈ Text.inner) (h : Free keyword u) :
    Lacks keyword.toList u := by
  obtain ⟨-, hword, hnumeric, -, -⟩ := Text.inner_spec hkeyword
  exact h.lacks hword hnumeric fun _ h => h

theorem Speller.Spells.lacks {e : Expr} (h : w.Spells e) (hkeyword : keyword ∈ Text.inner) :
    Lacks keyword.toList (w.expr e) := lacks_of_free hkeyword (free_expr hkeyword h)

theorem free_element {e : Element} (hkeyword : keyword ∈ Text.inner) (h : e.Writable w) :
    Free keyword (e.render w) := by
  refine free_applied (Text.inner_spec hkeyword).1 h.name ?_
  simpa using fun x hx => free_expr hkeyword (h.spells x hx)

theorem free_target {t : Target} (hkeyword : keyword ∈ Text.inner) (h : t.Writable w) :
    Free keyword (t.render w) := by
  cases t with
  | scalar name => exact free_name (Text.inner_spec hkeyword).1 h
  | element e => exact free_element hkeyword h

theorem free_value {v : Value} (h : v.Writable w) : Free keyword (v.render w) := by
  cases v with
  | number x => exact .numeral (Text.isNumeric_of_number? h).2
  | text s => exact .quoted h

theorem free_signature {name : String} {params : List String} (hkeyword : keyword ∈ Text.reserved)
    (hname : isFree name = true) (hparams : ∀ p ∈ params, isFree p = true) :
    Free keyword (signature name params) := by
  rw [signature]
  split
  · exact free_name hkeyword hname
  · refine free_applied hkeyword hname ?_
    simpa using fun p hp => free_name hkeyword (hparams p hp)

theorem free_inputList {prompt : Option String} {targets : List Target}
    (hkeyword : keyword ∈ Text.inner) (hprompt : ∀ p ∈ prompt, '"' ∉ p.toList)
    (htargets : ∀ t ∈ targets, t.Writable w) : Free keyword (Text.inputList w prompt targets) := by
  have hlist : Free keyword (commas (targets.map (Target.render w))) := by
    refine free_commas ?_
    simpa using fun t ht => free_target hkeyword (htargets t ht)
  cases prompt with
  | none => exact hlist
  | some p =>
    refine free_words
      ⟨.append (.quoted (hprompt p rfl)) (.mark rfl (by decide)) (.of_head? ?_), hlist⟩
    rintro c ⟨⟩
    rfl

/-- Expressions of a PRINT list do not touch. -/
theorem free_printItems {items : List PrintItem} (hkeyword : keyword ∈ Text.inner)
    (h : PrintItem.Separate w items) : Free keyword (items.flatMap (PrintItem.render w)) := by
  induction items with
  | nil => exact .nil
  | cons item items ih =>
    rw [List.flatMap_cons]
    have hrest := ih h.tail
    cases item with
    | comma =>
      refine .append (.mark rfl (by decide)) hrest (.of_getLast? ?_)
      rintro c ⟨⟩
      rfl
    | semicolon =>
      refine .append (.mark rfl (by decide)) hrest (.of_getLast? ?_)
      rintro c ⟨⟩
      rfl
    | expr e =>
      refine .append (free_expr hkeyword (h.spells e (by simp))) hrest (.of_head? ?_)
      cases items with
      | nil => rintro c ⟨⟩
      | cons next items =>
        have hnext := (List.isChain_cons_cons.mp h.apart).1
        cases next with
        | expr e' => exact absurd ⟨rfl, rfl⟩ hnext
        | comma | semicolon =>
          rintro c ⟨⟩
          rfl

end

/-! ## The words of written statements -/

namespace Statement

variable {w : Speller}

/-- A statement without branches has neither an ELSE nor a colon outside quotes. -/
theorem Canonical.free {s : Statement} (h : s.Canonical w) (hs : s.takesRest = false) :
    Free "ELSE" (s.render w) := by
  have hinner : "ELSE" ∈ Text.inner := by simp [Text.inner]
  have hreserved : "ELSE" ∈ Text.reserved := (Text.inner_spec hinner).1
  have hequals : Free "ELSE" ['='] := .mark rfl (by decide)
  have hexpr {e : Expr} (he : w.Spells e) : Free "ELSE" (w.expr e) := free_expr hinner he
  have hlist {α : Type} {f : α → List Char} {as : List α} (h : ∀ a ∈ as, Free "ELSE" (f a)) :
      Free "ELSE" (commas (as.map f)) := free_commas (by simpa using h)
  have hkeyword (text : String) (hword : text.toList.all Text.isWordChar = true)
      (hne : text.toList ≠ "ELSE".toList) : Free "ELSE" text.toList :=
    .word (List.all_eq_true.mp hword) hne
  cases h with
  | data _ hvalues =>
    exact free_words ⟨hkeyword "DATA" rfl (by simp), hlist fun v hv => free_value (hvalues v hv)⟩
  | define hname hparams hbody =>
    exact free_words ⟨hkeyword "DEF" rfl (by simp), free_signature hreserved hname hparams, hequals,
      hexpr hbody⟩
  | dim _ harrays =>
    exact free_words ⟨hkeyword "DIM" rfl (by simp),
      hlist fun a ha => free_element hinner (harrays a ha)⟩
  | finish => exact hkeyword "END" rfl (by simp)
  | forLoop hvar hfirst hlimit hstep =>
    exact free_words ⟨hkeyword "FOR" rfl (by simp), free_name hreserved hvar, hequals, hexpr hfirst,
      hkeyword "TO" rfl (by simp), hexpr hlimit, hkeyword "STEP" rfl (by simp), hexpr hstep⟩
  | gosub _ => exact free_words ⟨hkeyword "GOSUB" rfl (by simp), free_decimal _⟩
  | goto _ => exact free_words ⟨hkeyword "GOTO" rfl (by simp), free_decimal _⟩
  | input hprompt _ htargets =>
    exact free_words ⟨hkeyword "INPUT" rfl (by simp), free_inputList hinner hprompt htargets⟩
  | letTo htarget _ he =>
    exact free_words ⟨hkeyword "LET" rfl (by simp), free_target hinner htarget, hequals, hexpr he⟩
  | @next vars hvars =>
    cases vars with
    | nil => exact hkeyword "NEXT" rfl (by simp)
    | cons v vars =>
      exact free_words ⟨hkeyword "NEXT" rfl (by simp),
        hlist fun v hv => free_name hreserved (hvars v hv)⟩
  | onGosub hindex _ _ =>
    exact free_words ⟨hkeyword "ON" rfl (by simp), hexpr hindex, hkeyword "GOSUB" rfl (by simp),
      hlist fun n _ => free_decimal n⟩
  | onGoto hindex _ _ =>
    exact free_words ⟨hkeyword "ON" rfl (by simp), hexpr hindex, hkeyword "GOTO" rfl (by simp),
      hlist fun n _ => free_decimal n⟩
  | @print items hitems =>
    cases items with
    | nil => exact hkeyword "PRINT" rfl (by simp)
    | cons item items =>
      exact free_words ⟨hkeyword "PRINT" rfl (by simp), free_printItems hinner hitems⟩
  | read _ htargets =>
    exact free_words ⟨hkeyword "READ" rfl (by simp),
      hlist fun t ht => free_target hinner (htargets t ht)⟩
  | restore => exact hkeyword "RESTORE" rfl (by simp)
  | returnFrom => exact hkeyword "RETURN" rfl (by simp)
  | stop => exact hkeyword "STOP" rfl (by simp)
  | assign hvar he => exact free_words ⟨free_name hreserved hvar, hequals, hexpr he⟩
  | assignElement htarget _ he =>
    exact free_words ⟨free_element hinner htarget, hequals, hexpr he⟩
  | ifLine | ifElseLine | ifThen | ifElse | remark => cases hs

/-! ## First words -/

/-- The first word of a written statement: its keyword or the name it assigns to. -/
def lead : Statement → String
  | .assign var _ => var
  | .assignElement target _ => target.name
  | s => s.keyword

theorem Canonical.leads {s : Statement} (h : s.Canonical w) : Leads s.lead.toList (s.render w) := by
  have hwords (keyword : String) (hne : keyword.toList ≠ [])
      (hword : keyword.toList.all Text.isWordChar = true) (ws : List (List Char)) :
      Leads keyword.toList (words (keyword.toList :: ws)) :=
    .words hne (List.all_eq_true.mp hword) ws
  have hbare (keyword : String) (hne : keyword.toList ≠ [])
      (hword : keyword.toList.all Text.isWordChar = true) :
      Leads keyword.toList keyword.toList :=
    ⟨hne, List.all_eq_true.mp hword, [], by simp, by simp⟩
  cases h with
  | data => exact hwords "DATA" (by simp) rfl _
  | define => exact hwords "DEF" (by simp) rfl _
  | dim => exact hwords "DIM" (by simp) rfl _
  | forLoop => exact hwords "FOR" (by simp) rfl _
  | gosub => exact hwords "GOSUB" (by simp) rfl _
  | goto => exact hwords "GOTO" (by simp) rfl _
  | ifLine | ifElseLine | ifThen | ifElse => exact hwords "IF" (by simp) rfl _
  | input => exact hwords "INPUT" (by simp) rfl _
  | letTo => exact hwords "LET" (by simp) rfl _
  | onGosub | onGoto => exact hwords "ON" (by simp) rfl _
  | read => exact hwords "READ" (by simp) rfl _
  | finish => exact hbare "END" (by simp) rfl
  | restore => exact hbare "RESTORE" (by simp) rfl
  | returnFrom => exact hbare "RETURN" (by simp) rfl
  | stop => exact hbare "STOP" (by simp) rfl
  | @next vars _ =>
    cases vars with
    | nil => exact hbare "NEXT" (by simp) rfl
    | cons v vars => exact hwords "NEXT" (by simp) rfl _
  | @print items _ =>
    cases items with
    | nil => exact hbare "PRINT" (by simp) rfl
    | cons item items => exact hwords "PRINT" (by simp) rfl _
  | @remark text _ =>
    rw [render_remark]
    split
    · exact hbare "REM" (by simp) rfl
    · exact hwords "REM" (by simp) rfl _
  | assign hvar _ =>
    exact .words (Text.toList_ne_nil_of_isFree hvar) (Text.isWordChar_of_isFree hvar) _
  | @assignElement target e htarget _ _ =>
    refine ⟨Text.toList_ne_nil_of_isFree htarget.name, Text.isWordChar_of_isFree htarget.name,
      ('(' :: commas (target.subscripts.map w.expr) ++ [')']) ++ Text.spaced [['='], w.expr e],
      ?_, ?_⟩
    · rw [render_assignElement, Text.words_cons, Element.render, Text.applied, List.append_assoc]
      rfl
    · rintro c ⟨⟩
      rfl

/-- Neither a free name nor another keyword starts with REM or IF. -/
theorem Canonical.lead_other {s : Statement} (h : s.Canonical w) (hs : s.takesRest = false) :
    (Text.dropLeading? ['R', 'E', 'M'] s.lead.toList).isSome = false ∧
      (Text.dropLeading? ['I', 'F'] s.lead.toList).isSome = false := by
  have hfree {name keyword : String} (hname : isFree name = true)
      (hkeyword : keyword ∈ Text.reserved) :
      (Text.dropLeading? keyword.toList name.toList).isSome = false := by
    rw [← Bool.not_eq_true, Option.isSome_iff_exists]
    rintro ⟨rest, hrest⟩
    refine Text.not_prefix_of_isFree hname hkeyword ⟨rest, ?_⟩
    exact (Text.dropLeading?_eq_some.mp hrest).symm
  cases h with
  | assign hvar _ =>
    exact ⟨@hfree _ "REM" hvar (by simp [Text.reserved]),
      @hfree _ "IF" hvar (by simp [Text.reserved])⟩
  | assignElement htarget _ _ =>
    exact ⟨@hfree _ "REM" htarget.name (by simp [Text.reserved]),
      @hfree _ "IF" htarget.name (by simp [Text.reserved])⟩
  | ifLine | ifElseLine | ifThen | ifElse | remark => cases hs
  | _ => simp [lead, keyword, Text.dropLeading?]

theorem Canonical.not_ownsLine {s : Statement} (h : s.Canonical w) (hs : s.takesRest = false) :
    ownsLine (Text.trim (s.render w)) = false := by
  have hlead := h.leads.trim
  obtain ⟨hrem, hif⟩ := h.lead_other hs
  have hrem' : (Text.dropLeading? ['R', 'E', 'M'] (Text.trim (s.render w))).isSome = false :=
    (hlead.dropLeading?_isSome (List.all_eq_true.mp rfl)).trans hrem
  have hif' : (Text.dropLeading? ['I', 'F'] (Text.trim (s.render w))).isSome = false :=
    (hlead.dropLeading?_isSome (List.all_eq_true.mp rfl)).trans hif
  rw [Option.isSome_eq_false_iff, Option.isNone_iff_eq_none] at hrem' hif'
  simp [ownsLine, hrem', hif']

/-- A text whose first word is REM or IF owns its line. -/
theorem ownsLine_of_leads {lead : String} {text : List Char} (h : Leads lead.toList text)
    (hlead : lead = "REM" ∨ lead = "IF") : ownsLine text = true := by
  obtain ⟨rest, rfl, hrest⟩ := h.rest
  rcases hlead with rfl | rfl
  · rfl
  · have hword : rest.head?.any Text.isWordChar = false := by
      cases rest with
      | nil => rfl
      | cons c rest => simpa using hrest c rfl
    simp [ownsLine, Text.dropLeading?, hword]

theorem lead_of_takesRest {s : Statement} (h : s.takesRest = true) :
    s.lead = "REM" ∨ s.lead = "IF" := by
  cases s <;> simp [takesRest, lead, keyword] at h ⊢

/-! ## Statements without branches -/

section
variable {block : List Char → Except ParseError Block}

/-- A text that fills the first form for its keyword is built by that form. -/
theorem parseWith_eq_build (keyword : String) (form : Form) {parts : List Part}
    {after : List Form} {ws : List (List Char)} {captures : List Capture}
    (hparts : form.parts = .literal keyword :: parts)
    (hneedle : Text.isNeedle keyword.toList = true)
    (hforms : Pattern.candidates Form.pattern Form.all keyword.toList = form :: after)
    (hword : keyword.toList.all Text.isWordChar = true)
    (hfilled : Pattern.Filled parts ws captures) :
    parseWith block (words (keyword.toList :: ws)) = form.build block captures := by
  have hlead : Leads keyword.toList (words (keyword.toList :: ws)) :=
    .words (Text.ne_nil_of_isNeedle hneedle) (List.all_eq_true.mp hword) ws
  refine parseWith_of_filled block [] hlead hforms (by simp) ?_ (by simp)
  rw [hparts]
  exact .literal hneedle hfilled

theorem parseWith_keyword (keyword : String) (form : Form) {parts : List Part} {after : List Form}
    {ws : List (List Char)} {captures : List Capture} {s : Statement}
    (hparts : form.parts = .literal keyword :: parts)
    (hneedle : Text.isNeedle keyword.toList = true)
    (hforms : Pattern.candidates Form.pattern Form.all keyword.toList = form :: after)
    (hword : keyword.toList.all Text.isWordChar = true)
    (hfilled : Pattern.Filled parts ws captures)
    (hbuild : form.build block captures = .ok s) :
    parseWith block (words (keyword.toList :: ws)) = .ok s :=
  (parseWith_eq_build keyword form hparts hneedle hforms hword hfilled).trans hbuild

/-! ### What the slots of a form are filled with -/

theorem not_allBlank_expr {e : Expr} (h : w.Spells e) : ¬ Text.allBlank (w.expr e) = true :=
  Expr.not_allBlank_of_parse h.parse

theorem readExpr_captured {e : Expr} (h : w.Spells e) :
    Clause.readExpr (String.ofList (Text.trim (w.expr e))).toList = .ok e := by
  rw [String.toList_ofList, Clause.readExpr_trim h]

theorem readTarget_captured (target : Target) (h : target.Writable w) :
    Clause.readTarget (String.ofList (Text.trim (target.render w))).toList = .ok target := by
  rw [String.toList_ofList, Text.trim_of_trimmed (Clause.isItem_target h).trimmed,
    Clause.readTarget_render h]

theorem not_allBlank_lines {lines : List Nat} (hne : lines ≠ []) :
    ¬ Text.allBlank (commas (lines.map decimal)) = true := by
  refine Text.not_allBlank_commas ?_ (by simpa using hne)
  simpa using fun n _ => Text.IsItem.decimal n

/-- The items of a list are read one by one. -/
theorem mapM_captured {α : Type} {read : List Char → Except ParseError α} {f : α → List Char}
    {as : List α} (h : ∀ a ∈ as, read (f a) = .ok a) :
    ((as.map f).map String.ofList).mapM (fun t => read t.toList) = .ok as := by
  rw [mapM_eq_ok, List.forall₂_map_left_iff, List.forall₂_map_left_iff, List.forall₂_same]
  intro a ha
  rw [String.toList_ofList, h a ha]

theorem mapM_lines {lines : List Nat} (h : ∀ n ∈ lines, IsLineNumber n) :
    (lines.map Int.ofNat).mapM Clause.readLine = .ok lines := by
  rw [mapM_eq_ok, List.forall₂_map_left_iff, List.forall₂_same]
  exact fun n hn => Clause.readLine_eq (h n hn)

theorem lacks_equals_word {u : List Char} (h : ∀ c ∈ u, Text.isWordChar c = true) :
    Lacks ['='] u := by
  refine .of_notMem (List.mem_singleton_self '=') (fun hmem => ?_) fun hmem => ?_
  · exact absurd (h _ hmem) (by decide)
  · exact absurd (h _ hmem) (by decide)

theorem lacks_equals_applied {name : String} {us : List (List Char)} (hname : isFree name = true)
    (hus : ∀ u ∈ us, Lacks ['='] u) : Lacks ['='] (Text.applied name us) := by
  have hmark {c : Char} (hc : c ≠ '=') (hquote : c ≠ '"') : Lacks ['='] [c] :=
    .of_notMem (List.mem_singleton_self '=') (by simpa using hc.symm) (by simpa using hquote.symm)
  have hlist : Lacks ['='] (commas us) := by
    induction us with
    | nil => exact ⟨rfl, rfl⟩
    | cons u us ih =>
      obtain ⟨hu, hus⟩ := List.forall_mem_cons.mp hus
      cases us with
      | nil => rwa [Text.commas_singleton]
      | cons v us =>
        rw [Text.commas_cons_cons]
        exact .append_equals hu (.append_equals (hmark (by decide) (by decide)) (ih hus))
  refine .append_equals (lacks_equals_word (Text.isWordChar_of_isFree hname)) ?_
  exact .append_equals (.append_equals (hmark (by decide) (by decide)) hlist)
    (hmark (by decide) (by decide))

theorem lacks_equals_element {target : Element} (h : target.Writable w)
    (hequals : target.NoEquals w) : Lacks ['='] (target.render w) := by
  refine lacks_equals_applied h.name fun u hu => ?_
  obtain ⟨x, hx, rfl⟩ := List.mem_map.mp hu
  exact ⟨hequals x hx, Expr.endsQuoted_of_parse (h.spells x hx).parse⟩

theorem lacks_equals_target {target : Target} (h : target.Writable w)
    (hequals : target.NoEquals w) : Lacks ['='] (target.render w) := by
  cases target with
  | scalar name => exact lacks_equals_word (Text.isWordChar_of_isFree h)
  | element e => exact lacks_equals_element h hequals

theorem lacks_equals_signature {name : String} {params : List String} (hname : isFree name = true)
    (hparams : ∀ p ∈ params, isFree p = true) : Lacks ['='] (signature name params) := by
  rw [signature]
  split
  · exact lacks_equals_word (Text.isWordChar_of_isFree hname)
  · refine lacks_equals_applied hname fun u hu => ?_
    obtain ⟨p, hp, rfl⟩ := List.mem_map.mp hu
    exact lacks_equals_word (Text.isWordChar_of_isFree (hparams p hp))

/-! ### One kind after the other -/

/-- The constants of DATA are the items of its list, each read for itself. -/
theorem parseWith_constants {us : List (List Char)} (hne : us ≠ []) (h : ∀ u ∈ us, Text.IsItem u) :
    parseWith block (words ["DATA".toList, commas us]) =
      .ok (.data (us.map Clause.readConstant)) := by
  have hvalues : (us.map String.ofList).map (fun v => Clause.readConstant v.toList) =
      us.map Clause.readConstant := by
    simp
  refine parseWith_keyword "DATA" .data rfl rfl rfl rfl
    (.last (Text.not_allBlank_commas h hne) (Slot.convert_texts "values" h hne)) ?_
  exact congrArg (Except.ok ∘ Statement.data) hvalues

theorem parseWith_data {values : List Value} (hne : values ≠ [])
    (h : ∀ v ∈ values, v.Writable w) :
    parseWith block ((Statement.data values).render w) = .ok (.data values) := by
  have hitems : ∀ u ∈ values.map (Value.render w), Text.IsItem u := by
    simpa using fun v hv => Clause.isItem_constant (h v hv)
  have hvalues : (values.map (Value.render w)).map Clause.readConstant = values := by
    rw [List.map_map]
    exact (List.map_congr_left fun v hv => Clause.readConstant_render (h v hv)).trans
      (List.map_id values)
  rw [render_data, parseWith_constants (by simpa using hne) hitems, hvalues]

theorem parseWith_define {name : String} {params : List String} {body : Expr}
    (hname : isFree name = true) (hparams : ∀ p ∈ params, isFree p = true)
    (hbody : w.Spells body) :
    parseWith block ((Statement.define name params body).render w) =
      .ok (.define name params body) := by
  have hitem := Clause.isItem_signature hname hparams
  have hsignature : Clause.readSignature
      (String.ofList (Text.trim (signature name params))).toList = .ok (name, params) := by
    rw [String.toList_ofList, Text.trim_of_trimmed hitem.trimmed,
      Clause.readSignature_signature hname hparams]
  refine parseWith_keyword "DEF" .define rfl rfl rfl rfl
    (.slot hitem.not_allBlank rfl (lacks_equals_signature hname hparams) rfl
      (.last (not_allBlank_expr hbody) rfl)) ?_
  exact bind_eq_ok.mpr ⟨_, hsignature, bind_eq_ok.mpr ⟨_, readExpr_captured hbody, rfl⟩⟩

theorem parseWith_dim {arrays : List Element} (hne : arrays ≠ [])
    (h : ∀ a ∈ arrays, a.Writable w) :
    parseWith block ((Statement.dim arrays).render w) = .ok (.dim arrays) := by
  have hitems : ∀ u ∈ arrays.map (Element.render w), Text.IsItem u := by
    simpa using fun a ha => Clause.isItem_element (h a ha)
  have hne' : arrays.map (Element.render w) ≠ [] := by simpa using hne
  refine parseWith_keyword "DIM" .dim rfl rfl rfl rfl
    (.last (Text.not_allBlank_commas hitems hne') (Slot.convert_texts "arrays" hitems hne')) ?_
  exact bind_eq_ok.mpr ⟨_, mapM_captured fun a ha => Clause.readArray_render (h a ha), rfl⟩

theorem parseWith_forLoop {var : String} {first limit step : Expr} (hvar : isFree var = true)
    (hfirst : w.Spells first) (hlimit : w.Spells limit) (hstep : w.Spells step) :
    parseWith block ((Statement.forLoop var first limit step).render w) =
      .ok (.forLoop var first limit step) := by
  have hname : Clause.readName (String.ofList (Text.trim var.toList)).toList = .ok var := by
    rw [String.toList_ofList, Text.trim_of_trimmed (Text.IsItem.free hvar).trimmed,
      Clause.readName_free hvar]
  refine parseWith_keyword "FOR" .forStep rfl rfl rfl rfl
    (.slot (Text.IsItem.free hvar).not_allBlank rfl
      (lacks_equals_word (Text.isWordChar_of_isFree hvar)) rfl
      (.slot (not_allBlank_expr hfirst) rfl (hfirst.lacks (by simp [Text.inner])) rfl
        (.slot (not_allBlank_expr hlimit) rfl (hlimit.lacks (by simp [Text.inner])) rfl
          (.last (not_allBlank_expr hstep) rfl)))) ?_
  exact bind_eq_ok.mpr ⟨_, hname, bind_eq_ok.mpr ⟨_, readExpr_captured hfirst,
    bind_eq_ok.mpr ⟨_, readExpr_captured hlimit,
      bind_eq_ok.mpr ⟨_, readExpr_captured hstep, rfl⟩⟩⟩⟩

theorem parseWith_gosub {line : Nat} (h : IsLineNumber line) :
    parseWith block ((Statement.gosub line).render w) = .ok (.gosub line) := by
  refine parseWith_keyword "GOSUB" .gosub rfl rfl rfl rfl
    (.last (Text.IsItem.decimal line).not_allBlank (Slot.convert_int "line" h)) ?_
  exact bind_eq_ok.mpr ⟨_, Clause.readLine_eq h, rfl⟩

theorem parseWith_goto {line : Nat} (h : IsLineNumber line) :
    parseWith block ((Statement.goto line).render w) = .ok (.goto line) := by
  refine parseWith_keyword "GOTO" .goto rfl rfl rfl rfl
    (.last (Text.IsItem.decimal line).not_allBlank (Slot.convert_int "line" h)) ?_
  exact bind_eq_ok.mpr ⟨_, Clause.readLine_eq h, rfl⟩

theorem parseWith_input {prompt : Option String} {targets : List Target}
    (hprompt : ∀ p ∈ prompt, '"' ∉ p.toList) (hne : targets ≠ [])
    (htargets : ∀ t ∈ targets, t.Writable w) :
    parseWith block ((Statement.input prompt targets).render w) = .ok (.input prompt targets) := by
  have htrimmed := Clause.trimmed_inputList hprompt hne htargets
  refine parseWith_keyword "INPUT" .input rfl rfl rfl rfl
    (.last (Text.not_allBlank_of_trimmed htrimmed.1 htrimmed.2) rfl) ?_
  refine bind_eq_ok.mpr ⟨(prompt, targets), ?_, rfl⟩
  rw [String.toList_ofList, Text.trim_of_trimmed htrimmed.1]
  exact Clause.readInputList_inputList hprompt hne htargets

theorem parseWith_letTo {target : Target} {e : Expr} (htarget : target.Writable w)
    (hequals : target.NoEquals w) (he : w.Spells e) :
    parseWith block ((Statement.letTo target e).render w) = .ok (.letTo target e) := by
  refine parseWith_keyword "LET" .letTo rfl rfl rfl rfl
    (.slot (Clause.isItem_target htarget).not_allBlank rfl (lacks_equals_target htarget hequals) rfl
      (.last (not_allBlank_expr he) rfl)) ?_
  exact bind_eq_ok.mpr ⟨_, readTarget_captured _ htarget,
    bind_eq_ok.mpr ⟨_, readExpr_captured he, rfl⟩⟩

theorem parseWith_next {vars : List String} (h : ∀ v ∈ vars, isFree v = true) :
    parseWith block ((Statement.next vars).render w) = .ok (.next vars) := by
  cases vars with
  | nil => rfl
  | cons v vars =>
    have hitems : ∀ u ∈ (v :: vars).map String.toList, Text.IsItem u := by
      simpa using fun v hv => Text.IsItem.free (h v hv)
    refine parseWith_keyword "NEXT" .next rfl rfl rfl rfl (.last
      (Text.not_allBlank_commas hitems (by simp)) (Slot.convert_texts "vars" hitems (by simp))) ?_
    exact bind_eq_ok.mpr ⟨_, mapM_captured fun v hv => Clause.readName_free (h v hv), rfl⟩

theorem parseWith_onGosub {index : Expr} {lines : List Nat} (hindex : w.Spells index)
    (hne : lines ≠ []) (hlines : ∀ n ∈ lines, IsLineNumber n) :
    parseWith block ((Statement.onGosub index lines).render w) = .ok (.onGosub index lines) := by
  refine parseWith_keyword "ON" .onGosub rfl rfl rfl rfl
    (.slot (not_allBlank_expr hindex) rfl (hindex.lacks (by simp [Text.inner])) rfl
      (.last (not_allBlank_lines hne) (Slot.convert_ints "lines" hlines hne))) ?_
  exact bind_eq_ok.mpr ⟨_, readExpr_captured hindex, bind_eq_ok.mpr ⟨_, mapM_lines hlines, rfl⟩⟩

/-- The form with GOSUB is tried before the one with GOTO, and does not fit. -/
theorem parseWith_onGoto {index : Expr} {lines : List Nat} (hindex : w.Spells index)
    (hne : lines ≠ []) (hlines : ∀ n ∈ lines, IsLineNumber n) :
    parseWith block ((Statement.onGoto index lines).render w) = .ok (.onGoto index lines) := by
  have hlead : Leads "ON".toList
      (words ["ON".toList, w.expr index, "GOTO".toList, commas (lines.map decimal)]) :=
    (Canonical.onGoto hindex hne hlines).leads
  have hforms : Pattern.candidates Form.pattern Form.all "ON".toList =
      [.onGosub] ++ .onGoto :: [.assign] := rfl
  have hfilled : Pattern.Filled Form.onGoto.parts
      ["ON".toList, w.expr index, "GOTO".toList, commas (lines.map decimal)]
      [.text (String.ofList (Text.trim (w.expr index))), .ints (lines.map Int.ofNat)] :=
    .literal rfl (.slot (not_allBlank_expr hindex) rfl (hindex.lacks (by simp [Text.inner])) rfl
      (.last (not_allBlank_lines hne) (Slot.convert_ints "lines" hlines hne)))
  have hgosub : Pattern.Unfilled Form.onGosub.parts
      ["ON".toList, w.expr index, "GOTO".toList, commas (lines.map decimal)] := by
    have hinner : "GOSUB" ∈ Text.inner := by simp [Text.inner]
    refine .literal rfl (.endless rfl (lacks_of_free hinner (.spaced (by decide) ⟨?_, ?_, ?_⟩)))
    · exact free_expr hinner hindex
    · exact .word (List.all_eq_true.mp rfl) (by simp)
    · exact free_commas (by simpa using fun n _ => free_decimal n)
  rw [render_onGoto,
    parseWith_of_filled block [.onGosub] hlead hforms (by simpa using hgosub) hfilled (by simp)]
  exact bind_eq_ok.mpr ⟨_, readExpr_captured hindex, bind_eq_ok.mpr ⟨_, mapM_lines hlines, rfl⟩⟩

theorem parseWith_print {items : List PrintItem} (h : PrintItem.Separate w items) :
    parseWith block ((Statement.print items).render w) = .ok (.print items) := by
  cases items with
  | nil => rfl
  | cons item items =>
    refine parseWith_keyword "PRINT" .print rfl rfl rfl rfl (.last h.not_allBlank rfl) ?_
    refine bind_eq_ok.mpr ⟨_, ?_, rfl⟩
    rw [String.toList_ofList]
    exact h.readPrintItems_render

theorem parseWith_read {targets : List Target} (hne : targets ≠ [])
    (h : ∀ t ∈ targets, t.Writable w) :
    parseWith block ((Statement.read targets).render w) = .ok (.read targets) := by
  have hitems : ∀ u ∈ targets.map (Target.render w), Text.IsItem u := by
    simpa using fun t ht => Clause.isItem_target (h t ht)
  have hne' : targets.map (Target.render w) ≠ [] := by simpa using hne
  refine parseWith_keyword "READ" .read rfl rfl rfl rfl
    (.last (Text.not_allBlank_commas hitems hne') (Slot.convert_texts "targets" hitems hne')) ?_
  exact bind_eq_ok.mpr ⟨_, mapM_captured fun t ht => Clause.readTarget_render (h t ht), rfl⟩

theorem parseWith_remark {text : String} (h : Text.trim text.toList = text.toList) :
    parseWith block ((Statement.remark text).render w) = .ok (.remark text) := by
  rw [render_remark]
  by_cases hempty : text = ""
  · subst hempty
    rfl
  · rw [if_neg (by simpa using hempty)]
    have hblank : ¬ Text.allBlank text.toList = true := by
      rw [← Text.trim_eq_nil, h]
      simpa using hempty
    have htext : String.ofList (Text.trim text.toList) = text := by
      rw [h, String.ofList_toList]
    refine parseWith_keyword "REM" .remark rfl rfl rfl rfl (.last hblank rfl) ?_
    exact congrArg (Except.ok ∘ Statement.remark) htext

/-- Only assignments are tried on a free name. -/
theorem candidates_free {name : String} (h : isFree name = true) :
    Pattern.candidates Form.pattern Form.all name.toList = [.assign] := by
  have hreserved : ∀ f : Form, ∀ literal ∈ f.pattern.leading?, literal ∈ Text.reserved := by
    intro f
    cases f with
    | assign => rintro literal ⟨⟩
    | _ =>
      rintro literal ⟨⟩
      simp [Text.reserved]
  have hstart : Text.trimStart name.toList = name.toList :=
    Text.trimStart_eq (Text.IsItem.free h).trimmed.1
  have hnone : Form.all.filter (fun f => f.pattern.leading?.any fun literal =>
      (Text.dropLeading? literal.toList name.toList).isSome) = [] := by
    rw [List.filter_eq_nil_iff]
    intro f _ hf
    cases hliteral : f.pattern.leading? with
    | none =>
      rw [hliteral] at hf
      cases hf
    | some literal =>
      rw [hliteral, Option.any_some] at hf
      obtain ⟨rest, hrest⟩ := Option.isSome_iff_exists.mp hf
      refine Text.not_prefix_of_isFree h (hreserved f literal hliteral) ⟨rest, ?_⟩
      exact (Text.dropLeading?_eq_some.mp hrest).symm
  simp only [Pattern.candidates, hstart, hnone, List.nil_append]
  rfl

theorem parseWith_assign {var : String} {e : Expr} (hvar : isFree var = true) (he : w.Spells e) :
    parseWith block ((Statement.assign var e).render w) = .ok (.assign var e) := by
  have htarget : Clause.readTarget (String.ofList (Text.trim var.toList)).toList =
      .ok (.scalar var) := readTarget_captured (w := w) (.scalar var) hvar
  have hlead : Leads var.toList (words [var.toList, ['='], w.expr e]) :=
    (Canonical.assign hvar he).leads
  have hfilled : Pattern.Filled Form.assign.parts [var.toList, ['='], w.expr e]
      [.text (String.ofList (Text.trim var.toList)),
        .text (String.ofList (Text.trim (w.expr e)))] :=
    .slot (Text.IsItem.free hvar).not_allBlank rfl
      (lacks_equals_word (Text.isWordChar_of_isFree hvar)) rfl (.last (not_allBlank_expr he) rfl)
  rw [render_assign,
    parseWith_of_filled block [] hlead (candidates_free hvar) (by simp) hfilled (by simp)]
  exact bind_eq_ok.mpr ⟨_, readExpr_captured he,
    bind_eq_ok.mpr ⟨.scalar var, htarget, rfl⟩⟩

theorem parseWith_assignElement {target : Element} {e : Expr} (htarget : target.Writable w)
    (hequals : target.NoEquals w) (he : w.Spells e) :
    parseWith block ((Statement.assignElement target e).render w) =
      .ok (.assignElement target e) := by
  have hread : Clause.readTarget (String.ofList (Text.trim (target.render w))).toList =
      .ok (.element target) := readTarget_captured (.element target) htarget
  have hlead : Leads target.name.toList (words [target.render w, ['='], w.expr e]) :=
    (Canonical.assignElement htarget hequals he).leads
  have hfilled : Pattern.Filled Form.assign.parts [target.render w, ['='], w.expr e]
      [.text (String.ofList (Text.trim (target.render w))),
        .text (String.ofList (Text.trim (w.expr e)))] :=
    .slot (Clause.isItem_element htarget).not_allBlank rfl (lacks_equals_element htarget hequals)
      rfl (.last (not_allBlank_expr he) rfl)
  rw [render_assignElement,
    parseWith_of_filled block [] hlead (candidates_free htarget.name) (by simp) hfilled (by simp)]
  exact bind_eq_ok.mpr ⟨_, readExpr_captured he,
    bind_eq_ok.mpr ⟨.element target, hread, rfl⟩⟩

end

end Statement

end ClassicBasic
