import ClassicBasic.Proofs.Statement.Written

/-!
# Names that start with a keyword

A keyword at the start of a form need not be a word of its own, so the forms of a keyword are tried
on an assignment to any name that starts with it. Whether one of them takes it depends on what is
left (`Statement.takesOver`): DATA, DEF, DIM, LET, NEXT and READ take any such assignment, FOR, IF
and ON only some in which a keyword from inside their forms stands as a word, and the others none.

`parse_assignment_iff` says that an assignment is one exactly if no keyword takes it over. The forms
see the text `rest = e`, where `rest` is what stands behind the keyword (`Text.Equates`): up to the
equals sign it is a single word, so a keyword is found in it where it is found in `e`, unless the
word is that keyword.
-/

namespace ClassicBasic

namespace Text

/-! ## Cutting at a word -/

/-- What stands in front of and behind the first `needle` of `cs` outside quotes. -/
def cutOutsideQuotes? (needle cs : List Char) : Option (List Char × List Char) :=
  (findOutsideQuotes? needle cs).map fun r => (r.1, r.2.drop needle.length)

/-- `text` is the word `rest`, an equals sign and `e`, with or without blanks around the sign. -/
structure Equates (rest e text : List Char) : Prop where
  isWordChar : ∀ c ∈ rest, isWordChar c = true
  ne_nil : rest ≠ []
  trimmed : Trimmed e
  some_expr : e ≠ []
  some_blanks : ∃ blanks ws, allBlank blanks = true ∧ allBlank ws = true ∧
    text = rest ++ (blanks ++ '=' :: (ws ++ e))

section
variable {needle rest e text a b : List Char}

theorem cutOutsideQuotes?_eq_some :
    cutOutsideQuotes? needle text = some (a, b) ↔
      findOutsideQuotes? needle text = some (a, needle ++ b) := by
  unfold cutOutsideQuotes?
  rw [Option.map_eq_some_iff]
  constructor
  · rintro ⟨⟨a', found⟩, hfound, heq⟩
    obtain ⟨-, behind, rfl⟩ := findOutsideQuotes?_spec hfound
    simp only [List.drop_left, Prod.mk.injEq] at heq
    obtain ⟨rfl, rfl⟩ := heq
    exact hfound
  · intro h
    exact ⟨_, h, by simp⟩

namespace Equates

/-- What stands between the word and `e` touches no word. -/
theorem marks {blanks ws : List Char} (hblanks : allBlank blanks = true)
    (hws : allBlank ws = true) :
    ∀ c ∈ blanks ++ '=' :: ws, Text.isWordChar c = false ∧ c ≠ '"' := by
  have hblank {c : Char} {u : List Char} (hu : allBlank u = true) (hc : c ∈ u) :
      Text.isWordChar c = false ∧ c ≠ '"' := by
    have hc := List.all_eq_true.mp hu c hc
    exact ⟨not_isWordChar_of_isBlank hc, ne_quote_of_isBlank hc⟩
  intro c hc
  rcases List.mem_append.mp hc with hc | hc
  · exact hblank hblanks hc
  · rcases List.mem_cons.mp hc with rfl | hc
    · decide
    · exact hblank hws hc

theorem isItem (h : Equates rest e text) : IsItem rest := .word h.isWordChar h.ne_nil

theorem trimmed_text (h : Equates rest e text) : Trimmed text := by
  obtain ⟨blanks, ws, -, -, rfl⟩ := h.some_blanks
  constructor
  · intro c hc
    rw [List.head?_append, Option.or_of_isSome (by simpa using h.ne_nil)] at hc
    exact h.isItem.trimmed.1 c hc
  · intro c hc
    rw [show rest ++ (blanks ++ '=' :: (ws ++ e)) = rest ++ (blanks ++ '=' :: ws) ++ e by simp,
      List.getLast?_append, Option.or_of_isSome (by simpa using h.some_expr)] at hc
    exact h.trimmed.2 c hc

theorem not_allBlank (h : Equates rest e text) : ¬ allBlank text = true := by
  obtain ⟨blanks, ws, -, -, rfl⟩ := h.some_blanks
  rw [allBlank_append, Bool.and_eq_true, not_and]
  exact fun hrest => absurd hrest h.isItem.not_allBlank

theorem not_allBlank_expr (h : Equates rest e text) : ¬ allBlank e = true := by
  rw [← trim_eq_nil, trim_of_trimmed h.trimmed]
  exact h.some_expr

/-- The text is no number of a line. -/
theorem int?_eq_none (h : Equates rest e text) : Numeral.int? (trim text) = none := by
  obtain ⟨blanks, ws, -, -, heq⟩ := h.some_blanks
  rw [trim_of_trimmed h.trimmed_text, Option.eq_none_iff_forall_ne_some]
  intro n hn
  have hequals := Numeral.int?_chars hn '=' (by simp [heq])
  exact absurd hequals (by decide)

/-- The first equals sign is the one behind the word. -/
theorem find_equals (h : Equates rest e text) :
    ∃ blanks ws, allBlank blanks = true ∧ allBlank ws = true ∧
      findOutsideQuotes? ['='] text = some (rest ++ blanks, ['='] ++ (ws ++ e)) := by
  obtain ⟨blanks, ws, hblanks, hws, rfl⟩ := h.some_blanks
  have hlacks : Lacks ['='] (rest ++ blanks) := by
    refine .of_notMem (List.mem_singleton_self '=') (fun hmem => ?_) fun hmem => ?_
    all_goals
      rcases List.mem_append.mp hmem with hmem | hmem
      · exact absurd (h.isWordChar _ hmem) (by decide)
      · exact absurd (List.all_eq_true.mp hblanks _ hmem) (by decide)
  have hsign : findFrom? ['='] ((rest ++ blanks).getLast?.or none) false ('=' :: (ws ++ e)) =
      some ([], '=' :: (ws ++ e)) := by
    simp [findFrom?, occursAt_equals]
  refine ⟨blanks, ws, hblanks, hws, ?_⟩
  rw [← List.append_assoc, findOutsideQuotes?, if_neg (by simp),
    findFrom?_append_of fun s _ hs before => ?_, hlacks.absent, hlacks.closed]
  · simp only [hsign, Option.map_some, List.append_nil, List.singleton_append]
  · obtain ⟨c, s, rfl⟩ := List.exists_cons_of_ne_nil hs
    rw [List.cons_append, occursAt_equals, occursAt_equals]

/-- A keyword is found in `e`, unless it is the word. -/
theorem cut_of_ne (h : Equates rest e text) (hneedle : IsKeyword needle) (hne : rest ≠ needle) :
    ∃ front, ¬ allBlank front = true ∧
      cutOutsideQuotes? needle text =
        (cutOutsideQuotes? needle e).map fun r => (front ++ r.1, r.2) := by
  obtain ⟨blanks, ws, hblanks, hws, rfl⟩ := h.some_blanks
  have hmarks := marks hblanks hws
  have hlast : ∀ c ∈ (rest ++ (blanks ++ '=' :: ws)).getLast?, Text.isWordChar c = false := by
    intro c hc
    rw [List.getLast?_append, Option.or_of_isSome (by simp)] at hc
    exact (hmarks c (List.mem_of_getLast? hc)).1
  have hlacks : Lacks needle (rest ++ (blanks ++ '=' :: ws)) := by
    obtain ⟨k, hk⟩ := List.exists_mem_of_ne_nil needle hneedle.ne_nil
    refine .append_apart hneedle (.of_head? fun c hc => ?_) (.word hneedle h.isWordChar hne)
      (.of_notMem hk (fun hmem => ?_) fun hmem => (hmarks _ hmem).2 rfl)
    · exact (hmarks c (List.mem_of_mem_head? hc)).1
    · have hword := (hmarks k hmem).1
      rw [isWordChar_of_isAlpha (hneedle.isAlpha k hk)] at hword
      cases hword
  refine ⟨rest ++ (blanks ++ '=' :: ws), ?_, ?_⟩
  · rw [allBlank_append, Bool.and_eq_true, not_and]
    exact fun hrest => absurd hrest h.isItem.not_allBlank
  · have htext : rest ++ (blanks ++ '=' :: (ws ++ e)) =
        rest ++ (blanks ++ '=' :: ws) ++ e := by simp
    have hword : ((rest ++ (blanks ++ '=' :: ws)).getLast?.or none).any Text.isWordChar =
        (none : Option Char).any Text.isWordChar := by
      rw [Option.or_none, Option.any_none, Option.any_eq_false]
      exact fun c hc => by rw [hlast c hc]
    rw [cutOutsideQuotes?, cutOutsideQuotes?, findOutsideQuotes?_eq hneedle.ne_nil,
      findOutsideQuotes?_eq hneedle.ne_nil, htext, findFrom?_append_of fun s hs hne before => ?_,
      hlacks.absent, hlacks.closed, findFrom?_congr hword]
    · simp [Function.comp_def]
    · refine occursAt_append_apart hneedle hne (.of_getLast? fun c hc => hlast c ?_) before
      obtain ⟨u, hu⟩ := hs
      rw [← hu, List.getLast?_append, hc]
      rfl

/-- A keyword that is the word is found at once. -/
theorem cut_self (h : Equates needle e text) (hneedle : IsKeyword needle) :
    ∃ behind, cutOutsideQuotes? needle text = some ([], behind) := by
  obtain ⟨blanks, ws, hblanks, hws, rfl⟩ := h.some_blanks
  refine ⟨blanks ++ '=' :: (ws ++ e), ?_⟩
  obtain ⟨k, ks, hk⟩ := List.exists_cons_of_ne_nil hneedle.ne_nil
  have hoccurs : occursAt needle none (needle ++ (blanks ++ '=' :: (ws ++ e))) = true := by
    refine occursAt_iff.mpr ⟨_, rfl, ?_⟩
    have hhead : (blanks ++ '=' :: (ws ++ e)).head?.any Text.isWordChar = false := by
      cases blanks with
      | nil => rfl
      | cons b blanks => exact (marks hblanks hws b List.mem_cons_self).1
    simp only [standsAlone, hhead, Option.any_none, Bool.or_self, Bool.not_false, Bool.or_true]
  have hquote : k ≠ '"' := by
    rintro rfl
    exact absurd (hneedle.isAlpha '"' (by simp [hk])) (by decide)
  rw [cutOutsideQuotes?_eq_some, findOutsideQuotes?_eq hneedle.ne_nil]
  rw [hk, List.cons_append] at hoccurs ⊢
  simp [findFrom?, hquote, hoccurs]

end Equates

end

end Text

/-! ## What a keyword takes over -/

namespace Statement

open Text (cutOutsideQuotes?)

/-- The word `inner` is not `rest`, and `p` holds behind the first one of `e`. -/
def behind (inner : String) (rest e : List Char) (p : List Char → Bool) : Bool :=
  rest != inner.toList && (cutOutsideQuotes? inner.toList e).any fun r => p r.2

/-- Whether `cs` is numbers of lines between commas. -/
def areLines (cs : List Char) : Bool :=
  !Text.allBlank cs && (Text.splitOutsideBrackets ',' (Text.trim cs)).all fun piece =>
    (Numeral.int? (Text.trim piece)).isSome

/-- Whether a form of `keyword` takes the assignment of `e` to the name that is `keyword` followed
by `rest`. -/
def takesOver (keyword : String) (rest e : List Char) : Bool :=
  match keyword with
  | "DATA" | "DEF" | "DIM" | "LET" | "NEXT" | "READ" => true
  | "FOR" =>
    (cutOutsideQuotes? "TO".toList e).any fun r => !Text.allBlank r.1 && !Text.allBlank r.2
  | "IF" =>
    behind "THEN" rest e (fun block => !Text.allBlank block) ||
      behind "GOTO" rest e fun line => (Numeral.int? (Text.trim line)).isSome
  | "ON" => behind "GOSUB" rest e areLines || behind "GOTO" rest e areLines
  | _ => false

end Statement

/-! ## What fits the rest of a form -/

namespace Pattern

open Text (cutOutsideQuotes? Equates IsKeyword)
open Statement (behind areLines)

section
variable {parts : List Part} {cs rest e text : List Char} {literal : String}

theorem not_allBlank_of_fits? {s : Slot} (h : (fits? (.slot s :: parts) cs).isSome = true) :
    ¬ Text.allBlank cs = true := by
  intro hblank
  obtain ⟨captures, hfits⟩ := Option.isSome_iff_exists.mp h
  obtain ⟨span, behind, -, -, hspan, hne, -⟩ := fits?_slot hfits
  have hnil : Text.trimStart cs = [] :=
    List.dropWhile_eq_nil_iff.mpr (by simpa [Text.allBlank] using hblank)
  rw [hnil] at hspan
  obtain ⟨rfl, -⟩ := List.append_eq_nil_iff.mp (capturedBy_eq hspan).symm
  exact hne rfl

/-- A slot in front of a word takes what the word cuts off. -/
theorem isSome_fits?_text (name : String) (hliteral : Text.isNeedle literal.toList = true) :
    (fits? (Form.text name :: .literal literal :: parts) cs).isSome = true ↔
      ∃ before behind,
        cutOutsideQuotes? literal.toList (Text.trimStart cs) = some (before, behind) ∧
        ¬ Text.allBlank before = true ∧ (fits? parts behind).isSome = true := by
  constructor
  · intro h
    obtain ⟨captures, hfits⟩ := Option.isSome_iff_exists.mp h
    obtain ⟨before, found, -, captures', hspan, hne, -, hbehind, -⟩ := fits?_slot hfits
    rw [capturedBy] at hspan
    cases hfind : Text.findOutsideQuotes? literal.toList (Text.trimStart cs) with
    | none =>
      rw [hfind] at hspan
      cases hspan
    | some r =>
      rw [hfind] at hspan
      cases hspan
      obtain ⟨-, behind, rfl⟩ := Text.findOutsideQuotes?_spec hfind
      rw [fits?_literal_eq (trimStart_literal hliteral behind)] at hbehind
      exact ⟨before, behind, Text.cutOutsideQuotes?_eq_some.mpr hfind,
        fun hblank => hne (Text.trim_eq_nil.mpr hblank), Option.isSome_of_eq_some hbehind⟩
  · rintro ⟨before, behind, hcut, hbefore, hbehind⟩
    have hspan : capturedBy (.literal literal :: parts) (Text.trimStart cs) =
        .ok (before, literal.toList ++ behind) := by
      rw [capturedBy, Text.cutOutsideQuotes?_eq_some.mp hcut]
    rw [fits?_text_eq name hspan, if_neg hbefore,
      fits?_literal_eq (trimStart_literal hliteral behind), Option.isSome_map]
    exact hbehind

/-- A last slot takes all that is left. -/
theorem isSome_fits?_last (s : Slot) (cs : List Char) : (fits? [.slot s] cs).isSome =
    (!Text.allBlank cs && (s.convert (Text.trim cs)).toOption.isSome) := by
  rw [← Text.isEmpty_trim, ← Text.trim_trimStart cs]
  cases htrim : Text.trim (Text.trimStart cs) with
  | nil => simp [fits?, capturedBy, Except.toOption, htrim]
  | cons c trimmed =>
    cases hconvert : s.convert (c :: trimmed) with
    | ok capture => simp [fits?, capturedBy, Except.toOption, htrim, hconvert, Text.allBlank]
    | error e => simp [fits?, capturedBy, Except.toOption, htrim, hconvert]

theorem isSome_fits?_lastText (name : String) (cs : List Char) :
    (fits? [Form.text name] cs).isSome = !Text.allBlank cs := by
  rw [Form.text, isSome_fits?_last]
  exact Bool.and_true _

theorem isSome_fits?_texts (name : String) (cs : List Char) :
    (fits? [Form.texts name] cs).isSome = !Text.allBlank cs := by
  rw [Form.texts, isSome_fits?_last]
  exact Bool.and_true _

theorem isSome_fits?_int (name : String) (cs : List Char) :
    (fits? [Form.int name] cs).isSome = (Numeral.int? (Text.trim cs)).isSome := by
  rw [Form.int, isSome_fits?_last, ← Text.isEmpty_trim, Slot.convert, Slot.toInt]
  cases htrim : Text.trim cs with
  | nil => rfl
  | cons c trimmed => cases Numeral.int? (c :: trimmed) <;> rfl

/-- A slot in front of the equals sign takes the word. -/
theorem fits?_equals (h : Equates rest e text) (name : String) (parts : List Part) :
    fits? (Form.text name :: .literal "=" :: parts) text =
      (fits? parts e).map (.text (String.ofList rest) :: ·) := by
  obtain ⟨blanks, ws, hblanks, hws, hfind⟩ := h.find_equals
  have hspan : capturedBy (.literal "=" :: parts) (Text.trimStart text) =
      .ok (rest ++ blanks, "=".toList ++ (ws ++ e)) := by
    have hequals : "=".toList = ['='] := rfl
    rw [capturedBy, Text.trimStart_of_trimmed h.trimmed_text, hequals, hfind]
  have hblank : Text.allBlank (rest ++ blanks) = false := by
    rw [Text.allBlank_append, Bool.eq_false_iff.mpr h.isItem.not_allBlank, Bool.false_and]
  have htrim : Text.trim (rest ++ blanks) = rest := by
    rw [Text.trim_append_right hblanks, Text.trim_of_trimmed h.isItem.trimmed]
  rw [fits?_text_eq name hspan, hblank, htrim, fits?_literal_eq (trimStart_literal rfl (ws ++ e)),
    fits?_blanks parts e hws]
  rfl

/-- A keyword inside a form has to be found in `e`. -/
theorem isSome_fits?_inner (h : Equates rest e text) (hliteral : IsKeyword literal.toList)
    (name : String) (parts : List Part) :
    (fits? (Form.text name :: .literal literal :: parts) text).isSome =
      behind literal rest e fun cs => (fits? parts cs).isSome := by
  rw [Bool.eq_iff_iff, isSome_fits?_text name (Text.isNeedle_iff.mpr (.inr hliteral)),
    Text.trimStart_of_trimmed h.trimmed_text, behind]
  by_cases hrest : rest = literal.toList
  · subst hrest
    obtain ⟨after, hcut⟩ := h.cut_self hliteral
    simp [hcut, Text.allBlank]
  · obtain ⟨front, hfront, hcut⟩ := h.cut_of_ne hliteral hrest
    have hblank (u : List Char) : ¬ Text.allBlank (front ++ u) = true := by
      rw [Text.allBlank_append, Bool.and_eq_true, not_and]
      exact fun h => absurd h hfront
    rw [hcut]
    cases cutOutsideQuotes? literal.toList e with
    | none => simp
    | some r => simp [hrest, hblank]

theorem isSome_mapM {ε α β : Type} (f : α → Except ε β) (as : List α) :
    (as.mapM f).toOption.isSome = as.all fun a => (f a).toOption.isSome := by
  induction as with
  | nil => rfl
  | cons a as ih =>
    rw [List.mapM_cons, toOption_bind, List.all_cons, ← ih]
    cases f a with
    | error e => rfl
    | ok b => cases as.mapM f <;> rfl

theorem isSome_fits?_ints (name : String) (cs : List Char) :
    (fits? [Form.ints name] cs).isSome = areLines cs := by
  have hint (s : Slot) (u : List Char) :
      (s.toInt u).toOption.isSome = (Numeral.int? u).isSome := by
    rw [Slot.toInt]
    cases Numeral.int? u <;> rfl
  have hconvert (s : Slot) (pieces : List (List Char)) :
      (pieces.mapM s.toInt >>= fun ns => pure (Capture.ints ns)).toOption.isSome =
        pieces.all fun piece => (Numeral.int? piece).isSome := by
    rw [toOption_bind, Option.isSome_bind]
    simp only [← hint s, ← isSome_mapM]
    cases pieces.mapM s.toInt <;> rfl
  rw [Form.ints, isSome_fits?_last, areLines]
  refine congrArg _ ((hconvert _ _).trans ?_)
  rw [List.all_map]
  rfl

end

end Pattern

/-! ## The forms of a keyword -/

namespace Statement

/-- The words that forms start with. -/
def keywords : List String := Form.all.filterMap fun f => f.pattern.leading?

/-- The keywords that need no space behind them. -/
def spaceless : List String := ["PRINT", "INPUT", "REM"]

theorem behind_mono {inner : String} {rest e : List Char} {p q : List Char → Bool}
    (hpq : ∀ cs, p cs = true → q cs = true) (h : behind inner rest e p = true) :
    behind inner rest e q = true := by
  rw [behind, Bool.and_eq_true] at h ⊢
  refine ⟨h.1, ?_⟩
  cases hcut : Text.cutOutsideQuotes? inner.toList e with
  | none => simp [hcut] at h
  | some r =>
    rw [hcut] at h
    exact hpq r.2 h.2

end Statement

namespace Form

open Text (Equates)
open Statement (takesOver behind)

variable {rest e text : List Char} {keyword : String} {f : Form}

/-- Behind its keyword a form is compared with the rest of the text. -/
theorem fits?_keyword {parts : List Part} (hkeyword : Text.isNeedle keyword.toList = true) :
    Pattern.fits? (.literal keyword :: parts) (keyword.toList ++ text) = Pattern.fits? parts text :=
  Pattern.fits?_literal_eq (Pattern.trimStart_literal hkeyword text)

theorem isSome_fits?_for (h : Equates rest e text) (parts : List Part) :
    (Pattern.fits? (.literal "FOR" :: Form.text "var" :: .literal "=" :: Form.text "init" ::
        .literal "TO" :: parts) ("FOR".toList ++ text)).isSome =
      (Text.cutOutsideQuotes? "TO".toList e).any fun r =>
        !Text.allBlank r.1 && (Pattern.fits? parts r.2).isSome := by
  rw [fits?_keyword rfl, Pattern.fits?_equals h, Option.isSome_map, Bool.eq_iff_iff,
    Pattern.isSome_fits?_text "init" rfl, Text.trimStart_of_trimmed h.trimmed]
  cases Text.cutOutsideQuotes? "TO".toList e with
  | none => simp
  | some r =>
    obtain ⟨first, limit⟩ := r
    simp

/-- A form with a second keyword inside. -/
theorem isSome_fits?_inside {inner name : String} {parts : List Part} (h : Equates rest e text)
    (hkeyword : Text.isNeedle keyword.toList = true) (hinner : inner ∈ Text.inner) :
    (Pattern.fits? (.literal keyword :: Form.text name :: .literal inner :: parts)
        (keyword.toList ++ text)).isSome =
      behind inner rest e fun cs => (Pattern.fits? parts cs).isSome := by
  rw [fits?_keyword hkeyword, Pattern.isSome_fits?_inner h (Text.inner_spec hinner).2.1]

/-- A form that fits takes the assignment over. -/
theorem takesOver_of_fits? (h : Equates rest e text) (hkeyword : f.pattern.leading? = some keyword)
    (hspaceless : keyword ∉ Statement.spaceless)
    (hfits : (Pattern.fits? f.parts (keyword.toList ++ text)).isSome = true) :
    takesOver keyword rest e = true := by
  have hblock {s : Slot} {parts : List Part} (cs : List Char)
      (hcs : (Pattern.fits? (.slot s :: parts) cs).isSome = true) : (!Text.allBlank cs) = true := by
    simpa using Pattern.not_allBlank_of_fits? hcs
  cases f with
  | data | define | dim | letTo | next | read =>
    cases hkeyword
    rfl
  | assign => cases hkeyword
  | print | printBare | input | remark | remarkBare =>
    cases hkeyword
    exact absurd (by decide) hspaceless
  | finish | nextBare | restore | returnFrom | stop =>
    cases hkeyword
    rw [parts, fits?_keyword rfl, Pattern.fits?, if_neg h.not_allBlank] at hfits
    cases hfits
  | gosub | goto =>
    cases hkeyword
    rw [parts, fits?_keyword rfl, Pattern.isSome_fits?_int, h.int?_eq_none] at hfits
    cases hfits
  | forLoop | forStep =>
    cases hkeyword
    rw [parts, isSome_fits?_for h, Option.any_eq_true] at hfits
    obtain ⟨r, hr, hfits⟩ := hfits
    rw [Bool.and_eq_true] at hfits
    rw [takesOver, hr, Option.any_some, hfits.1]
    exact hblock _ hfits.2
  | ifElseLine | ifElse | ifLine | ifThen =>
    cases hkeyword
    rw [parts, isSome_fits?_inside h rfl (by decide)] at hfits
    rw [takesOver, Statement.behind_mono hblock hfits, Bool.true_or]
  | ifGoto =>
    cases hkeyword
    rw [parts, isSome_fits?_inside h rfl (by decide)] at hfits
    simp only [Pattern.isSome_fits?_int] at hfits
    rw [takesOver, hfits, Bool.or_true]
  | onGosub =>
    cases hkeyword
    rw [parts, isSome_fits?_inside h rfl (by decide)] at hfits
    simp only [Pattern.isSome_fits?_ints] at hfits
    rw [takesOver, hfits, Bool.true_or]
  | onGoto =>
    cases hkeyword
    rw [parts, isSome_fits?_inside h rfl (by decide)] at hfits
    simp only [Pattern.isSome_fits?_ints] at hfits
    rw [takesOver, hfits, Bool.or_true]

theorem exists_fits?_of_takesOver (h : Equates rest e text)
    (htakes : takesOver keyword rest e = true) :
    ∃ f : Form, f.pattern.leading? = some keyword ∧
      (Pattern.fits? f.parts (keyword.toList ++ text)).isSome = true := by
  have htext : (!Text.allBlank text) = true := by simpa using h.not_allBlank
  have hequals (keyword name name' : String) (hkeyword : Text.isNeedle keyword.toList = true) :
      (Pattern.fits? [.literal keyword, Form.text name, .literal "=", Form.text name']
        (keyword.toList ++ text)).isSome = true := by
    rw [fits?_keyword hkeyword, Pattern.fits?_equals h, Option.isSome_map,
      Pattern.isSome_fits?_lastText]
    simpa using h.not_allBlank_expr
  have hlist (keyword name : String) (hkeyword : Text.isNeedle keyword.toList = true) :
      (Pattern.fits? [.literal keyword, Form.texts name] (keyword.toList ++ text)).isSome =
        true := by
    rw [fits?_keyword hkeyword, Pattern.isSome_fits?_texts, htext]
  unfold takesOver at htakes
  split at htakes
  · exact ⟨.data, rfl, hlist _ _ rfl⟩
  · exact ⟨.define, rfl, hequals _ _ _ rfl⟩
  · exact ⟨.dim, rfl, hlist _ _ rfl⟩
  · exact ⟨.letTo, rfl, hequals _ _ _ rfl⟩
  · exact ⟨.next, rfl, hlist _ _ rfl⟩
  · exact ⟨.read, rfl, hlist _ _ rfl⟩
  · refine ⟨.forLoop, rfl, ?_⟩
    rw [parts, isSome_fits?_for h]
    simpa only [Pattern.isSome_fits?_lastText] using htakes
  · rw [Bool.or_eq_true] at htakes
    rcases htakes with htakes | htakes
    · refine ⟨.ifThen, rfl, ?_⟩
      rw [parts, isSome_fits?_inside h rfl (by decide)]
      simpa only [Pattern.isSome_fits?_lastText] using htakes
    · refine ⟨.ifGoto, rfl, ?_⟩
      rw [parts, isSome_fits?_inside h rfl (by decide)]
      simpa only [Pattern.isSome_fits?_int] using htakes
  · rw [Bool.or_eq_true] at htakes
    rcases htakes with htakes | htakes
    · refine ⟨.onGosub, rfl, ?_⟩
      rw [parts, isSome_fits?_inside h rfl (by decide)]
      simpa only [Pattern.isSome_fits?_ints] using htakes
    · refine ⟨.onGoto, rfl, ?_⟩
      rw [parts, isSome_fits?_inside h rfl (by decide)]
      simpa only [Pattern.isSome_fits?_ints] using htakes
  · cases htakes

/-- A statement goes by the keyword of its form. -/
theorem build_keyword {block : List Char → Except ParseError Block} {captures : List Capture}
    {s : Statement} (h : f.build block captures = .ok s) :
    s.keyword = f.pattern.leading?.getD "ASSIGN" := by
  unfold Form.build at h
  split at h
  all_goals
    repeat (first | obtain ⟨_, -, h⟩ := bind_eq_ok.mp h | split at h)
  all_goals cases h
  all_goals rfl

theorem mem_keywords (h : f.pattern.leading? = some keyword) : keyword ∈ Statement.keywords :=
  List.mem_filterMap.mpr ⟨f, by cases f <;> decide, h⟩

end Form

/-! ## Assignments -/

namespace Statement

open Text (Equates Leads)

/-- No keyword starts another. -/
theorem keywords_apart : ∀ k ∈ keywords, ∀ k' ∈ keywords, k.toList <+: k'.toList → k = k' := by
  decide +kernel

/-- The forms of the keywords that a name starts with are tried in front of the assignment. -/
theorem exists_tried {name : List Char} (hname : ∀ c ∈ name.head?, Text.isBlank c = false) :
    ∃ tried, Pattern.candidates Form.pattern Form.all name = tried ++ [.assign] ∧
      ∀ f, f ∈ tried ↔ ∃ keyword rest,
        f.pattern.leading? = some keyword ∧ name = keyword.toList ++ rest := by
  refine ⟨_, rfl, fun f => ?_⟩
  rw [List.mem_filter, Text.trimStart_eq hname]
  cases hkeyword : f.pattern.leading? with
  | none => simp
  | some keyword =>
    have hall : f ∈ Form.all := by cases f <;> decide
    simp [hall, Option.isSome_iff_exists, Text.dropLeading?_eq_some]

/-- The first of the forms that fits. -/
theorem exists_first_fit {forms : List Form} {f : Form} {text : List Char} (hf : f ∈ forms)
    (hfits : (Pattern.fits? f.parts text).isSome = true) :
    ∃ before form after captures, forms = before ++ form :: after ∧
      (∀ g ∈ before, Pattern.fits? g.parts text = none) ∧
      Pattern.fits? form.parts text = some captures := by
  have hfound : (forms.find? fun g => (Pattern.fits? g.parts text).isSome).isSome = true :=
    List.find?_isSome.mpr ⟨f, hf, hfits⟩
  obtain ⟨form, hform⟩ := Option.isSome_iff_exists.mp hfound
  obtain ⟨hform, before, after, hsplit, hbefore⟩ := List.find?_eq_some_iff_append.mp hform
  obtain ⟨captures, hcaptures⟩ := Option.isSome_iff_exists.mp hform
  exact ⟨before, form, after, captures, hsplit, by simpa using hbefore, hcaptures⟩

section
variable {name : String} {blanks e : List Char} {ex : Expr}

/-- What is behind a keyword that the name of an assignment starts with. -/
theorem exists_equates (hname : Text.isName name.toList = true)
    (hblanks : Text.allBlank blanks = true) (he : ¬ Text.allBlank e = true) :
    ∃ tail, Text.trim (name.toList ++ (blanks ++ '=' :: e)) = name.toList ++ tail ∧
      ∀ lead rest, name.toList = lead ++ rest → rest ≠ [] →
        Equates rest (Text.trim e) (rest ++ tail) := by
  obtain ⟨c, hc, halpha⟩ := Text.head?_of_isName hname
  obtain ⟨u, hu⟩ := List.head?_eq_some_iff.mp hc
  have hblank : Text.isBlank c = false :=
    Text.not_isBlank_of_isWordChar (Text.isWordChar_of_isAlpha halpha)
  obtain ⟨ws, hws, htrim⟩ : ∃ ws, Text.allBlank ws = true ∧
      Text.trim (c :: (u ++ (blanks ++ ['='])) ++ e) =
        c :: (u ++ (blanks ++ ['='])) ++ (ws ++ Text.trim e) := Text.trim_append hblank he
  refine ⟨blanks ++ '=' :: (ws ++ Text.trim e), ?_, fun lead rest heq hne => ?_⟩
  · simpa [hu] using htrim
  · refine ⟨fun c hc => ?_, hne, Text.trimmed_trim e, fun h => he (Text.trim_eq_nil.mp h),
      blanks, ws, hblanks, hws, rfl⟩
    exact Text.isWordChar_of_isName hname c (by simp [heq, hc])

theorem rest_ne_nil {keyword : String} {rest : List Char} (hkeyword : name ∉ keywords)
    (h : keyword ∈ keywords) (heq : name.toList = keyword.toList ++ rest) : rest ≠ [] := by
  rintro rfl
  rw [List.append_nil, String.toList_inj] at heq
  exact hkeyword (heq ▸ h)

theorem mem_keywords_of_takesOver {keyword : String} {rest : List Char}
    (h : takesOver keyword rest e = true) : keyword ∈ keywords := by
  unfold takesOver at h
  split at h
  case h_10 => cases h
  all_goals decide

theorem leads_assignment (hname : Text.isName name.toList = true)
    (hblanks : Text.allBlank blanks = true) :
    Leads name.toList (name.toList ++ (blanks ++ '=' :: e)) := by
  obtain ⟨c, hc, -⟩ := Text.head?_of_isName hname
  refine ⟨fun h => by simp [h] at hc, Text.isWordChar_of_isName hname, _, rfl, ?_⟩
  cases blanks with
  | nil =>
    rintro d ⟨⟩
    rfl
  | cons b blanks =>
    rintro d ⟨⟩
    exact Text.not_isWordChar_of_isBlank (List.all_eq_true.mp hblanks _ List.mem_cons_self)

variable (hname : Text.isName name.toList = true) (hkeyword : name ∉ keywords)
  (hblanks : Text.allBlank blanks = true) (he : Expr.parse e = .ok ex)

include hname hkeyword hblanks he

/-- What no keyword takes over is an assignment. -/
theorem parse_assignment (hspaceless : ∀ keyword ∈ spaceless, ¬ keyword.toList <+: name.toList)
    (hfree : ∀ keyword rest, name.toList = keyword.toList ++ rest →
      takesOver keyword rest (Text.trim e) = false) :
    parse (name.toList ++ (blanks ++ '=' :: e)) = .ok (.assign name ex) := by
  have hblank := Expr.not_allBlank_of_parse he
  have hlead := leads_assignment (e := e) hname hblanks
  obtain ⟨tail, htrim, hequates⟩ := exists_equates hname hblanks hblank
  obtain ⟨tried, hforms, htried⟩ :=
    exists_tried fun c hc => hlead.not_isBlank (List.mem_of_mem_head? hc)
  have hbefore : ∀ f ∈ tried,
      Pattern.fits? f.parts (Text.trim (name.toList ++ (blanks ++ '=' :: e))) = none := by
    intro f hf
    obtain ⟨keyword, rest, hleading, heq⟩ := (htried f).mp hf
    have hrest := rest_ne_nil hkeyword (Form.mem_keywords hleading) heq
    rw [← Option.not_isSome_iff_eq_none, htrim, heq, List.append_assoc]
    intro hfits
    have htakes := Form.takesOver_of_fits? (hequates _ _ heq hrest) hleading
      (fun hmem => hspaceless keyword hmem ⟨rest, heq.symm⟩) hfits
    rw [hfree keyword rest heq] at htakes
    cases htakes
  have hname' : Equates name.toList (Text.trim e) (name.toList ++ tail) :=
    hequates [] _ rfl hlead.ne_nil
  have hfits : Pattern.fits? Form.assign.parts (Text.trim (name.toList ++ (blanks ++ '=' :: e))) =
      some [.text name, .text (String.ofList (Text.trim e))] := by
    rw [htrim, Form.parts, Pattern.fits?_equals hname', Pattern.fits?_text, Text.trim_trim,
      if_neg hname'.not_allBlank_expr, String.ofList_toList]
    rfl
  rw [parse_eq, parseWith_of_fits _ hlead hforms hbefore hfits]
  have hexpr : Clause.readExpr (String.ofList (Text.trim e)).toList = .ok ex := by
    rw [String.toList_ofList, Clause.readExpr, Expr.parse_trim he]
  exact bind_eq_ok.mpr ⟨ex, hexpr, bind_eq_ok.mpr ⟨_, Clause.readTarget_name hname, rfl⟩⟩

/-- What a keyword takes over is no other statement. -/
theorem keyword_of_takesOver {keyword : String} {rest : List Char}
    (heq : name.toList = keyword.toList ++ rest)
    (htakes : takesOver keyword rest (Text.trim e) = true) {s : Statement}
    (hs : parse (name.toList ++ (blanks ++ '=' :: e)) = .ok s) : s.keyword = keyword := by
  have hmem := mem_keywords_of_takesOver htakes
  have hlead := leads_assignment (e := e) hname hblanks
  obtain ⟨tail, htrim, hequates⟩ := exists_equates hname hblanks (Expr.not_allBlank_of_parse he)
  obtain ⟨tried, hforms, htried⟩ :=
    exists_tried fun c hc => hlead.not_isBlank (List.mem_of_mem_head? hc)
  obtain ⟨f, hleading, hfits⟩ := Form.exists_fits?_of_takesOver
    (hequates _ _ heq (rest_ne_nil hkeyword hmem heq)) htakes
  rw [← List.append_assoc, ← heq, ← htrim] at hfits
  -- The first form that fits may be another one of the same keyword.
  obtain ⟨before, form, after, captures, hsplit, hbefore, hform⟩ := exists_first_fit
    ((htried f).mpr ⟨keyword, rest, hleading, heq⟩) hfits
  rw [hsplit, List.append_assoc, List.cons_append] at hforms
  rw [parse_eq, parseWith_of_fits _ hlead hforms hbefore hform] at hs
  obtain ⟨keyword', rest', hleading', heq'⟩ := (htried form).mp (by simp [hsplit])
  have hsame : keyword' = keyword := by
    have hmem' := Form.mem_keywords hleading'
    rcases List.prefix_or_prefix_of_prefix ⟨rest', heq'.symm⟩ ⟨rest, heq.symm⟩ with h | h
    · exact keywords_apart _ hmem' _ hmem h
    · exact (keywords_apart _ hmem _ hmem' h).symm
  rw [Form.build_keyword hs, hleading', hsame]
  rfl

/-- An assignment to a name that is no keyword, and does not start with one that needs no space, is
one exactly if no keyword takes it over; what it is instead has that keyword. -/
theorem parse_assignment_iff
    (hspaceless : ∀ keyword ∈ spaceless, ¬ keyword.toList <+: name.toList) :
    (parse (name.toList ++ (blanks ++ '=' :: e)) = .ok (.assign name ex) ↔
      ∀ keyword rest, name.toList = keyword.toList ++ rest →
        takesOver keyword rest (Text.trim e) = false) ∧
    ∀ keyword rest, name.toList = keyword.toList ++ rest →
      takesOver keyword rest (Text.trim e) = true →
      ∀ s, parse (name.toList ++ (blanks ++ '=' :: e)) = .ok s → s.keyword = keyword := by
  refine ⟨⟨fun hparse keyword rest heq => ?_,
      parse_assignment hname hkeyword hblanks he hspaceless⟩,
    fun keyword rest heq htakes s => keyword_of_takesOver hname hkeyword hblanks he heq htakes⟩
  rw [← Bool.not_eq_true]
  intro htakes
  obtain rfl : "ASSIGN" = keyword :=
    keyword_of_takesOver hname hkeyword hblanks he heq htakes hparse
  cases htakes

end

/-- LET takes over an assignment to LETTER, and IF leaves one to IFFY. -/
theorem parse_letter_and_iffy :
    ∃ x, Expr.parse ['X'] = .ok x ∧ parse "LETTER=X".toList ≠ .ok (.assign "LETTER" x) ∧
      (∀ s, parse "LETTER=X".toList = .ok s → s.keyword = "LET") ∧
      parse "IFFY =X".toList = .ok (.assign "IFFY" x) := by
  have hletter := @parse_assignment_iff "LETTER" [] ['X'] _ rfl (by decide) rfl rfl (by decide)
  have hiffy := @parse_assignment_iff "IFFY" [' '] ['X'] _ rfl (by decide) rfl rfl (by decide)
  refine ⟨_, rfl, fun h => ?_, hletter.2 "LET" "TER".toList rfl rfl,
    hiffy.1.mpr fun keyword rest heq => ?_⟩
  · exact absurd (hletter.1.mp h "LET" "TER".toList rfl) (by decide)
  · rw [← Bool.not_eq_true]
    intro htakes
    have hif : ∀ k ∈ keywords, k.toList <+: "IFFY".toList → k = "IF" := by decide
    obtain rfl := hif keyword (mem_keywords_of_takesOver htakes) ⟨rest, heq.symm⟩
    obtain rfl : "FY".toList = rest := by simpa using heq
    cases htakes

end Statement

end ClassicBasic
