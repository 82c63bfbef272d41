import ClassicBasic.Proofs.Statement.NestedIf
import ClassicBasic.Proofs.Statement.Rendering
import ClassicBasic.Proofs.Text.Composition

/-!
# Patterns filled with words

A text that is a pattern with its slots filled, with single spaces between its parts, fits that
pattern, and its slots capture what they were filled with (`Pattern.Filled.fits?`). It is enough
that no slot holds the literal that follows it. A text that fills a pattern only up to a slot that
fails does not fit it (`Pattern.Unfilled.fits?`).
-/

namespace ClassicBasic

/-! ## Words with spaces between them -/

namespace Text

theorem words_cons (u : List Char) (ws : List (List Char)) : words (u :: ws) = u ++ spaced ws :=
  intercalate_spaced u ws

theorem Composed.spaced {W : List Char → Prop} {M : Char → Prop} {ws : List (List Char)}
    (hM : M ' ') (h : ws.Forall (Composed W M)) : Composed W M (spaced ws) := by
  rw [← List.nil_append (Text.spaced ws), ← words_cons]
  exact .intercalate rfl hM (List.forall_mem_cons.mpr ⟨.nil, List.forall_iff_forall_mem.mp h⟩)

/-- Blanks at the end of a text are at the end of its last part, if that is not blank. -/
theorem append_eq_append_blanks {a b u post : List Char} (h : a ++ b = u ++ post)
    (hpost : allBlank post = true) (ha : ∃ c ∈ a.getLast?, isBlank c = false) :
    ∃ u', u = a ++ u' ∧ b = u' ++ post := by
  rcases List.append_eq_append_iff.mp h with ⟨u', hu, hb⟩ | ⟨extra, ha', hpost'⟩
  · exact ⟨u', hu, hb⟩
  · cases hextra : extra.getLast? with
    | none =>
      rw [List.getLast?_eq_none_iff] at hextra
      subst hextra
      exact ⟨[], by simpa using ha'.symm, by simpa using hpost'.symm⟩
    | some d =>
      -- The last character of `a` would be blank.
      obtain ⟨c, hc, hblank⟩ := ha
      rw [ha', List.getLast?_append, hextra] at hc
      cases hc
      have hd := List.all_eq_true.mp hpost d (by simp [hpost', List.mem_of_getLast? hextra])
      rw [hblank] at hd
      cases hd

end Text

/-! ## Filled patterns -/

namespace Pattern

open Text (Lacks isNeedle words spaced)

/-- `Filled parts ws captures`: the texts `ws` are the parts in order, a literal as it is and a slot
as something that it makes the capture of. -/
inductive Filled : List Part → List (List Char) → List Capture → Prop where
  | nil : Filled [] [] []
  | literal {text : String} {parts : List Part} {ws : List (List Char)} {captures : List Capture} :
    isNeedle text.toList = true → Filled parts ws captures →
    Filled (.literal text :: parts) (text.toList :: ws) captures
  | last {s : Slot} {u : List Char} {capture : Capture} :
    ¬ Text.allBlank u = true → s.convert (Text.trim u) = .ok capture →
    Filled [.slot s] [u] [capture]
  | slot {s : Slot} {u : List Char} {capture : Capture} {text : String} {parts : List Part}
      {ws : List (List Char)} {captures : List Capture} :
    ¬ Text.allBlank u = true → s.convert (Text.trim u) = .ok capture → Lacks text.toList u →
    isNeedle text.toList = true → Filled parts ws captures →
    Filled (.slot s :: .literal text :: parts) (u :: text.toList :: ws) (capture :: captures)

theorem getLast?_literal {text : List Char} (h : isNeedle text = true) :
    ∃ c ∈ (' ' :: text).getLast?, Text.isBlank c = false := by
  obtain ⟨c, hc⟩ := Option.isSome_iff_exists.mp
    (List.getLast?_isSome.mpr (Text.ne_nil_of_isNeedle h))
  refine ⟨c, ?_, (Text.of_mem_needle h (List.mem_of_getLast? hc)).1⟩
  rw [List.getLast?_cons, hc]
  rfl

theorem trimStart_literal {text : List Char} (h : isNeedle text = true) (rest : List Char) :
    Text.trimStart (text ++ rest) = text ++ rest :=
  (Text.isSolid_of_isNeedle h).trimStart rest

/-- A literal at the front of a text, with or without the blanks at its end. -/
theorem fits?_literal_filled {text : String} {ws : List (List Char)} {u post : List Char}
    (parts : List Part) (hneedle : isNeedle text.toList = true)
    (hpost : Text.allBlank post = true) (hu : spaced (text.toList :: ws) = u ++ post) :
    ∃ rest, spaced ws = rest ++ post ∧ fits? (.literal text :: parts) u = fits? parts rest := by
  obtain ⟨rest, rfl, hrest⟩ := Text.append_eq_append_blanks hu hpost (getLast?_literal hneedle)
  refine ⟨rest, hrest, ?_⟩
  rw [List.cons_append, fits?_space, fits?_literal_eq (trimStart_literal hneedle rest)]

/-- What a slot takes of a text: all in front of the literal behind it. -/
theorem capturedBy_filled {text : String} {ws : List (List Char)} {u v post : List Char}
    (parts : List Part) (hv : ¬ Text.allBlank v = true) (hlacks : Lacks text.toList v)
    (hneedle : isNeedle text.toList = true) (hpost : Text.allBlank post = true)
    (hu : spaced (v :: text.toList :: ws) = u ++ post) :
    ∃ rest, spaced ws = rest ++ post ∧
      capturedBy (.literal text :: parts) (Text.trimStart u) =
        .ok (Text.trimStart v ++ [' '], text.toList ++ rest) := by
  have hall : (' ' :: v ++ ' ' :: text.toList) ++ spaced ws = u ++ post := by
    rw [← hu, Text.spaced_cons, Text.spaced_cons]
    simp
  have hlast : ∃ c ∈ (' ' :: v ++ ' ' :: text.toList).getLast?, Text.isBlank c = false := by
    obtain ⟨c, hc, hblank⟩ := getLast?_literal hneedle
    exact ⟨c, by rw [List.getLast?_append, hc]; rfl, hblank⟩
  obtain ⟨rest, rfl, hrest⟩ := Text.append_eq_append_blanks hall hpost hlast
  have hstart : Text.trimStart (' ' :: v ++ ' ' :: text.toList ++ rest) =
      Text.trimStart v ++ ' ' :: (text.toList ++ rest) := by
    rw [← Text.trimStart_append hv]
    simp [Text.trimStart, Text.isBlank]
  have hhead : ∀ c ∈ rest.head?, Text.isWordChar c = false := by
    intro c hc
    refine Text.head?_spaced ws c ?_
    rw [hrest, List.head?_append, hc]
    rfl
  have hsolid := Text.isSolid_of_isNeedle hneedle
  exact ⟨rest, hrest, by rw [capturedBy, hstart, (hlacks.trimStart hsolid).find hsolid hhead]⟩

namespace Filled

variable {parts : List Part} {ws : List (List Char)} {captures : List Capture}

/-- A text that fills a pattern fits it, whether or not blanks at its end are left out. -/
theorem fits? (h : Filled parts ws captures) {u post : List Char}
    (hpost : Text.allBlank post = true) (hu : spaced ws = u ++ post) :
    Pattern.fits? parts u = some captures := by
  induction h generalizing u with
  | nil =>
    obtain ⟨rfl, -⟩ := List.append_eq_nil_iff.mp hu.symm
    rfl
  | literal hneedle _ ih =>
    obtain ⟨rest, hrest, heq⟩ := fits?_literal_filled _ hneedle hpost hu
    rw [heq, ih hrest]
  | @last s v capture hv hcapture =>
    rw [Text.spaced_cons] at hu
    cases u with
    | nil =>
      rw [List.nil_append] at hu
      rw [← hu, List.cons_append, ← List.singleton_append, Text.allBlank_append,
        Text.allBlank_append] at hpost
      simp only [Bool.and_eq_true] at hpost
      exact absurd hpost.2.1 hv
    | cons c u =>
      obtain ⟨rfl, hv'⟩ : ' ' = c ∧ v = u ++ post := by simpa [spaced] using hu
      refine fits?_slot_eq rfl ?_ hv hcapture rfl
      rw [Text.trim_trimStart, hv', Text.trim_append_right hpost]
      exact Text.trim_append_left (by rfl : Text.allBlank [' '] = true) u
  | slot hv hcapture hlacks hneedle _ ih =>
    obtain ⟨rest, hrest, hcaptured⟩ := capturedBy_filled _ hv hlacks hneedle hpost hu
    refine fits?_slot_eq hcaptured ?_ hv hcapture ?_
    · rw [Text.trim_append_right rfl, Text.trim_trimStart]
    · rw [fits?_literal_eq (trimStart_literal hneedle rest), ih hrest]

end Filled

/-! ## Patterns that are not filled -/

/-- `Unfilled parts ws`: the texts `ws` are the parts up to a slot that finds no end, or that takes
the number of a line where a letter stands. -/
inductive Unfilled : List Part → List (List Char) → Prop where
  | literal {text : String} {parts : List Part} {ws : List (List Char)} :
    isNeedle text.toList = true → Unfilled parts ws →
    Unfilled (.literal text :: parts) (text.toList :: ws)
  | slot {s : Slot} {u : List Char} {text : String} {parts : List Part} {ws : List (List Char)} :
    ¬ Text.allBlank u = true → Lacks text.toList u → isNeedle text.toList = true →
    Unfilled parts ws → Unfilled (.slot s :: .literal text :: parts) (u :: text.toList :: ws)
  | endless {s : Slot} {text : String} {parts : List Part} {ws : List (List Char)} :
    isNeedle text.toList = true → Lacks text.toList (spaced ws) →
    Unfilled (.slot s :: .literal text :: parts) ws
  | letter {name : String} {u : List Char} {parts : List Part} {ws : List (List Char)} :
    (∃ c ∈ u.head?, c.isAlpha = true) → Unfilled (Form.int name :: parts) (u :: ws)

/-- A slot finds no end in a text without the literal behind it. -/
theorem fits?_eq_none_of_lacks {s : Slot} {text : String} {cs : List Char} (parts : List Part)
    (hneedle : isNeedle text.toList = true) (h : Lacks text.toList cs) :
    fits? (.slot s :: .literal text :: parts) cs = none := by
  have hfind : Text.findOutsideQuotes? text.toList (Text.trimStart cs) = none := by
    rw [Text.findOutsideQuotes?, if_neg (by simpa using Text.ne_nil_of_isNeedle hneedle)]
    exact (h.trimStart (Text.isSolid_of_isNeedle hneedle)).absent
  rw [fits?, capturedBy, hfind]
  rfl

theorem Unfilled.fits? {parts : List Part} {ws : List (List Char)} (h : Unfilled parts ws)
    {u post : List Char} (hpost : Text.allBlank post = true) (hu : spaced ws = u ++ post) :
    Pattern.fits? parts u = none := by
  induction h generalizing u with
  | literal hneedle _ ih =>
    obtain ⟨rest, hrest, heq⟩ := fits?_literal_filled _ hneedle hpost hu
    rw [heq, ih hrest]
  | @slot s v text parts ws hv hlacks hneedle _ ih =>
    obtain ⟨rest, hrest, hcaptured⟩ := capturedBy_filled parts hv hlacks hneedle hpost hu
    rw [Option.eq_none_iff_forall_ne_some]
    intro captures hfits
    obtain ⟨span, rest', capture, captures', hspan, -, -, hbehind, -⟩ := fits?_slot hfits
    rw [hcaptured] at hspan
    cases hspan
    rw [fits?_literal_eq (trimStart_literal hneedle rest), ih hrest] at hbehind
    cases hbehind
  | endless hneedle hlacks =>
    rw [hu] at hlacks
    exact fits?_eq_none_of_lacks _ hneedle
      (hlacks.of_append_blanks (Text.isSolid_of_isNeedle hneedle) hpost)
  | @letter name v parts ws hletter =>
    obtain ⟨c, hc, halpha⟩ := hletter
    obtain ⟨tail, rfl⟩ := List.head?_eq_some_iff.mp hc
    have hblank : Text.isBlank c = false :=
      Text.not_isBlank_of_isWordChar (Text.isWordChar_of_isAlpha halpha)
    obtain ⟨rest, rfl, -⟩ : ∃ rest, u = [' ', c] ++ rest ∧ tail ++ spaced ws = rest ++ post :=
      Text.append_eq_append_blanks hu hpost ⟨c, rfl, hblank⟩
    refine fits?_int_eq_none ⟨c, ?_, .inr halpha⟩
    have hspace : Text.isBlank ' ' = true := rfl
    simp [Text.trimStart, hblank, hspace]

/-! ## Blanks around a text -/

section
variable {parts : List Part} {ws : List (List Char)}

theorem exists_spaced_trim (hne : ws ≠ []) (parts : List Part) :
    ∃ u post, Text.allBlank post = true ∧ spaced ws = u ++ post ∧
      fits? parts (Text.trim (words ws)) = fits? parts u := by
  obtain ⟨w, ws, rfl⟩ := List.exists_cons_of_ne_nil hne
  obtain ⟨pre, post, htext, hpre, -, hpost⟩ := Text.exists_trim (words (w :: ws))
  refine ⟨' ' :: pre ++ Text.trim (words (w :: ws)), post, hpost, ?_, ?_⟩
  · rw [Text.spaced_cons, List.cons_append, ← Text.words_cons]
    nth_rewrite 1 [htext]
    simp
  · rw [List.cons_append, fits?_space, fits?_blanks _ _ hpre]

/-- A text that fills a pattern fits it without the blanks around it. -/
theorem Filled.fits?_trim {captures : List Capture} (h : Filled parts ws captures)
    (hne : ws ≠ []) : Pattern.fits? parts (Text.trim (words ws)) = some captures := by
  obtain ⟨u, post, hpost, hu, heq⟩ := exists_spaced_trim hne parts
  rw [heq, h.fits? hpost hu]

theorem Unfilled.fits?_trim (h : Unfilled parts ws) (hne : ws ≠ []) :
    Pattern.fits? parts (Text.trim (words ws)) = none := by
  obtain ⟨u, post, hpost, hu, heq⟩ := exists_spaced_trim hne parts
  rw [heq, h.fits? hpost hu]

end

end Pattern

/-! ## The first word -/

namespace Text

/-- `lead` is the first word of `text`. -/
structure Leads (lead text : List Char) : Prop where
  ne_nil : lead ≠ []
  isWordChar : ∀ c ∈ lead, isWordChar c = true
  rest : ∃ rest, text = lead ++ rest ∧ ∀ c ∈ rest.head?, Text.isWordChar c = false

namespace Leads

variable {lead text keyword : List Char}

theorem not_isBlank (h : Leads lead text) {c : Char} (hc : c ∈ lead) : isBlank c = false :=
  not_isBlank_of_isWordChar (h.isWordChar c hc)

theorem words (hne : lead ≠ []) (hword : ∀ c ∈ lead, Text.isWordChar c = true)
    (ws : List (List Char)) : Leads lead (Text.words (lead :: ws)) :=
  ⟨hne, hword, spaced ws, words_cons lead ws, head?_spaced ws⟩

/-- A word leads what is left of the text without the blanks around it. -/
theorem trim (h : Leads lead text) : Leads lead (trim text) := by
  obtain ⟨rest, rfl, hrest⟩ := h.rest
  obtain ⟨pre, post, htext, hpre, -, hpost⟩ := exists_trim (lead ++ rest)
  obtain ⟨l, ls, hlead⟩ := List.exists_cons_of_ne_nil h.ne_nil
  have hnil : pre = [] := by
    cases pre with
    | nil => rfl
    | cons c pre =>
      rw [hlead] at htext
      obtain ⟨rfl, -⟩ := List.cons.inj htext
      have hblank := h.not_isBlank (c := l) (by simp [hlead])
      simp [allBlank, hblank] at hpre
  rw [hnil, List.nil_append] at htext
  have hlast : ∃ c ∈ lead.getLast?, isBlank c = false := by
    obtain ⟨c, hc⟩ := Option.isSome_iff_exists.mp (List.getLast?_isSome.mpr h.ne_nil)
    exact ⟨c, hc, h.not_isBlank (List.mem_of_getLast? hc)⟩
  obtain ⟨rest', heq, hrest'⟩ := append_eq_append_blanks htext hpost hlast
  refine ⟨h.ne_nil, h.isWordChar, rest', heq, fun c hc => hrest c ?_⟩
  rw [hrest', List.head?_append, hc]
  rfl

theorem isEmpty_trim (h : Leads lead text) : (Text.trim text).isEmpty = false := by
  obtain ⟨rest, hrest, -⟩ := h.trim.rest
  rw [hrest]
  simpa using fun heq _ => h.ne_nil heq

/-- A keyword starts a text if it starts its first word. -/
theorem dropLeading?_isSome (h : Leads lead text) (hkeyword : ∀ c ∈ keyword, c.isAlpha = true) :
    (dropLeading? keyword text).isSome = (dropLeading? keyword lead).isSome := by
  obtain ⟨rest, rfl, hrest⟩ := h.rest
  rw [Bool.eq_iff_iff]
  simp only [Option.isSome_iff_exists, dropLeading?_eq_some]
  constructor
  · rintro ⟨tail, htail⟩
    rcases List.append_eq_append_iff.mp htail with ⟨extra, hextra, hrest'⟩ | ⟨tail', hlead, -⟩
    · cases extra with
      | nil => exact ⟨[], by simpa using hextra.symm⟩
      | cons c extra =>
        have hc := hrest c (by simp [hrest'])
        rw [isWordChar_of_isAlpha (hkeyword c (by simp [hextra]))] at hc
        cases hc
    · exact ⟨tail', hlead⟩
  · rintro ⟨tail, rfl⟩
    exact ⟨tail ++ rest, by simp⟩

end Leads

end Text

/-- The forms that are tried on a text are those that are tried on its first word. -/
theorem Form.candidates_eq {lead text : List Char} (h : Text.Leads lead text) :
    Pattern.candidates Form.pattern Form.all text =
      Pattern.candidates Form.pattern Form.all lead := by
  obtain ⟨l, ls, hlead⟩ := List.exists_cons_of_ne_nil h.ne_nil
  have hblank : Text.isBlank l = false := h.not_isBlank (by simp [hlead])
  have htext : Text.trimStart text = text := by
    obtain ⟨rest, rfl, -⟩ := h.rest
    rw [hlead]
    refine Text.trimStart_eq ?_
    rintro c ⟨⟩
    exact hblank
  have hlead' : Text.trimStart lead = lead := by
    rw [hlead]
    refine Text.trimStart_eq ?_
    rintro c ⟨⟩
    exact hblank
  have hkeywords : ∀ f : Form, ∀ literal ∈ f.pattern.leading?,
      ∀ c ∈ literal.toList, c.isAlpha = true := by
    intro f
    cases f with
    | assign => rintro literal ⟨⟩
    | _ =>
      rintro literal ⟨⟩
      exact List.all_eq_true.mp rfl
  unfold Pattern.candidates
  rw [htext, hlead']
  refine congrArg (· ++ _) (List.filter_congr fun f _ => ?_)
  cases hf : f.pattern.leading? with
  | none => rfl
  | some literal => exact h.dropLeading?_isSome (hkeywords f literal hf)

namespace Statement

variable {lead text : List Char} {form : Form} {before after : List Form}
  {captures : List Capture}

/-- A text is a statement of the first form that fits it. -/
theorem parseWith_of_fits (block : List Char → Except ParseError Block)
    (hlead : Text.Leads lead text)
    (hforms : Pattern.candidates Form.pattern Form.all lead = before ++ form :: after)
    (hbefore : ∀ f ∈ before, Pattern.fits? f.parts (Text.trim text) = none)
    (hfits : Pattern.fits? form.parts (Text.trim text) = some captures) :
    parseWith block text = form.build block captures := by
  have hmatch : Pattern.firstMatch? Form.pattern Form.all (Text.trim text) =
      some (form, captures) := by
    have hnone : before.findSome? (fun f =>
        (Pattern.fits? f.pattern.parts (Text.trim text)).map (f, ·)) = none := by
      rw [List.findSome?_eq_none_iff]
      intro f hf
      rw [Form.pattern, hbefore f hf]
      rfl
    rw [Pattern.firstMatch?_eq, Form.candidates_eq hlead.trim, hforms, Text.trim_trim,
      List.findSome?_append, hnone, List.findSome?_cons, Form.pattern, hfits]
    rfl
  simp only [parseWith, hlead.isEmpty_trim, hmatch]
  rfl

/-- A text that fills a form, and none of those that are tried before it. -/
theorem parseWith_of_filled (block : List Char → Except ParseError Block)
    {ws : List (List Char)} (before : List Form)
    (hlead : Text.Leads lead (Text.words ws))
    (hforms : Pattern.candidates Form.pattern Form.all lead = before ++ form :: after)
    (hunfilled : ∀ f ∈ before, Pattern.Unfilled f.parts ws)
    (hfilled : Pattern.Filled form.parts ws captures) (hne : ws ≠ []) :
    parseWith block (Text.words ws) = form.build block captures :=
  parseWith_of_fits block hlead hforms (fun f hf => (hunfilled f hf).fits?_trim hne)
    (hfilled.fits?_trim hne)

end Statement

end ClassicBasic
