import ClassicBasic.Proofs.Pattern
import ClassicBasic.Proofs.Pattern.Compile
import ClassicBasic.Proofs.Text.Occurrence
import ClassicBasic.Proofs.Workspace

/-!
# How a pattern lays out a text

`Pattern.Laid` says of a text that it is made of the literals of a pattern and of spans for its slots,
in order and with nothing but blanks between them. The span of a slot goes on up to the first
occurrence of the literal behind it, and occurrences are judged in the whole text, what stands in
front of the span included. A text that matches is laid out (`laid_of_fits?`). The matcher starts
each search at the span and knows nothing of what is in front of it; this makes no difference because
quotes are closed there, as the spans end outside quotes and the literals have none.

The other way round, texts for the slots that cannot be mistaken (`Pattern.Suits`) are captured again
from a text in which they were put for the slots (`fits?_spaced`).
-/

namespace ClassicBasic

open Text (allBlank trim trimStart Trimmed OccursBetween IsSolid spaced)

namespace Pattern

/-! ## Texts that match -/

/-- Where a span ends that stands between `before` and `after`: in front of the first occurrence of a
literal, or at the end of the text. -/
def SpanEnds (next : Option Part) (before span after : List Char) : Prop :=
  match next with
  | none => after = []
  | some (.slot _) => False
  | some (.literal word) =>
    (∃ rest, after = word.toList ++ rest ∧ OccursBetween word.toList (before ++ span) rest) ∧
      ∀ pre post, span ++ after = pre ++ (word.toList ++ post) →
        OccursBetween word.toList (before ++ pre) post → span.length ≤ pre.length

/-- `text`, with `before` in front of it, is made of `parts`, whose slots have captured `captures`. -/
inductive Laid : (before : List Char) → (parts : List Part) → (text : List Char) →
    (captures : List Capture) → Prop
  | nil {before ws : List Char} (hws : allBlank ws = true) : Laid before [] ws []
  | literal {before ws rest : List Char} {word : String} {parts : List Part}
      {captures : List Capture} (hws : allBlank ws = true)
      (hrest : Laid (before ++ ws ++ word.toList) parts rest captures) :
      Laid before (.literal word :: parts) (ws ++ (word.toList ++ rest)) captures
  | slot {before ws span rest : List Char} {s : Slot} {parts : List Part} {capture : Capture}
      {captures : List Capture} (hws : allBlank ws = true) (hspan : trim span ≠ [])
      (hcapture : s.convert (trim span) = .ok capture)
      (hends : SpanEnds parts.head? (before ++ ws) span rest)
      (hrest : Laid (before ++ ws ++ span) parts rest captures) :
      Laid before (.slot s :: parts) (ws ++ (span ++ rest)) (capture :: captures)

section
variable {parts : List Part} {before cs span rest ws : List Char} {captures : List Capture}
  {word : String}

theorem isSolid_of_wellFormed (h : (Part.literal word).WellFormed) (hquote : '"' ∉ word.toList) :
    IsSolid word.toList :=
  ⟨h.1, fun c hc => (h.2 c hc).1, hquote⟩

/-- The first occurrence from the span on is the first one in the whole text. -/
theorem spanEnds_of_findOutsideQuotes? (hword : IsSolid word.toList)
    (hbefore : Even (before.count '"')) (hspan : trim span ≠ []) (hws : allBlank ws = true)
    (h : Text.findOutsideQuotes? word.toList cs = some (span, rest)) :
    Even (span.count '"') ∧ SpanEnds (some (.literal word)) before span (rest ++ ws) := by
  obtain ⟨hcs, ⟨post, hpost, hoccurs⟩, hfirst⟩ := Text.findOutsideQuotes?_first hword h
  have hnil : span ≠ [] := by
    rintro rfl
    exact hspan rfl
  refine ⟨hoccurs.outside, ⟨post ++ ws, by rw [hpost, List.append_assoc], ?_⟩, ?_⟩
  · exact .append hbefore hnil ((OccursBetween.append_blanks_iff hws).mpr hoccurs)
  · intro pre post' heq hoccurs'
    by_contra hlt
    -- An earlier occurrence does not reach into the blanks at the end.
    have hlong : pre ++ word.toList <+: cs ++ ws :=
      ⟨post', by rw [List.append_assoc, ← heq, hcs, List.append_assoc]⟩
    have hlength : (pre ++ word.toList).length ≤ cs.length := by
      rw [hcs, hpost]
      simp only [List.length_append]
      omega
    obtain ⟨post'', hcs'⟩ :=
      List.prefix_of_prefix_length_le hlong (List.prefix_append cs ws) hlength
    have hpost' : post' = post'' ++ ws := by
      rw [← List.append_assoc, ← hcs, ← hcs'] at heq
      simpa using heq.symm
    subst hpost'
    refine hlt (hfirst pre post'' (by rw [← hcs', List.append_assoc]) ?_)
    exact .of_append hbefore ((OccursBetween.append_blanks_iff hws).mp hoccurs')

/-- A text that matches is laid out, and blanks at its end make no difference. -/
theorem laid_of_fits? (heach : ∀ part ∈ parts, part.WellFormed)
    (hquote : ∀ word, .literal word ∈ parts → '"' ∉ word.toList)
    (hbefore : Even (before.count '"')) (hws : allBlank ws = true)
    (h : fits? parts cs = some captures) : Laid before parts (cs ++ ws) captures := by
  induction parts generalizing before cs captures with
  | nil =>
    rw [fits?] at h
    obtain ⟨hcs, h⟩ := Option.ite_none_right_eq_some.mp h
    cases h
    refine .nil ?_
    rw [Text.allBlank_append, hcs, hws]
    rfl
  | cons part parts ih =>
    obtain ⟨hpart, heach⟩ := List.forall_mem_cons.mp heach
    have ih {before cs : List Char} {captures : List Capture} (hbefore : Even (before.count '"'))
        (h : fits? parts cs = some captures) : Laid before parts (cs ++ ws) captures :=
      ih heach (fun word hword => hquote word (by simp [hword])) hbefore h
    obtain ⟨blanks, hblanks, hcs⟩ := Text.exists_trimStart cs
    have hfront : Even ((before ++ blanks).count '"') := by
      rw [List.count_append]
      exact hbefore.add (Text.even_count_blanks hblanks)
    cases part with
    | literal word =>
      obtain ⟨rest, hrest, h⟩ := fits?_literal h
      have heven : Even ((before ++ blanks ++ word.toList).count '"') := by
        rw [List.count_append, List.count_eq_zero_of_not_mem (hquote word (by simp))]
        exact hfront
      rw [hcs, hrest, List.append_assoc, List.append_assoc]
      exact .literal hblanks (ih heven h)
    | slot s =>
      obtain ⟨span, rest, capture, captures', hspan, hne, hcapture, hfits, rfl⟩ := fits?_slot h
      rw [hcs, capturedBy_eq hspan, List.append_assoc, List.append_assoc]
      cases parts with
      | nil =>
        -- The last slot takes the blanks at the end as well.
        cases hspan
        cases hfits
        have htrim : trim (trimStart cs ++ ws) = trim (trimStart cs) := Text.trim_append_right hws _
        have heq : trimStart cs ++ ([] ++ ws) = trimStart cs ++ ws ++ [] := by simp
        rw [heq]
        exact .slot hblanks (by rwa [htrim]) (by rwa [htrim]) rfl (.nil rfl)
      | cons next parts =>
        cases next with
        | slot s' => cases hspan
        | literal word =>
          have hword : IsSolid word.toList :=
            isSolid_of_wellFormed (heach _ (by simp)) (hquote word (by simp))
          obtain ⟨hspan', hends⟩ := spanEnds_of_findOutsideQuotes? hword hfront hne hws
            (capturedBy_literal.mp hspan)
          have heven : Even ((before ++ blanks ++ span).count '"') := by
            rw [List.count_append]
            exact hfront.add hspan'
          exact .slot hblanks hne hcapture hends (ih heven hfits)

end

/-! ## Texts put for slots -/

/-- A part with a text in place of its slot. -/
def fill (value : String → String) : Part → List Char
  | .literal word => word.toList
  | .slot s => (value s.name).toList

/-- The parts with texts in place of their slots and blanks between them. -/
def filled (value : String → String) (parts : List Part) : List Char :=
  [' '].intercalate (parts.map (fill value))

/-- Texts for slots that can be captured again: none is empty or has blanks around it, their quotes
close, and the literal behind a slot does not occur in the text for it. -/
structure Suits (value : String → String) (parts : List Part) : Prop where
  ne_nil : ∀ s, .slot s ∈ parts → (value s.name).toList ≠ []
  trimmed : ∀ s, .slot s ∈ parts → Trimmed (value s.name).toList
  balanced : ∀ s, .slot s ∈ parts → Even ((value s.name).toList.count '"')
  lacks : ∀ s word, [.slot s, .literal word] <:+: parts → ∀ pre post,
    (value s.name).toList = pre ++ (word.toList ++ post) → ¬ OccursBetween word.toList pre post

section
variable {value : String → String} {parts : List Part} {part : Part} {word : String}

theorem Suits.tail (h : Suits value (part :: parts)) : Suits value parts where
  ne_nil s hs := h.ne_nil s (by simp [hs])
  trimmed s hs := h.trimmed s (by simp [hs])
  balanced s hs := h.balanced s (by simp [hs])
  lacks s word hs := h.lacks s word (hs.trans (List.suffix_cons part parts).isInfix)

theorem Suits.lacks_next {s : Slot} (h : Suits value (.slot s :: .literal word :: parts))
    (hword : IsSolid word.toList) : Text.Lacks word.toList (value s.name).toList where
  absent := by
    rw [← Text.findOutsideQuotes?_eq hword.ne_nil, Text.findOutsideQuotes?_eq_none hword]
    exact h.lacks s word (List.prefix_append [.slot s, .literal word] parts).isInfix
  closed := Text.endsQuoted_eq_self.mpr (h.balanced s (by simp))

/-- What was put for the slots is captured. -/
theorem fits?_spaced {name : String} {leading? : Option String}
    (heach : ∀ part ∈ parts, part.WellFormed)
    (hapart : parts.IsChain Part.Apart)
    (hquote : ∀ word, .literal word ∈ parts → '"' ∉ word.toList)
    (hkind : ∀ s, .slot s ∈ parts → s.kind = .text ∧ s.isList = false)
    (hvalue : Suits value parts) :
    fits? parts (spaced (parts.map (fill value))) =
      some ((Pattern.mk name leading? parts).slotNames.map fun slot => .text (value slot)) := by
  induction parts with
  | nil => rfl
  | cons part parts ih =>
    obtain ⟨hpart, heach'⟩ := List.forall_mem_cons.mp heach
    have hrest := ih heach' hapart.tail (fun word hword => hquote word (by simp [hword]))
      (fun s hs => hkind s (by simp [hs])) hvalue.tail
    rw [List.map_cons, Text.spaced_cons, List.cons_append, fits?_space]
    cases part with
    | literal word =>
      have hword : IsSolid word.toList := isSolid_of_wellFormed hpart (hquote word (by simp))
      rw [fill, fits?_literal_eq (hword.trimStart _), hrest]
      rfl
    | slot s =>
      have htrimmed := hvalue.trimmed s (by simp)
      have hne := Text.not_allBlank_of_trimmed htrimmed (hvalue.ne_nil s (by simp))
      have hcapture : s.convert (trim (value s.name).toList) = .ok (.text (value s.name)) := by
        obtain ⟨hkind, hlist⟩ := hkind s (by simp)
        rw [Slot.convert, hkind, hlist, Text.trim_of_trimmed htrimmed, String.ofList_toList]
        rfl
      have hstart (rest : List Char) :
          trimStart ((value s.name).toList ++ rest) = (value s.name).toList ++ rest := by
        rw [Text.trimStart_append hne, Text.trimStart_of_trimmed htrimmed]
      cases parts with
      | nil =>
        refine fits?_slot_eq (by rw [fill, hstart]; rfl) ?_ hne hcapture hrest
        exact congrArg trim (List.append_nil _)
      | cons next parts =>
        cases next with
        | slot s' => cases (List.isChain_cons_cons.mp hapart).1 rfl
        | literal word =>
          have hword : IsSolid word.toList :=
            isSolid_of_wellFormed (heach' _ (by simp)) (hquote word (by simp))
          rw [List.map_cons, Text.spaced_cons, List.cons_append, fits?_space] at hrest
          have hfound := (hvalue.lacks_next hword).find hword
            (Text.head?_spaced (parts.map (fill value)))
          rw [← hstart] at hfound
          exact fits?_slot_eq (capturedBy_literal.mpr hfound)
            (Text.trim_append_right (rfl : allBlank [' '] = true) _) hne hcapture hrest

theorem trim_filled (heach : ∀ part ∈ parts, part.WellFormed) (hvalue : Suits value parts) :
    trim (filled value parts) = filled value parts := by
  have hfill : ∀ u ∈ parts.map (fill value), u ≠ [] ∧ Trimmed u := by
    intro u hu
    obtain ⟨part, hpart, rfl⟩ := List.mem_map.mp hu
    cases part with
    | literal word =>
      have hword : (Part.literal word).WellFormed := heach _ hpart
      exact ⟨hword.1, Text.trimmed_of_forall fun c hc => (hword.2 c hc).1⟩
    | slot s => exact ⟨hvalue.ne_nil s hpart, hvalue.trimmed s hpart⟩
  exact Text.trim_of_trimmed
    (Text.trimmed_intercalate (fun u hu => (hfill u hu).1) fun u hu => (hfill u hu).2)

end

theorem captures_eq_ok {p : Pattern} {text : List Char} {captures : List Capture} :
    p.captures text = .ok captures ↔ fits? p.parts (trim text) = some captures := by
  rw [← matchParts_toOption _ 0, toOption_eq_some]
  rfl

/-- A text that matches is laid out by the pattern. Texts that were put for the slots are captured
again, each under the name of its slot. -/
theorem captures_layout {name : String} {grammar : List Char} {p : Pattern}
    (hp : compile name grammar = .ok p)
    (hquote : ∀ word, .literal word ∈ p.parts → '"' ∉ word.toList) :
    (∀ text captures, p.captures text = .ok captures → Laid [] p.parts text captures) ∧
    ((∀ s, .slot s ∈ p.parts → s.kind = .text ∧ s.isList = false) → p.slotNames.Nodup →
      ∀ value, Suits value p.parts →
        ∃ captures, p.captures (filled value p.parts) = .ok captures ∧
          (p.fields captures).entries = p.slotNames.map fun slot => (slot, .text (value slot))) := by
  have hparts := compile_wellFormed hp
  refine ⟨fun text captures h => ?_, fun hkind hnames value hvalue =>
    ⟨p.slotNames.map fun slot => .text (value slot), ?_, ?_⟩⟩
  · obtain ⟨pre, post, htext, hpre, -, hpost⟩ := Text.exists_trim text
    rw [captures_eq_ok, ← fits?_blanks _ _ hpre] at h
    rw [htext]
    exact laid_of_fits? hparts.each hquote (by simp) hpost h
  · have hspaced : spaced (p.parts.map (fill value)) = ' ' :: filled value p.parts := by
      obtain ⟨part, parts, hcons⟩ := List.exists_cons_of_ne_nil hparts.ne_nil
      rw [filled, hcons, List.map_cons, Text.intercalate_spaced, Text.spaced_cons, List.cons_append]
    rw [captures_eq_ok, trim_filled hparts.each hvalue, ← fits?_space, ← hspaced]
    exact fits?_spaced hparts.each hparts.apart hquote hkind hvalue
  · rw [fields, ← List.map_prod_left_eq_zip]
    exact Table.entries_ofList (by simpa [Function.comp_def] using hnames)

def branch : Pattern where
  name := "IF"
  leading? := some "IF"
  parts := [.literal "IF", .slot { name := "condition", kind := .text }, .literal "THEN",
    .slot { name := "statement", kind := .text }]

/-- A condition that quotes the literal behind it, and a statement that begins with it. -/
def branchTexts (slot : String) : String :=
  if slot = "condition" then "A$ = \"THEN\"" else "THENCE = 1"

theorem suits_branch : Suits branchTexts branch.parts where
  ne_nil s hs := by
    rcases (by simpa [branch] using hs : _ ∨ _) with rfl | rfl <;> decide
  trimmed s hs := by
    rcases (by simpa [branch] using hs : _ ∨ _) with rfl | rfl
    · exact ⟨by rintro c ⟨⟩; rfl, by rintro c ⟨⟩; rfl⟩
    · exact ⟨by rintro c ⟨⟩; rfl, by rintro c ⟨⟩; rfl⟩
  balanced s hs := by
    rcases (by simpa [branch] using hs : _ ∨ _) with rfl | rfl <;> decide
  lacks s word hs := by
    obtain ⟨front, back, hparts⟩ := hs
    rcases front with - | ⟨_, - | ⟨_, - | ⟨_, front⟩⟩⟩ <;> simp [branch] at hparts
    · obtain ⟨-, rfl, rfl, -⟩ := hparts
      exact (Text.findOutsideQuotes?_eq_none Text.isKeyword_then.isSolid).mp (by decide +kernel)
    · have hlength := congrArg List.length hparts.2.2.2
      simp only [List.length_append, List.length_cons, List.length_nil] at hlength
      omega

theorem captures_layout_branch :
    compile "IF" "IF \x7bcondition:string\x7d THEN \x7bstatement:string\x7d".toList = .ok branch ∧
    Laid [] branch.parts " IF A$ = \"THEN\" THEN THENCE = 1".toList
      [.text "A$ = \"THEN\"", .text "THENCE = 1"] ∧
    ∃ captures, branch.captures "IF A$ = \"THEN\" THEN THENCE = 1".toList = .ok captures ∧
      (branch.fields captures).entries =
        [("condition", .text "A$ = \"THEN\""), ("statement", .text "THENCE = 1")] := by
  have hbranch : compile "IF" "IF \x7bcondition:string\x7d THEN \x7bstatement:string\x7d".toList =
      .ok branch := by decide +kernel
  have hquote : ∀ word, .literal word ∈ branch.parts → '"' ∉ word.toList := by
    simp [branch]
  have hkind : ∀ s, .slot s ∈ branch.parts → s.kind = .text ∧ s.isList = false := by
    simp [branch]
  obtain ⟨hlaid, hfilled⟩ := captures_layout hbranch hquote
  exact ⟨hbranch, hlaid _ _ rfl, hfilled hkind (by decide) branchTexts suits_branch⟩

end Pattern

end ClassicBasic
