import ClassicBasic.Pattern.Match
import ClassicBasic.Proofs.Contract
import ClassicBasic.Proofs.Number.Numeral
import ClassicBasic.Proofs.Text.Nesting
import Mathlib.Data.List.Chain

/-!
# Patterns as they are written

A pattern that was read from a text is well formed (`Pattern.WellFormed`), and every well-formed list
of parts can be written down (`Pattern.render`) and is read back as it is (`compile_inverts_render`).
The reader goes through the text one character at a time, inside a slot or outside. Both directions
follow it: a run of characters of one kind only lengthens the word at hand (`compileFrom_run`), and
what is read stays coherent whatever comes next (`compileFrom_coherent`). That includes the leading
literal, which is kept apart from the parts and set with the first of them (`Led.append`).

Two slots in a row are refused when a pattern is read, so matching never meets them.
-/

namespace ClassicBasic

/-! ## Well-formed parts -/

/-- Braces stand around slots and nowhere else. -/
def isBrace (c : Char) : Bool := c == '\x7b' || c == '\x7d'

/-- A slot that can be written between braces. -/
structure Slot.WellFormed (s : Slot) : Prop where
  name_ne_nil : s.name.toList ≠ []
  name_trimmed : Text.Trimmed s.name.toList
  name_chars : ∀ c ∈ s.name.toList, c ≠ ':' ∧ isBrace c = false
  separator : ∀ c ∈ s.separator, c ≠ '&' ∧ isBrace c = false
  maximum : ∀ m ∈ s.maximum, (Slot.readMaximum? m.toList).isSome = true

/-- A literal is one word without braces. -/
def Part.WellFormed : Part → Prop
  | .literal text => text.toList ≠ [] ∧ ∀ c ∈ text.toList, Text.isBlank c = false ∧ isBrace c = false
  | .slot s => s.WellFormed

def Part.isSlot : Part → Bool
  | .literal _ => false
  | .slot _ => true

/-- Not both parts are slots. -/
def Part.Apart (a b : Part) : Prop := a.isSlot = true → b.isSlot = false

namespace Pattern

/-- There is something to match, each part can be written, and no slot follows another. -/
structure WellFormed (parts : List Part) : Prop where
  ne_nil : parts ≠ []
  each : ∀ part ∈ parts, part.WellFormed
  apart : parts.IsChain Part.Apart

end Pattern

/-! ## Writing patterns -/

def SlotKind.name : SlotKind → List Char
  | .int => "int".toList
  | .float => "float".toList
  | .text => "string".toList

namespace Slot

/-- The parameters that are given, in the order of their names. -/
def parameters (s : Slot) : List (List Char) :=
  (s.maximum.map fun m => "max=".toList ++ m.toList).toList ++
    (s.separator.map fun c => "sep=".toList ++ [c]).toList

/-- The type of a slot with its parameters behind it. -/
def renderType (s : Slot) : List Char :=
  (if s.isList then "[]".toList else []) ++ s.kind.name

/-- The parameters behind the type. -/
def renderQuery (s : Slot) : List Char :=
  if s.parameters.isEmpty then [] else '?' :: ['&'].intercalate s.parameters

/-- The slot as it stands between braces. -/
def render (s : Slot) : List Char := s.name.toList ++ ':' :: (s.renderType ++ s.renderQuery)

end Slot

def Part.render : Part → List Char
  | .literal text => text.toList
  | .slot s => '\x7b' :: s.render ++ ['\x7d']

/-- The parts with blanks between them. -/
def Pattern.render (parts : List Part) : List Char := [' '].intercalate (parts.map Part.render)

/-! ## Reading slots back -/

theorem SlotKind.ofName?_eq_some {cs : List Char} {kind : SlotKind} :
    SlotKind.ofName? (String.ofList cs) = some kind ↔ cs = kind.name := by
  have hname (name : String) : (String.ofList cs == name) = true ↔ cs = name.toList := by
    rw [beq_iff_eq, ← String.toList_inj, String.toList_ofList]
  unfold SlotKind.ofName?
  constructor
  · intro h
    split at h
    · cases h
      exact (hname _).mp ‹_›
    · split at h
      · cases h
        exact (hname _).mp ‹_›
      · obtain ⟨hcs, h⟩ := Option.ite_none_right_eq_some.mp h
        cases h
        exact (hname _).mp hcs
  · rintro rfl
    cases kind <;> decide

namespace Slot

variable {s : Slot}

/-- There is nothing in a type that is cut off or cut at. -/
theorem renderType_chars (s : Slot) :
    ∀ c ∈ s.renderType, Text.isBlank c = false ∧ (c == '?') = false ∧ isBrace c = false := by
  have hall : s.renderType.all (fun c => !Text.isBlank c && !(c == '?') && !isBrace c) = true := by
    unfold renderType
    cases s.isList <;> cases s.kind <;> rfl
  intro c hc
  simpa [and_assoc] using List.all_eq_true.mp hall c hc

theorem readMaximum?_chars {cs : List Char} (h : (readMaximum? cs).isSome = true) :
    ∀ c ∈ cs, (c == '&') = false ∧ isBrace c = false := by
  obtain ⟨n, hn⟩ := Option.isSome_iff_exists.mp h
  intro c hc
  rcases Numeral.natBelow?_chars hn c hc with rfl | hdigit
  · decide
  · rw [Text.isDigit_iff] at hdigit
    simp only [isBrace, beq_eq_false_iff_ne, ne_eq, ← Char.toNat_inj, Bool.or_eq_false_iff]
    simp only [Char.reduceToNat]
    omega

theorem parameters_chars (h : s.WellFormed) :
    ∀ u ∈ s.parameters, ∀ c ∈ u, (c == '&') = false ∧ isBrace c = false := by
  have hkey {key value : List Char} (hkey : key.all (fun c => c != '&' && !isBrace c) = true)
      (hvalue : ∀ c ∈ value, (c == '&') = false ∧ isBrace c = false) :
      ∀ c ∈ key ++ value, (c == '&') = false ∧ isBrace c = false := by
    refine List.forall_mem_append.mpr ⟨fun c hc => ?_, hvalue⟩
    simpa [bne] using List.all_eq_true.mp hkey c hc
  refine List.forall_mem_append.mpr ⟨fun u hu => ?_, fun u hu => ?_⟩
  · obtain ⟨m, hm, rfl⟩ := Option.map_eq_some_iff.mp (Option.mem_toList.mp hu)
    exact hkey rfl (readMaximum?_chars (h.maximum m hm))
  · obtain ⟨c, hc, rfl⟩ := Option.map_eq_some_iff.mp (Option.mem_toList.mp hu)
    exact hkey rfl (List.forall_mem_singleton.mpr ((h.separator c hc).imp_left beq_false_of_ne))

theorem addParameter_maximum {m : String} (h : (readMaximum? m.toList).isSome = true) :
    s.addParameter ("max=".toList ++ m.toList) = .ok { s with maximum := some m } := by
  have hcut : Text.cutAt? (· == '=') ("max=".toList ++ m.toList) =
      some (['m', 'a', 'x'], m.toList) := rfl
  rw [addParameter, hcut]
  simp [h]

/-- The parameters make a slot of its name and type what it is. -/
theorem foldlM_parameters (h : s.WellFormed) :
    s.parameters.foldlM addParameter { name := s.name, kind := s.kind, isList := s.isList } =
      .ok s := by
  obtain ⟨name, kind, isList, separator, maximum⟩ := s
  cases maximum with
  | none => cases separator <;> rfl
  | some m =>
    have hm : addParameter { name, kind, isList } ("max=".toList ++ m.toList) =
        .ok { name, kind, isList, maximum := some m } := addParameter_maximum (h.maximum m rfl)
    cases separator with
    | none => exact bind_eq_ok.mpr ⟨_, hm, rfl⟩
    | some c => exact bind_eq_ok.mpr ⟨_, hm, rfl⟩

theorem typeAndPairs_render (h : s.WellFormed) :
    typeAndPairs (s.renderType ++ s.renderQuery) = (s.renderType, s.parameters) := by
  have htrim : Text.trim s.renderType = s.renderType := Text.trim_of_trimmed
    ⟨fun c hc => (s.renderType_chars c (List.mem_of_mem_head? hc)).1,
      fun c hc => (s.renderType_chars c (List.mem_of_getLast? hc)).1⟩
  have hmark : ∀ c ∈ s.renderType, (c == '?') = false := fun c hc => (s.renderType_chars c hc).2.1
  unfold typeAndPairs renderQuery
  cases hnone : s.parameters.isEmpty with
  | true =>
    rw [if_pos rfl, List.append_nil, Text.cutAt?_eq_none hmark, List.isEmpty_iff.mp hnone, htrim]
  | false =>
    have hsplit : Text.splitEvery (· == '&') (['&'].intercalate s.parameters) = s.parameters :=
      Text.splitEvery_intercalate rfl (by simpa using hnone) fun u hu c hc =>
        (parameters_chars h u hu c hc).1
    rw [if_neg Bool.false_ne_true, Text.cutAt?_append rfl hmark]
    simp only [htrim, hsplit]

theorem listAndBase_eq {typeText : List Char} {isList : Bool} {kind : SlotKind} :
    listAndBase typeText = (isList, kind.name) ↔
      typeText = (if isList then "[]".toList else []) ++ kind.name := by
  constructor
  · intro h
    unfold listAndBase at h
    split at h
    · cases h
      rfl
    · cases h
      rfl
  · rintro rfl
    cases isList <;> cases kind <;> rfl

/-- What a slot is read from. -/
theorem parse_eq_ok {body : List Char} : parse body = .ok s ↔
    ∃ nameText spec isList kind, Text.cutAt? (· == ':') body = some (nameText, spec) ∧
      Text.trim nameText ≠ [] ∧
      (typeAndPairs spec).1 = (if isList then "[]".toList else []) ++ SlotKind.name kind ∧
      (typeAndPairs spec).2.foldlM addParameter
        { name := String.ofList (Text.trim nameText), kind, isList } = .ok s := by
  have hempty (cs : List Char) : (String.ofList cs).isEmpty = true ↔ cs = [] := by
    rw [String.isEmpty_iff, ← String.toList_inj, String.toList_ofList]
    rfl
  constructor
  · intro h
    unfold parse at h
    cases hcut : Text.cutAt? (· == ':') body with
    | none =>
      rw [hcut] at h
      cases h
    | some r =>
      obtain ⟨nameText, spec⟩ := r
      rw [hcut] at h
      simp only at h
      split at h
      · cases h
      · rename_i hname
        split at h
        · cases h
        · split at h
          · rename_i kind hkind
            rw [SlotKind.ofName?_eq_some] at hkind
            refine ⟨nameText, spec, (listAndBase (typeAndPairs spec).1).1, kind, rfl,
              fun hnil => hname ((hempty _).mpr hnil), listAndBase_eq.mp ?_, h⟩
            rw [← hkind]
          · cases h
  · rintro ⟨nameText, spec, isList, kind, hcut, hname, htype, hpairs⟩
    have hne : (typeAndPairs spec).1 ≠ [] := by
      rw [htype]
      exact List.append_ne_nil_of_right_ne_nil _ (by cases kind <;> decide)
    unfold parse
    rw [hcut]
    simp only [(hempty _).not.mpr hname, List.isEmpty_iff, hne, Bool.false_eq_true, if_false,
      listAndBase_eq.mpr htype, SlotKind.ofName?_eq_some.mpr rfl, hpairs]

theorem parse_render (h : s.WellFormed) : parse s.render = .ok s := by
  have hname : Text.cutAt? (· == ':') s.render =
      some (s.name.toList, s.renderType ++ s.renderQuery) :=
    Text.cutAt?_append rfl fun c hc => beq_false_of_ne (h.name_chars c hc).1
  have htrim : Text.trim s.name.toList = s.name.toList := Text.trim_of_trimmed h.name_trimmed
  refine parse_eq_ok.mpr ⟨_, _, s.isList, s.kind, hname, by rw [htrim]; exact h.name_ne_nil, ?_, ?_⟩
  · rw [typeAndPairs_render h]
    rfl
  · rw [typeAndPairs_render h, htrim, String.ofList_toList]
    exact foldlM_parameters h

/-! ### Slots that were read -/

theorem typeAndPairs_chars (spec : List Char) :
    ∀ u ∈ (typeAndPairs spec).2, ∀ c ∈ u, c ≠ '&' ∧ c ∈ spec := by
  unfold typeAndPairs
  cases hcut : Text.cutAt? (· == '?') spec with
  | none => simp
  | some r =>
    obtain ⟨type, query⟩ := r
    obtain ⟨_, -, hspec, -⟩ := Text.cutAt?_spec hcut
    intro u hu c hc
    obtain ⟨hand, hmem⟩ := Text.mem_splitEvery hu c hc
    exact ⟨by simpa using hand, by simp [hspec, hmem]⟩

theorem addParameter_wellFormed {s' : Slot} {pair : List Char} (hs : s.WellFormed)
    (hpair : ∀ c ∈ pair, c ≠ '&' ∧ isBrace c = false) (h : s.addParameter pair = .ok s') :
    s'.WellFormed := by
  unfold addParameter at h
  cases hcut : Text.cutAt? (· == '=') pair with
  | none =>
    rw [hcut] at h
    cases h
  | some r =>
    obtain ⟨key, value⟩ := r
    obtain ⟨_, -, hvalue, -⟩ := Text.cutAt?_spec hcut
    rw [hcut] at h
    simp only at h
    split at h
    · rename_i c heq
      cases heq
      cases h
      refine { hs with separator := ?_ }
      rintro d ⟨⟩
      exact hpair c (by simp [hvalue])
    · split at h
      · rename_i hmax
        cases h
        refine { hs with maximum := ?_ }
        rintro m ⟨⟩
        rwa [String.toList_ofList]
      · cases h
    · cases h

theorem foldlM_wellFormed {s' : Slot} {pairs : List (List Char)} (hs : s.WellFormed)
    (hpairs : ∀ u ∈ pairs, ∀ c ∈ u, c ≠ '&' ∧ isBrace c = false)
    (h : pairs.foldlM addParameter s = .ok s') : s'.WellFormed := by
  induction pairs generalizing s with
  | nil =>
    cases h
    exact hs
  | cons u pairs ih =>
    obtain ⟨hu, hpairs⟩ := List.forall_mem_cons.mp hpairs
    rw [List.foldlM_cons] at h
    obtain ⟨s₁, hs₁, h⟩ := bind_eq_ok.mp h
    exact ih (addParameter_wellFormed hs hu hs₁) hpairs h

/-- A slot that was read from a text without braces is well formed. -/
theorem parse_wellFormed {body : List Char} (hbody : ∀ c ∈ body, isBrace c = false)
    (h : parse body = .ok s) : s.WellFormed := by
  obtain ⟨nameText, spec, isList, kind, hcut, hne, -, hpairs⟩ := parse_eq_ok.mp h
  obtain ⟨_, -, rfl, hcolon⟩ := Text.cutAt?_spec hcut
  obtain ⟨before, after, hname, -, htrimmed, -⟩ := Text.exists_trim nameText
  refine foldlM_wellFormed ?_ (fun u hu c hc => ?_) hpairs
  · refine ⟨?_, ?_, fun c hc => ?_, by simp, by simp⟩
    · rwa [String.toList_ofList]
    · rwa [String.toList_ofList]
    · rw [String.toList_ofList] at hc
      have hmem : c ∈ nameText := by rw [hname]; simp [hc]
      exact ⟨by simpa using hcolon c hmem, hbody c (by simp [hmem])⟩
  · obtain ⟨hand, hmem⟩ := typeAndPairs_chars spec u hu c hc
    exact ⟨hand, hbody c (by simp [hmem])⟩

theorem render_chars (h : s.WellFormed) : ∀ c ∈ s.render, isBrace c = false := by
  have hquery : ∀ c ∈ s.renderQuery, isBrace c = false := by
    unfold renderQuery
    split
    · simp
    · exact List.forall_mem_cons.mpr ⟨rfl, Text.forall_mem_intercalate
        (List.forall_mem_singleton.mpr rfl)
        fun u hu c hc => (parameters_chars h u hu c hc).2⟩
  refine List.forall_mem_append.mpr ⟨fun c hc => (h.name_chars c hc).2, ?_⟩
  refine List.forall_mem_cons.mpr ⟨rfl, List.forall_mem_append.mpr ⟨fun c hc => ?_, hquery⟩⟩
  exact (s.renderType_chars c hc).2.2

end Slot

/-! ## Reading patterns back -/

namespace Pattern

variable {p q : Pattern} {inSlot : Bool} {word u cs : List Char}

theorem compileFrom_run
    (hu : ∀ c ∈ u, isBrace c = false ∧ (inSlot = true ∨ Text.isBlank c = false)) :
    compileFrom p inSlot word (u ++ cs) = compileFrom p inSlot (word ++ u) cs := by
  induction u generalizing word with
  | nil => simp
  | cons c u ih =>
    obtain ⟨⟨hbrace, hblank⟩, hu⟩ := List.forall_mem_cons.mp hu
    simp only [isBrace, Bool.or_eq_false_iff] at hbrace
    have hword : (!inSlot && Text.isBlank c) = false := by
      rcases hblank with rfl | hblank
      · rfl
      · simp [hblank]
    rw [List.cons_append, compileFrom, hbrace.1, hbrace.2, hword]
    simp only [Bool.false_eq_true, if_false]
    rw [ih hu, List.append_assoc, List.singleton_append]

/-- A literal is read up to the blank behind it. -/
theorem compileFrom_literal {text : String} (h : (Part.literal text).WellFormed) :
    compileFrom p false [] (text.toList ++ cs) = compileFrom p false text.toList cs :=
  compileFrom_run fun c hc => ⟨(h.2 c hc).2, .inr (h.2 c hc).1⟩

theorem appendWord_literal {text : String} (h : (Part.literal text).WellFormed) :
    p.appendWord text.toList = p.append (.literal text) := by
  rw [appendWord, if_neg (by simpa using h.1), String.ofList_toList]

/-- A slot may follow whatever is no slot. -/
theorem appendSlot_eq_ok {s : Slot} : p.appendSlot s = .ok q ↔
    (∀ last ∈ p.parts.getLast?, last.Apart (.slot s)) ∧ p.append (.slot s) = q := by
  unfold appendSlot
  cases hlast : p.parts.getLast? with
  | none => simp
  | some last => cases last <;> simp [Part.Apart, Part.isSlot]

/-- A slot is read up to the brace that closes it. -/
theorem compileFrom_slot {s : Slot} (h : s.WellFormed)
    (hlast : ∀ last ∈ p.parts.getLast?, last.Apart (.slot s)) :
    compileFrom p false [] ((Part.slot s).render ++ cs) =
      compileFrom (p.append (.slot s)) false [] cs := by
  have hbody : compileFrom p true [] (s.render ++ '\x7d' :: cs) =
      compileFrom p true s.render ('\x7d' :: cs) :=
    compileFrom_run fun c hc => ⟨Slot.render_chars h c hc, .inl rfl⟩
  have hslot : p.appendSlot s = .ok (p.append (.slot s)) := appendSlot_eq_ok.mpr ⟨hlast, rfl⟩
  calc compileFrom p false [] ((Part.slot s).render ++ cs)
      = compileFrom p true [] (s.render ++ '\x7d' :: cs) := by
        simp [Part.render, compileFrom, appendWord]
    _ = compileFrom (p.append (.slot s)) false [] cs := by
        rw [hbody, compileFrom]
        simp [Slot.parse_render h, hslot, bind, Except.bind]

/-- A part is read up to the blank behind it. -/
theorem compileFrom_part {part : Part} (h : part.WellFormed)
    (hlast : ∀ last ∈ p.parts.getLast?, last.Apart part) :
    compileFrom p false [] (part.render ++ ' ' :: cs) =
      compileFrom (p.append part) false [] cs := by
  have hblank (p : Pattern) (word : List Char) :
      compileFrom p false word (' ' :: cs) = compileFrom (p.appendWord word) false [] cs := rfl
  cases part with
  | literal text => rw [Part.render, compileFrom_literal h, hblank, appendWord_literal h]
  | slot s =>
    rw [compileFrom_slot h hlast, hblank]
    rfl

/-- The last part is read up to the end of the text. -/
theorem compileFrom_last {part : Part} (h : part.WellFormed)
    (hlast : ∀ last ∈ p.parts.getLast?, last.Apart part) :
    compileFrom p false [] part.render = .ok (p.append part) := by
  rw [← List.append_nil part.render]
  cases part with
  | literal text =>
    rw [Part.render, compileFrom_literal h, compileFrom, appendWord_literal h]
    simp [append]
  | slot s =>
    rw [compileFrom_slot h hlast, compileFrom]
    simp [appendWord, append]

/-- Parts that are written down are appended one after the other. -/
theorem compileFrom_render {parts : List Part} (hne : parts ≠ [])
    (heach : ∀ part ∈ parts, part.WellFormed) (hapart : (p.parts ++ parts).IsChain Part.Apart) :
    compileFrom p false [] (render parts) = .ok (parts.foldl append p) := by
  induction parts generalizing p with
  | nil => contradiction
  | cons part parts ih =>
    obtain ⟨hpart, heach⟩ := List.forall_mem_cons.mp heach
    have hlast : ∀ last ∈ p.parts.getLast?, last.Apart part := fun last hl =>
      (List.isChain_append.mp hapart).2.2 last hl part rfl
    cases parts with
    | nil =>
      rw [render, List.map_singleton, List.intercalate_singleton, compileFrom_last hpart hlast]
      rfl
    | cons next parts =>
      have hrender : render (part :: next :: parts) =
          part.render ++ ' ' :: render (next :: parts) := by
        simp only [render, List.map_cons, List.intercalate_cons_cons, List.append_assoc,
          List.singleton_append]
      rw [List.append_cons] at hapart
      rw [hrender, compileFrom_part hpart hlast, ih (by simp) heach hapart]
      rfl

/-! ## Patterns that were read -/

/-- The leading literal is the one that the parts start with. -/
def Led (p : Pattern) : Prop := p.leading? = leadingOf p.parts

theorem leadingOf_eq_some {parts : List Part} {word : String} :
    leadingOf parts = some word ↔ parts.head? = some (.literal word) := by
  cases parts with
  | nil => simp [leadingOf]
  | cons part parts => cases part <;> simp [leadingOf]

/-- The leading literal is set with the first part, and stays. -/
theorem Led.append (h : p.Led) (part : Part) : (p.append part).Led := by
  obtain ⟨name, leading?, parts⟩ := p
  cases parts with
  | nil =>
    cases part with
    | literal text => rfl
    | slot s => exact h
  | cons first parts =>
    cases first with
    | literal text => exact h
    | slot s => exact h

theorem foldl_append (h : p.Led) (parts : List Part) :
    parts.foldl Pattern.append p = ⟨p.name, leadingOf (p.parts ++ parts), p.parts ++ parts⟩ := by
  induction parts generalizing p with
  | nil => rw [List.append_nil, ← h, List.foldl_nil]
  | cons part parts ih =>
    rw [List.foldl_cons, ih (h.append part), List.append_cons]
    rfl

/-- What holds of a pattern while it is read: each part can be written, no slot follows another, and
the leading literal is that of the parts. -/
structure Coherent (p : Pattern) : Prop where
  each : ∀ part ∈ p.parts, part.WellFormed
  apart : p.parts.IsChain Part.Apart
  led : p.Led

theorem coherent_empty (name : String) : Coherent { name } where
  each := by simp
  apart := .nil
  led := rfl

theorem Coherent.append {part : Part} (h : p.Coherent) (hpart : part.WellFormed)
    (hlast : ∀ last ∈ p.parts.getLast?, last.Apart part) : (p.append part).Coherent where
  each := List.forall_mem_append.mpr ⟨h.each, List.forall_mem_singleton.mpr hpart⟩
  apart := List.isChain_append.mpr ⟨h.apart, .singleton _, fun last hl b hb => by
    cases hb
    exact hlast last hl⟩
  led := h.led.append part

/-- A word that was read outside slots is a literal. -/
theorem Coherent.appendWord (h : p.Coherent)
    (hword : ∀ c ∈ word, isBrace c = false ∧ Text.isBlank c = false) :
    (p.appendWord word).Coherent := by
  unfold Pattern.appendWord
  split
  · exact h
  · rename_i hne
    refine h.append ?_ fun _ _ _ => rfl
    simp only [Part.WellFormed, String.toList_ofList]
    exact ⟨by simpa using hne, fun c hc => (hword c hc).symm⟩

theorem appendWord_name (p : Pattern) (word : List Char) : (p.appendWord word).name = p.name := by
  unfold appendWord
  split
  · rfl
  · rfl

theorem compileFrom_coherent (hp : p.Coherent)
    (hword : ∀ c ∈ word, isBrace c = false ∧ (inSlot = true ∨ Text.isBlank c = false))
    (h : compileFrom p inSlot word cs = .ok q) :
    q.Coherent ∧ q.parts ≠ [] ∧ q.name = p.name := by
  induction cs generalizing p inSlot word with
  | nil =>
    rw [compileFrom] at h
    cases inSlot with
    | true => cases h
    | false =>
      simp only [Bool.false_eq_true, if_false] at h
      split at h
      · cases h
      · rename_i hne
        cases h
        exact ⟨hp.appendWord (by simpa using hword), by simpa using hne, appendWord_name p word⟩
  | cons c cs ih =>
    have hnil : ∀ inSlot : Bool, ∀ d ∈ ([] : List Char),
        isBrace d = false ∧ (inSlot = true ∨ Text.isBlank d = false) := by simp
    rw [compileFrom] at h
    split at h
    · -- A brace opens a slot, and the literal in front of it ends.
      cases inSlot with
      | true => cases h
      | false =>
        have hq := ih (hp.appendWord (by simpa using hword)) (hnil true) h
        rwa [appendWord_name] at hq
    · rename_i hopen
      split at h
      · -- A brace closes a slot.
        cases inSlot with
        | false => cases h
        | true =>
          simp only [if_true] at h
          obtain ⟨s, hs, h⟩ := bind_eq_ok.mp h
          obtain ⟨p', hp', h⟩ := bind_eq_ok.mp h
          obtain ⟨hlast, rfl⟩ := appendSlot_eq_ok.mp hp'
          have hs : (Part.slot s).WellFormed := Slot.parse_wellFormed (fun d hd => (hword d hd).1) hs
          exact ih (p := p.append (.slot s)) (hp.append hs hlast) (hnil false) h
      · rename_i hclose
        split at h
        · -- A blank outside slots ends a literal.
          rename_i hblank
          obtain ⟨rfl, -⟩ : inSlot = false ∧ Text.isBlank c = true := by simpa using hblank
          have hq := ih (hp.appendWord (by simpa using hword)) (hnil false) h
          rwa [appendWord_name] at hq
        · rename_i hblank
          refine ih hp (List.forall_mem_append.mpr ⟨hword, ?_⟩) h
          simp only [Bool.not_eq_true] at hopen hclose
          rw [List.forall_mem_singleton, isBrace, hopen, hclose]
          cases inSlot <;> simp_all

theorem compile_coherent {name : String} {text : List Char} (h : compile name text = .ok p) :
    p.Coherent ∧ p.parts ≠ [] ∧ p.name = name :=
  compileFrom_coherent (coherent_empty name) (by simp) h

/-- A pattern that was read is well formed. -/
theorem compile_wellFormed {name : String} {text : List Char} (h : compile name text = .ok p) :
    WellFormed p.parts := by
  obtain ⟨hp, hne, -⟩ := compile_coherent h
  exact ⟨hne, hp.each, hp.apart⟩

/-! ## Slots in a row -/

end Pattern

/-- What a slot captures is judged by itself. -/
theorem Slot.convert_faults (s : Slot) (cs : List Char) :
    FaultsAre (· ≠ .adjacentSlots) (s.convert cs) := by
  have hint (cs : List Char) : FaultsAre (· ≠ .adjacentSlots) (s.toInt cs) := by
    unfold toInt
    split
    · exact .ok _
    · exact .error (by simp)
  have hfloat (cs : List Char) : FaultsAre (· ≠ .adjacentSlots) (s.toFloat cs) := by
    unfold toFloat
    split
    · exact .ok _
    · exact .error (by simp)
  have helements : FaultsAre (· ≠ .adjacentSlots) (s.elements cs) := by
    unfold elements
    simp only
    split
    · split
      · exact .error (by simp)
      · exact .ok _
    · exact .ok _
  unfold convert
  split
  · exact .bind (hint cs) fun _ => .ok _
  · exact .bind (hfloat cs) fun _ => .ok _
  · exact .ok _
  · exact .bind helements fun us => .bind (.mapM hint us) fun _ => .ok _
  · exact .bind helements fun us => .bind (.mapM hfloat us) fun _ => .ok _
  · exact .bind helements fun _ => .ok _

namespace Pattern

theorem matchParts_faults {parts : List Part} (h : parts.IsChain Part.Apart) (offset : Nat)
    (cs : List Char) : FaultsAre (· ≠ .adjacentSlots) (matchParts parts offset cs) := by
  induction parts generalizing offset cs with
  | nil =>
    rw [matchParts]
    split
    · exact .ok _
    · exact .error (by simp)
  | cons part parts ih =>
    have ih := ih h.tail
    cases part with
    | literal text =>
      rw [matchParts]
      split
      · exact ih _ _
      · exact .error (by simp)
    | slot s =>
      have hcaptured (cs : List Char) : FaultsAre (· ≠ .adjacentSlots) (capturedBy parts cs) := by
        unfold capturedBy
        split
        · exact .ok _
        · split
          · exact .ok _
          · exact .error (by simp)
        · cases (List.isChain_cons_cons.mp h).1 rfl
      rw [matchParts]
      refine .bind (hcaptured _) fun ⟨span, rest⟩ => ?_
      simp only
      split
      · exact .error (by simp)
      · exact .bind (s.convert_faults _) fun _ => .bind (ih _ _) fun _ => .ok _

/-- What is read is well formed and begins with the leading literal that is kept for it, and matching
it never meets two slots in a row. What is well formed is read when it is written down. -/
theorem compile_inverts_render (name : String) :
    (∀ text p, compile name text = .ok p →
      p.name = name ∧ WellFormed p.parts ∧
        (∀ word, p.leading? = some word ↔ p.parts.head? = some (.literal word)) ∧
        ∀ input, p.captures input ≠ .error .adjacentSlots) ∧
    ∀ parts, WellFormed parts →
      compile name (render parts) = .ok ⟨name, leadingOf parts, parts⟩ := by
  refine ⟨fun text p h => ?_, fun parts h => ?_⟩
  · obtain ⟨hp, -, hname⟩ := compile_coherent h
    refine ⟨hname, compile_wellFormed h, fun word => ?_, fun input hfault => ?_⟩
    · rw [hp.led, leadingOf_eq_some]
    · exact matchParts_faults hp.apart _ _ _ hfault rfl
  · have happended := compileFrom_render (p := { name }) h.ne_nil h.each h.apart
    rw [compile, happended, foldl_append (coherent_empty name).led]
    rfl

/-- A list whose separator is the sign that ends a parameter's name. -/
def assignments : List Part :=
  [.literal "A=", .literal "B",
    .slot { name := "x?y", kind := .text, isList := true, separator := some '=',
            maximum := some "+07" },
    .literal ";"]

theorem wellFormed_assignments : WellFormed assignments := by
  have hword (text : String) (hne : text.toList ≠ [])
      (h : text.toList.all (fun c => !Text.isBlank c && !isBrace c) = true) :
      (Part.literal text).WellFormed :=
    ⟨hne, fun c hc => by simpa using List.all_eq_true.mp h c hc⟩
  have hname : ∀ c ∈ "x?y".toList, c ≠ ':' ∧ isBrace c = false := fun c hc => by
    have hall : "x?y".toList.all (fun c => c != ':' && !isBrace c) = true := rfl
    simpa using List.all_eq_true.mp hall c hc
  refine ⟨by simp [assignments], ?_, by simp [assignments, Part.Apart, Part.isSlot]⟩
  simp only [assignments, List.forall_mem_cons]
  refine ⟨hword "A=" (by decide) rfl, hword "B" (by decide) rfl, ?_, hword ";" (by decide) rfl,
    by simp⟩
  exact ⟨by decide, ⟨by rintro c ⟨⟩; rfl, by rintro c ⟨⟩; rfl⟩, hname, by rintro c ⟨⟩; decide,
    by rintro m ⟨⟩; decide +kernel⟩

theorem compile_inverts_render_assignments :
    WellFormed assignments ∧
      compile "LET" "A= B \x7bx?y:[]string?max=+07&sep==\x7d ;".toList =
        .ok ⟨"LET", some "A=", assignments⟩ :=
  ⟨wellFormed_assignments, (compile_inverts_render "LET").2 assignments wellFormed_assignments⟩

end Pattern

end ClassicBasic
