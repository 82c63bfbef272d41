import ClassicBasic.Pattern.Match
import ClassicBasic.Proofs.Except
import ClassicBasic.Proofs.Text.Search

/-!
# What fits a pattern

`Pattern.fits?` is `Pattern.matchParts` without its messages, and so without the offsets that they
count. The first pattern that fits depends on it alone (`firstMatch?_eq`). What the slots capture
was cut out of the text, so it is no longer than the text (`fits?_length`), and the first slot of a
pattern that starts with one captures the text from its first character on (`head?_of_fits?_slot`).
-/

namespace ClassicBasic

theorem toOption_bind {ε α β : Type} (x : Except ε α) (f : α → Except ε β) :
    (x >>= f).toOption = x.toOption.bind fun a => (f a).toOption := by
  cases x <;> rfl

theorem toOption_eq_some {ε α : Type} {x : Except ε α} {a : α} :
    x.toOption = some a ↔ x = .ok a := by
  cases x <;> simp [Except.toOption]

/-- Only a slot for one text captures one, and it captures what it is given. -/
theorem Slot.convert_text {s : Slot} {cs : List Char} {t : String}
    (h : s.convert cs = .ok (.text t)) : t = String.ofList cs := by
  unfold Slot.convert at h
  split at h
  case h_3 =>
    cases h
    rfl
  all_goals
    repeat obtain ⟨_, -, h⟩ := bind_eq_ok.mp h
    cases h

namespace Pattern

/-- The captures of the slots of `parts`, if `cs` fits. -/
def fits? : (parts : List Part) → (cs : List Char) → Option (List Capture)
  | [], cs => if Text.allBlank cs then some [] else none
  | .literal literal :: parts, cs =>
    (Text.dropLeading? literal.toList (Text.trimStart cs)).bind (fits? parts)
  | .slot s :: parts, cs => do
    let (span, rest) ← (capturedBy parts (Text.trimStart cs)).toOption
    if (Text.trim span).isEmpty then none
    else
      let capture ← (s.convert (Text.trim span)).toOption
      return capture :: (← fits? parts rest)

theorem matchParts_toOption (parts : List Part) (offset : Nat) (cs : List Char) :
    (matchParts parts offset cs).toOption = fits? parts cs := by
  induction parts generalizing offset cs with
  | nil =>
    rw [matchParts, fits?]
    split <;> rfl
  | cons part parts ih =>
    cases part with
    | literal literal =>
      rw [matchParts, fits?]
      cases Text.dropLeading? literal.toList (Text.trimStart cs) with
      | none => rfl
      | some rest => exact ih _ rest
    | slot s =>
      rw [matchParts, fits?, toOption_bind]
      cases capturedBy parts (Text.trimStart cs) with
      | error e => rfl
      | ok r =>
        obtain ⟨span, rest⟩ := r
        change Except.toOption (if (Text.trim span).isEmpty then _ else _) = _
        change _ = if (Text.trim span).isEmpty then none else _
        split
        · rfl
        · rw [toOption_bind]
          refine congrArg _ (funext fun capture => ?_)
          rw [toOption_bind, ih]
          rfl

section
variable {parts : List Part} {captures : List Capture} {cs span rest : List Char} {t : String}

/-- A text that fits a literal and what follows it. -/
theorem fits?_literal {literal : String}
    (h : fits? (.literal literal :: parts) cs = some captures) :
    ∃ rest, Text.trimStart cs = literal.toList ++ rest ∧ fits? parts rest = some captures := by
  rw [fits?] at h
  obtain ⟨rest, hrest, h⟩ := Option.bind_eq_some_iff.mp h
  exact ⟨rest, Text.dropLeading?_eq_some.mp hrest, h⟩

/-- A text that fits a slot and what follows it. -/
theorem fits?_slot {s : Slot} (h : fits? (.slot s :: parts) cs = some captures) :
    ∃ span rest capture captures',
      capturedBy parts (Text.trimStart cs) = .ok (span, rest) ∧ Text.trim span ≠ [] ∧
      s.convert (Text.trim span) = .ok capture ∧
      fits? parts rest = some captures' ∧ captures = capture :: captures' := by
  rw [fits?] at h
  obtain ⟨⟨span, rest⟩, hspan, h⟩ := Option.bind_eq_some_iff.mp h
  simp only at h
  split at h
  · cases h
  · rename_i hne
    obtain ⟨capture, hcapture, h⟩ := Option.bind_eq_some_iff.mp h
    obtain ⟨captures', hrest, h⟩ := Option.bind_eq_some_iff.mp h
    cases h
    exact ⟨span, rest, capture, captures', toOption_eq_some.mp hspan, by simpa using hne,
      toOption_eq_some.mp hcapture, hrest, rfl⟩

theorem fits?_literal_eq {literal : String} (h : Text.trimStart cs = literal.toList ++ rest) :
    fits? (.literal literal :: parts) cs = fits? parts rest := by
  rw [fits?, Text.dropLeading?_eq_some.mpr h]
  rfl

/-- What a slot makes of a text, when the parts behind it fit the rest. -/
theorem fits?_slot_eq {s : Slot} {capture : Capture} {u : List Char}
    (hcaptured : capturedBy parts (Text.trimStart cs) = .ok (span, rest))
    (hspan : Text.trim span = Text.trim u) (hu : ¬ Text.allBlank u = true)
    (hcapture : s.convert (Text.trim u) = .ok capture)
    (hrest : fits? parts rest = some captures) :
    fits? (.slot s :: parts) cs = some (capture :: captures) := by
  have hne : Text.trim u ≠ [] := fun h => hu (Text.trim_eq_nil.mp h)
  rw [fits?, hcaptured]
  simp [Except.toOption, hspan, hne, hcapture, hrest]

/-- A capture and what is left of the text make up the text. -/
theorem capturedBy_eq (h : capturedBy parts cs = .ok (span, rest)) : cs = span ++ rest := by
  unfold capturedBy at h
  split at h
  · cases h
    simp
  · split at h
    · rename_i r hfound
      cases h
      exact (Text.findOutsideQuotes?_spec hfound).1
    · cases h
  · cases h

theorem capturedBy_literal {word : String} :
    capturedBy (.literal word :: parts) cs = .ok (span, rest) ↔
      Text.findOutsideQuotes? word.toList cs = some (span, rest) := by
  rw [capturedBy]
  cases Text.findOutsideQuotes? word.toList cs <;> simp

/-- Blanks in front of a text do not count. -/
theorem fits?_blanks (parts : List Part) (cs : List Char) {ws : List Char}
    (hws : Text.allBlank ws = true) : fits? parts (ws ++ cs) = fits? parts cs := by
  have hstart : Text.trimStart (ws ++ cs) = Text.trimStart cs := by
    rw [Text.trimStart, List.dropWhile_append_of_pos (by simpa [Text.allBlank] using hws)]
    rfl
  cases parts with
  | nil => rw [fits?, fits?, Text.allBlank_append, hws, Bool.true_and]
  | cons part parts =>
    cases part with
    | literal literal => rw [fits?, fits?, hstart]
    | slot s => rw [fits?, fits?, hstart]

theorem fits?_space (parts : List Part) (cs : List Char) :
    fits? parts (' ' :: cs) = fits? parts cs :=
  fits?_blanks parts cs (by rfl : Text.allBlank [' '] = true)

/-- What is captured is no longer than the text. -/
theorem fits?_length (h : fits? parts cs = some captures) (ht : .text t ∈ captures) :
    t.toList.length ≤ cs.length := by
  induction parts generalizing cs captures with
  | nil =>
    rw [fits?] at h
    split at h
    · cases h
      cases ht
    · cases h
  | cons part parts ih =>
    have hstart := Text.length_trimStart_le cs
    cases part with
    | literal literal =>
      obtain ⟨rest, hrest, h⟩ := fits?_literal h
      have hlength := congrArg List.length hrest
      rw [List.length_append] at hlength
      have := ih h ht
      omega
    | slot s =>
      obtain ⟨span, rest, capture, captures', hspan, -, hcapture, hfits, rfl⟩ := fits?_slot h
      have hlength := congrArg List.length (capturedBy_eq hspan)
      rw [List.length_append] at hlength
      rcases List.mem_cons.mp ht with rfl | ht
      · rw [Slot.convert_text hcapture, String.toList_ofList]
        have := Text.length_trim_le span
        omega
      · have := ih hfits ht
        omega

/-- A slot at the start of a pattern captures the text from its first character on. -/
theorem head?_of_fits?_slot {s : Slot}
    (h : fits? (.slot s :: parts) cs = some (.text t :: captures))
    (hcs : ∀ c ∈ cs.head?, Text.isBlank c = false) : t.toList.head? = cs.head? := by
  obtain ⟨span, rest, capture, captures', hspan, hne, hcapture, -, heq⟩ := fits?_slot h
  cases heq
  rw [Text.trimStart_eq hcs] at hspan
  have hhead : span.head? = cs.head? := by
    rw [capturedBy_eq hspan, List.head?_append]
    cases span with
    | nil => exact absurd rfl hne
    | cons c span => rfl
  rw [Slot.convert_text hcapture, String.toList_ofList, Text.head?_trim (by rwa [hhead]), hhead]

end

theorem firstMatch?_eq {α : Type} (pattern : α → Pattern) (items : List α) (text : List Char) :
    firstMatch? pattern items text = (candidates pattern items text).findSome? fun item =>
      (fits? (pattern item).parts (Text.trim text)).map (item, ·) := by
  unfold firstMatch? captures
  congr 1
  funext item
  rw [← matchParts_toOption _ 0]
  cases matchParts (pattern item).parts 0 (Text.trim text) <;> rfl

theorem fits?_of_firstMatch? {α : Type} {pattern : α → Pattern} {items : List α}
    {text : List Char} {item : α} {captures : List Capture}
    (h : firstMatch? pattern items text = some (item, captures)) :
    fits? (pattern item).parts (Text.trim text) = some captures := by
  rw [firstMatch?_eq] at h
  obtain ⟨item', -, hfits⟩ := List.exists_of_findSome?_eq_some h
  obtain ⟨captures', hfits, heq⟩ := Option.map_eq_some_iff.mp hfits
  cases heq
  exact hfits

end Pattern

end ClassicBasic
