import ClassicBasic.Proofs.Pattern
import ClassicBasic.Proofs.Pattern.Compile

/-!
# Leading literals only save work

`Pattern.candidates` leaves out the patterns whose leading literal does not start the text. The
literal is looked for in the text without the blanks in front of it, and a pattern is matched with
the text without the blanks at either end. The second text starts the first
(`Text.trim_isPrefix_trimStart`), so a pattern that is left out could not have matched
(`Pattern.starts_of_captures`), and a set finds what trying all of its patterns would find
(`PatternSet.find?_unfiltered`).
-/

namespace ClassicBasic

/-- `trim` takes off what `trimStart` does and the blanks at the end. -/
theorem Text.trim_isPrefix_trimStart (cs : List Char) : trim cs <+: trimStart cs := by
  have hsuffix := List.dropWhile_suffix isBlank (l := (trimStart cs).reverse)
  have hstarts := List.reverse_prefix.mpr hsuffix
  rwa [List.reverse_reverse] at hstarts

/-- Items that `f` refuses may be left out of a search. -/
theorem findSome?_filter_of_none {α β : Type} {p : α → Bool} {f : α → Option β} {as : List α}
    (h : ∀ a ∈ as, p a = false → f a = none) : (as.filter p).findSome? f = as.findSome? f := by
  induction as with
  | nil => rfl
  | cons a as ih =>
    obtain ⟨ha, has⟩ := List.forall_mem_cons.mp h
    rw [List.findSome?_cons]
    cases hp : p a with
    | true => rw [List.filter_cons_of_pos hp, List.findSome?_cons, ih has]
    | false => rw [List.filter_cons_of_neg (by simp [hp]), ha hp, ih has]

namespace Pattern

/-- The fields of a text that fits the pattern, and the pattern's name. -/
def answer? (p : Pattern) (text : List Char) : Option (Table Capture × String) :=
  (p.captures text).toOption.map fun captures => (p.fields captures, p.name)

/-- Patterns with a leading literal first, and apart from that in their order. -/
def inOrder (patterns : List Pattern) : List Pattern :=
  patterns.filter (·.leading?.isSome) ++ patterns.filter (·.leading?.isNone)

section
variable {p : Pattern} {text : List Char} {captures : List Capture} {literal : String}

/-- What matches a pattern starts with its leading literal. -/
theorem starts_of_captures (hp : p.Led) (hleading : p.leading? = some literal)
    (h : p.captures text = .ok captures) : literal.toList <+: Text.trimStart text := by
  obtain ⟨parts, hparts⟩ : ∃ parts, p.parts = .literal literal :: parts :=
    List.head?_eq_some_iff.mp (leadingOf_eq_some.mp (hp.symm.trans hleading))
  have hfits : fits? (.literal literal :: parts) (Text.trim text) = some captures := by
    rw [← hparts, ← matchParts_toOption _ 0]
    exact toOption_eq_some.mpr h
  obtain ⟨rest, hrest, -⟩ := fits?_literal hfits
  rw [Text.trimStart_trim] at hrest
  exact List.IsPrefix.trans ⟨rest, hrest.symm⟩ (Text.trim_isPrefix_trimStart text)

theorem dropLeading?_isSome_iff {needle cs : List Char} :
    (Text.dropLeading? needle cs).isSome = true ↔ needle <+: cs := by
  simp only [Option.isSome_iff_exists, Text.dropLeading?_eq_some]
  exact exists_congr fun _ => eq_comm

/-- A pattern with a leading literal that does not start the text does not match. -/
theorem answer?_of_skipped (hp : p.Led) (hleading : p.leading? = some literal)
    (h : ¬ literal.toList <+: Text.trimStart text) : p.answer? text = none := by
  rw [answer?]
  cases hcaptures : p.captures text with
  | error e => rfl
  | ok captures => exact absurd (starts_of_captures hp hleading hcaptures) h

end

/-- Whether the text starts with the pattern's leading literal. -/
def isStarted (text : List Char) (p : Pattern) : Bool :=
  p.leading?.any fun literal => (Text.dropLeading? literal.toList (Text.trimStart text)).isSome

theorem answer?_of_not_isStarted {p : Pattern} {text : List Char} (hp : p.Led)
    (hled : p.leading?.isSome = true) (h : isStarted text p = false) :
    p.answer? text = none := by
  obtain ⟨literal, hleading⟩ := Option.isSome_iff_exists.mp hled
  refine answer?_of_skipped hp hleading fun hstarts => ?_
  rw [isStarted, hleading, Option.any_some, dropLeading?_isSome_iff.mpr hstarts] at h
  cases h

/-- The candidates are the patterns with a leading literal, with some left out, and the others. -/
theorem candidates_eq (patterns : List Pattern) (text : List Char) :
    candidates id patterns text =
      (patterns.filter (·.leading?.isSome)).filter (isStarted text) ++
        patterns.filter (·.leading?.isNone) := by
  have hstarted : ∀ p, (isStarted text p && p.leading?.isSome) = isStarted text p := by
    intro p
    unfold isStarted
    cases p.leading? <;> simp
  rw [candidates, List.filter_filter]
  simp only [hstarted]
  rfl

/-- **Candidates suffice.** Of patterns tried in order, first those with a leading literal and then
the others, the candidates alone decide which one fits. -/
theorem firstMatch?_unfiltered {patterns : List Pattern} (hpatterns : ∀ p ∈ patterns, p.Led)
    (text : List Char) :
    (firstMatch? id patterns text).map (fun r => (r.1.fields r.2, r.1.name)) =
      (inOrder patterns).findSome? (·.answer? text) := by
  have hcandidates : (firstMatch? id patterns text).map (fun r => (r.1.fields r.2, r.1.name)) =
      (candidates id patterns text).findSome? (·.answer? text) := by
    rw [firstMatch?, List.map_findSome?]
    congr 1
    funext p
    simp only [Function.comp, answer?, id]
    cases p.captures text <;> rfl
  have hskipped : ((patterns.filter (·.leading?.isSome)).filter (isStarted text)).findSome?
      (·.answer? text) = (patterns.filter (·.leading?.isSome)).findSome? (·.answer? text) :=
    findSome?_filter_of_none fun p hp =>
      answer?_of_not_isStarted (hpatterns p (List.mem_filter.mp hp).1) (List.mem_filter.mp hp).2
  rw [hcandidates, candidates_eq, inOrder, List.findSome?_append, List.findSome?_append, hskipped]

end Pattern

namespace PatternSet

/-- The set after `additions`, each a name and a text. One that is no pattern adds nothing. -/
def addEach (additions : List (String × List Char)) : PatternSet :=
  additions.foldl (fun set a => (set.add a.1 a.2).toOption.getD set) {}

/-- The patterns of a set, in the order in which they were added. -/
theorem patterns_addEach (additions : List (String × List Char)) :
    (addEach additions).patterns =
      additions.filterMap fun a => (Pattern.compile a.1 a.2).toOption := by
  suffices h : ∀ set : PatternSet,
      (additions.foldl (fun set a => (set.add a.1 a.2).toOption.getD set) set).patterns =
        set.patterns ++ additions.filterMap fun a => (Pattern.compile a.1 a.2).toOption from h {}
  induction additions with
  | nil => simp
  | cons a additions ih =>
    intro set
    rw [List.foldl_cons, ih, List.filterMap_cons, add]
    cases Pattern.compile a.1 a.2 with
    | error e => rfl
    | ok p => simp [Except.toOption, bind, Except.bind]

/-- **The filter only saves work.** However a set was made, it finds in a text what trying its
patterns one by one would find, in the order in which they were added but those with a leading
literal first; and no pattern fits whose leading literal does not start the text. -/
theorem find?_unfiltered (additions : List (String × List Char)) (text : List Char) :
    let patterns := additions.filterMap fun a => (Pattern.compile a.1 a.2).toOption
    ((addEach additions).find? text).map (fun r => (r.1.fields r.2, r.1.name)) =
        (Pattern.inOrder patterns).findSome? (·.answer? text) ∧
      ∀ p ∈ patterns, ∀ literal ∈ p.leading?, ¬ literal.toList <+: Text.trimStart text →
        p.answer? text = none := by
  intro patterns
  have hled : ∀ p ∈ patterns, p.Led := by
    intro p hp
    obtain ⟨a, -, ha⟩ := List.mem_filterMap.mp hp
    exact (Pattern.compile_coherent (toOption_eq_some.mp ha)).1.led
  refine ⟨?_, fun p hp literal hleading => Pattern.answer?_of_skipped (hled p hp) hleading⟩
  rw [find?, patterns_addEach]
  exact Pattern.firstMatch?_unfiltered hled text

/-- A bare pattern, a text that is none, and two patterns with leading literals. -/
def mixedAdditions : List (String × List Char) :=
  [("ASSIGN", "\x7bto:string\x7d=\x7bvalue:int\x7d".toList), ("OPEN", "\x7bto".toList),
   ("LINE", "GO".toList), ("LET", "LET \x7bto:string\x7d=\x7bvalue:int\x7d".toList)]

/-- The bare pattern fits too, with `LET A` for its first slot, but is tried last. -/
theorem find?_unfiltered_mixedAdditions :
    ((addEach mixedAdditions).find? " LET A= 5 ".toList).map
        (fun r => (r.1.fields r.2, r.1.name)) =
      some (Table.ofList [("to", .text "A"), ("value", .int 5)], "LET") ∧
    (Pattern.mk "LINE" (some "GO") [.literal "GO"]).answer? " LET A= 5 ".toList = none := by
  obtain ⟨hfind, hskipped⟩ := find?_unfiltered mixedAdditions " LET A= 5 ".toList
  exact ⟨hfind.trans rfl, hskipped _ (by decide +kernel) "GO" rfl (by decide)⟩

end PatternSet

end ClassicBasic
