import ClassicBasic.Proofs.Text.Composition
import Mathlib.Algebra.Group.Nat.Even

/-!
# Occurrences outside quotes

`OccursBetween needle pre post` says of a word or mark between two texts that it counts as an
occurrence: no quote is open in front of it, and letters do not touch it if it is made of letters.
`findOutsideQuotes?` finds the first one (`findOutsideQuotes?_first`) unless there is none
(`findOutsideQuotes?_eq_none`). Nothing is searched for in its definition, so what is found can be
compared between a text and a longer one that it is part of.
-/

namespace ClassicBasic.Text

/-- `needle` occurs between `pre` and `post` outside quotes, and on its own if it is a word. -/
structure OccursBetween (needle pre post : List Char) : Prop where
  outside : Even (pre.count '"')
  alone : (∀ c ∈ needle, c.isAlpha = true) →
    (∀ c ∈ pre.getLast?, isWordChar c = false) ∧ ∀ c ∈ post.head?, isWordChar c = false

section
variable {needle before pre post ws cs u v a b : List Char} {c? d? : Option Char} {quoted : Bool}

/-! ## Quotes that are counted -/

/-- Quotes open and close in turn. -/
theorem endsQuoted_eq_self : endsQuoted quoted cs = quoted ↔ Even (cs.count '"') := by
  induction cs generalizing quoted with
  | nil => simp [endsQuoted]
  | cons c cs ih =>
    have hstep : endsQuoted quoted (c :: cs) =
        endsQuoted (if c == '"' then !quoted else quoted) cs := rfl
    rw [hstep, List.count_cons]
    cases hc : c == '"' with
    | false => simpa using ih
    | true =>
      have ih : endsQuoted (!quoted) cs = (!quoted) ↔ Even (cs.count '"') := ih
      have hflip : endsQuoted (!quoted) cs = quoted ↔ ¬ endsQuoted (!quoted) cs = !quoted := by
        cases endsQuoted (!quoted) cs <;> cases quoted <;> simp
      simp only [if_true, Nat.even_add_one, ← ih, hflip]

theorem even_count_blanks (h : allBlank ws = true) : Even (ws.count '"') :=
  endsQuoted_eq_self.mp (endsQuoted_blanks h false)

/-! ## Longer texts -/

namespace OccursBetween

/-- In front of what stands there, a text with closed quotes may be left out. -/
theorem of_append (hbefore : Even (before.count '"'))
    (h : OccursBetween needle (before ++ pre) post) : OccursBetween needle pre post where
  outside := by
    have houtside := h.outside
    rwa [List.count_append, Nat.even_add, iff_true_left hbefore] at houtside
  alone := fun hneedle => by
    obtain ⟨hpre, hpost⟩ := h.alone hneedle
    refine ⟨fun c hc => hpre c ?_, hpost⟩
    rw [List.getLast?_append, hc]
    rfl

/-- It may be put there if something stands between. -/
theorem append (hbefore : Even (before.count '"')) (hpre : pre ≠ [])
    (h : OccursBetween needle pre post) : OccursBetween needle (before ++ pre) post where
  outside := by
    rw [List.count_append]
    exact hbefore.add h.outside
  alone := fun hneedle => by
    obtain ⟨hword, hpost⟩ := h.alone hneedle
    obtain ⟨d, hd⟩ := Option.isSome_iff_exists.mp (List.getLast?_isSome.mpr hpre)
    refine ⟨fun c hc => hword c ?_, hpost⟩
    rwa [List.getLast?_append, hd, Option.some_or, ← hd] at hc

/-- Blanks at the end make no difference. -/
theorem append_blanks_iff (hws : allBlank ws = true) :
    OccursBetween needle pre (post ++ ws) ↔ OccursBetween needle pre post := by
  have hhead : (∀ c ∈ (post ++ ws).head?, isWordChar c = false) ↔
      ∀ c ∈ post.head?, isWordChar c = false := by
    cases post with
    | cons c post => rfl
    | nil =>
      refine iff_of_true (fun c hc => not_isWordChar_of_isBlank ?_) (by simp)
      exact List.all_eq_true.mp hws c (List.mem_of_mem_head? hc)
  constructor
  · exact fun h => ⟨h.outside, fun hneedle => (h.alone hneedle).imp_right hhead.mp⟩
  · exact fun h => ⟨h.outside, fun hneedle => (h.alone hneedle).imp_right hhead.mpr⟩

end OccursBetween

/-! ## The search -/

theorem standsAlone_iff : standsAlone needle c? d? = true ↔
    ((∀ c ∈ needle, c.isAlpha = true) →
      (∀ c ∈ c?, isWordChar c = false) ∧ ∀ c ∈ d?, isWordChar c = false) := by
  rw [← List.all_eq_true]
  cases hall : needle.all Char.isAlpha <;> simp [standsAlone, hall, Option.any_eq_false]

theorem occursBetween_iff : OccursBetween needle pre post ↔
    endsQuoted false pre = false ∧ occursAt needle pre.getLast? (needle ++ post) = true := by
  rw [endsQuoted_eq_self, occursAt_iff]
  constructor
  · exact fun h => ⟨h.outside, post, rfl, standsAlone_iff.mpr h.alone⟩
  · rintro ⟨houtside, rest, hrest, halone⟩
    obtain rfl := List.append_cancel_left hrest
    exact ⟨houtside, standsAlone_iff.mp halone⟩

/-- What is found stands outside quotes. -/
theorem findFrom?_outside (hneedle : IsSolid needle)
    (h : findFrom? needle c? quoted cs = some (a, b)) : endsQuoted quoted a = false := by
  induction cs generalizing c? quoted a with
  | nil => cases h
  | cons c cs ih =>
    simp only [findFrom?] at h
    generalize hquoted : (if (c == '"') = true then !quoted else quoted) = quoted' at h
    split at h
    · rename_i hfound
      cases h
      have hquote : (needle == ['"']) = false := by
        refine beq_false_of_ne fun hquote => hneedle.notMem_quote ?_
        simp [hquote]
      simp only [hquote, Bool.or_false, Bool.and_eq_true, bne_iff_ne, ne_eq, Bool.not_eq_true']
        at hfound
      obtain ⟨⟨hc, hclosed⟩, -⟩ := hfound
      rw [← hquoted] at hclosed
      simpa [hc, endsQuoted] using hclosed
    · obtain ⟨⟨a', b'⟩, hcs, heq⟩ := Option.map_eq_some_iff.mp h
      cases heq
      have hrest : endsQuoted quoted' a' = false := ih hcs
      rwa [← hquoted] at hrest

/-- Whatever occurs is found, if nothing is found in front of it. -/
theorem exists_findFrom? (hneedle : IsSolid needle)
    (hquoted : endsQuoted quoted u = false)
    (hoccurs : occursAt needle (u.getLast?.or c?) v = true) :
    ∃ a b, findFrom? needle c? quoted (u ++ v) = some (a, b) ∧ a.length ≤ u.length := by
  induction u generalizing c? quoted with
  | nil =>
    obtain rfl : quoted = false := hquoted
    exact ⟨[], v, findFrom?_of_occursAt hneedle hoccurs, Nat.le_refl _⟩
  | cons d u ih =>
    have hlast : (d :: u).getLast?.or c? = u.getLast?.or (some d) := by
      rw [← List.singleton_append, List.getLast?_append, Option.or_assoc]
      rfl
    have hstep : endsQuoted quoted (d :: u) =
        endsQuoted (if (d == '"') = true then !quoted else quoted) u := rfl
    rw [hlast] at hoccurs
    rw [hstep] at hquoted
    rw [List.cons_append]
    simp only [findFrom?]
    generalize (if (d == '"') = true then !quoted else quoted) = quoted' at hquoted ⊢
    obtain ⟨a, b, hfound, hle⟩ := ih hquoted hoccurs
    split
    · exact ⟨[], _, rfl, Nat.zero_le _⟩
    · exact ⟨d :: a, b, by rw [hfound]; rfl, Nat.succ_le_succ hle⟩

theorem exists_findOutsideQuotes? (hneedle : IsSolid needle)
    (h : OccursBetween needle pre post) :
    ∃ a b, findOutsideQuotes? needle (pre ++ (needle ++ post)) = some (a, b) ∧
      a.length ≤ pre.length := by
  obtain ⟨hquoted, hoccurs⟩ := occursBetween_iff.mp h
  rw [findOutsideQuotes?_eq hneedle.ne_nil]
  exact exists_findFrom? hneedle hquoted (by rwa [Option.or_none])

/-- A text is cut in front of the first occurrence. -/
theorem findOutsideQuotes?_first (hneedle : IsSolid needle)
    (h : findOutsideQuotes? needle cs = some (a, b)) :
    cs = a ++ b ∧ (∃ rest, b = needle ++ rest ∧ OccursBetween needle a rest) ∧
      ∀ pre post, cs = pre ++ (needle ++ post) → OccursBetween needle pre post →
        a.length ≤ pre.length := by
  refine ⟨(findOutsideQuotes?_spec h).1, ?_, ?_⟩
  · rw [findOutsideQuotes?_eq hneedle.ne_nil] at h
    obtain ⟨rest, hcs, halone⟩ := findFrom?_alone h
    have hb : b = needle ++ rest := List.append_cancel_left ((findFrom?_spec h).1.symm.trans hcs)
    rw [Option.or_none] at halone
    exact ⟨rest, hb, endsQuoted_eq_self.mp (findFrom?_outside hneedle h), standsAlone_iff.mp halone⟩
  · rintro pre post rfl hoccurs
    obtain ⟨a', b', hfound, hle⟩ := exists_findOutsideQuotes? hneedle hoccurs
    rw [h] at hfound
    cases hfound
    exact hle

theorem findOutsideQuotes?_eq_none (hneedle : IsSolid needle) :
    findOutsideQuotes? needle cs = none ↔
      ∀ pre post, cs = pre ++ (needle ++ post) → ¬ OccursBetween needle pre post := by
  constructor
  · rintro hnone pre post rfl hoccurs
    obtain ⟨a, b, hfound, -⟩ := exists_findOutsideQuotes? hneedle hoccurs
    rw [hnone] at hfound
    cases hfound
  · intro h
    rw [Option.eq_none_iff_forall_ne_some]
    rintro ⟨a, b⟩ hfound
    obtain ⟨hcs, ⟨rest, rfl, hoccurs⟩, -⟩ := findOutsideQuotes?_first hneedle hfound
    exact h a rest hcs hoccurs

end

end ClassicBasic.Text
