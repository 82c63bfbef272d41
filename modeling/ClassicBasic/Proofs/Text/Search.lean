import ClassicBasic.Proofs.Text.Nesting

/-!
# Keywords outside quotes

Where `findOutsideQuotes?` finds a keyword or a mark. A blank takes part in none and touches none,
so a text with a blank behind it is searched first, on its own, and what follows the blank is
searched after it, inside quotes or not as the text has left them (`findFrom?_append`).
-/

namespace ClassicBasic.Text

/-! ## Blanks around a text -/

theorem allBlank_append (u v : List Char) : allBlank (u ++ v) = (allBlank u && allBlank v) :=
  List.all_append

theorem trim_append_left {pre : List Char} (hpre : allBlank pre = true) (cs : List Char) :
    trim (pre ++ cs) = trim cs := by
  obtain ⟨before, after, hcs, hbefore, htrim, hafter⟩ := exists_trim cs
  have hall : allBlank (pre ++ before) = true := by rw [allBlank_append, hpre, hbefore]; rfl
  have heq : pre ++ cs = pre ++ before ++ trim cs ++ after := by
    rw [List.append_assoc pre, List.append_assoc pre, ← hcs]
  rw [heq]
  exact trim_between hall htrim hafter

theorem trim_append_right {post : List Char} (hpost : allBlank post = true) (cs : List Char) :
    trim (cs ++ post) = trim cs := by
  obtain ⟨before, after, hcs, hbefore, htrim, hafter⟩ := exists_trim cs
  have hall : allBlank (after ++ post) = true := by rw [allBlank_append, hafter, hpost]; rfl
  have heq : cs ++ post = before ++ trim cs ++ (after ++ post) := by
    rw [← List.append_assoc _ after, ← hcs]
  rw [heq]
  exact trim_between hbefore htrim hall

theorem trimStart_eq {cs : List Char} (h : ∀ c ∈ cs.head?, isBlank c = false) :
    trimStart cs = cs := by
  cases cs with
  | nil => rfl
  | cons c cs => simp [trimStart, h c rfl]

theorem head?_trimStart (cs : List Char) : ∀ c ∈ (trimStart cs).head?, isBlank c = false := by
  intro c hc
  have hfirst := List.head?_dropWhile_not isBlank cs
  rw [show (cs.dropWhile isBlank).head? = some c from hc] at hfirst
  simpa using hfirst

/-- A text behind another one loses the blanks at its end only. -/
theorem trim_append {c : Char} {u cs : List Char} (hc : isBlank c = false)
    (hcs : ¬ allBlank cs = true) :
    ∃ ws, allBlank ws = true ∧ trim (c :: u ++ cs) = c :: u ++ (ws ++ trim cs) := by
  obtain ⟨pre, post, heq, hpre, htrim, hpost⟩ := exists_trim cs
  refine ⟨pre, hpre, ?_⟩
  have hne : trim cs ≠ [] := fun h => hcs (trim_eq_nil.mp h)
  have htrimmed : Trimmed (c :: u ++ (pre ++ trim cs)) := by
    refine ⟨by rintro d ⟨⟩; exact hc, fun d hd => htrim.2 d ?_⟩
    obtain ⟨last, hlast⟩ := Option.isSome_iff_exists.mp (List.getLast?_isSome.mpr hne)
    rw [← List.append_assoc, List.getLast?_append, hlast, Option.some_or] at hd
    rwa [hlast]
  have hbetween : c :: u ++ cs = [] ++ (c :: u ++ (pre ++ trim cs)) ++ post := by
    rw [List.nil_append, List.append_assoc _ _ post, ← heq]
  rw [hbetween]
  exact trim_between rfl htrimmed hpost

theorem exists_trimStart (cs : List Char) : ∃ ws, allBlank ws = true ∧ cs = ws ++ trimStart cs :=
  ⟨cs.takeWhile isBlank, by simp [allBlank], List.takeWhile_append_dropWhile.symm⟩

theorem trim_trimStart (cs : List Char) : trim (trimStart cs) = trim cs := by
  obtain ⟨ws, hws, hcs⟩ := exists_trimStart cs
  rw [← trim_append_left hws, ← hcs]

theorem trimStart_append {cs : List Char} (h : ¬ allBlank cs = true) (rest : List Char) :
    trimStart (cs ++ rest) = trimStart cs ++ rest := by
  rw [trimStart, List.dropWhile_append, if_neg (by simpa [allBlank] using h)]
  rfl

theorem isEmpty_trim (cs : List Char) : (trim cs).isEmpty = allBlank cs := by
  rw [Bool.eq_iff_iff, List.isEmpty_iff, trim_eq_nil]

/-- A text that does not start with a blank keeps its first character. -/
theorem head?_trim {cs : List Char} (h : ∀ c ∈ cs.head?, isBlank c = false) :
    (trim cs).head? = cs.head? := by
  obtain ⟨before, after, hcs, hbefore, -, hafter⟩ := exists_trim cs
  cases before with
  | cons b before =>
    have hb : isBlank b = false := h b (by rw [hcs]; rfl)
    simp [allBlank, hb] at hbefore
  | nil =>
    rw [List.nil_append] at hcs
    cases htrim : trim cs with
    | cons c rest =>
      rw [hcs, htrim]
      rfl
    | nil =>
      rw [htrim, List.nil_append] at hcs
      cases after with
      | nil => rw [hcs]
      | cons a after =>
        have ha : isBlank a = false := h a (by rw [hcs]; rfl)
        simp [allBlank, ha] at hafter

theorem length_trim_le (cs : List Char) : (trim cs).length ≤ cs.length := by
  obtain ⟨before, after, hcs, -, -, -⟩ := exists_trim cs
  have hlength := congrArg List.length hcs
  simp only [List.length_append] at hlength
  omega

theorem length_trimStart_le (cs : List Char) : (trimStart cs).length ≤ cs.length :=
  (List.dropWhile_suffix isBlank).length_le

/-! ## Quotes -/

/-- Whether a quoted region is open behind `cs`, with one open in front of it or not. -/
def endsQuoted (quoted : Bool) (cs : List Char) : Bool :=
  cs.foldl (fun q c => if c == '"' then !q else q) quoted

theorem endsQuoted_append (quoted : Bool) (u v : List Char) :
    endsQuoted quoted (u ++ v) = endsQuoted (endsQuoted quoted u) v :=
  List.foldl_append

theorem endsQuoted_of_forall {cs : List Char} (h : ∀ c ∈ cs, c ≠ '"') (quoted : Bool) :
    endsQuoted quoted cs = quoted := by
  induction cs generalizing quoted with
  | nil => rfl
  | cons c cs ih =>
    obtain ⟨hc, hcs⟩ := List.forall_mem_cons.mp h
    have hstep : endsQuoted quoted (c :: cs) = endsQuoted quoted cs := by simp [endsQuoted, hc]
    rw [hstep, ih hcs]

theorem ne_quote_of_isBlank {c : Char} (h : isBlank c = true) : c ≠ '"' := by
  rintro rfl
  exact absurd h (by decide)

theorem endsQuoted_blanks {ws : List Char} (h : allBlank ws = true) (quoted : Bool) :
    endsQuoted quoted ws = quoted :=
  endsQuoted_of_forall (fun c hc => ne_quote_of_isBlank (List.all_eq_true.mp h c hc)) quoted

theorem endsQuoted_trimStart (quoted : Bool) (cs : List Char) :
    endsQuoted quoted (trimStart cs) = endsQuoted quoted cs := by
  obtain ⟨ws, hws, hcs⟩ := exists_trimStart cs
  have happend := endsQuoted_append quoted ws (trimStart cs)
  rw [← hcs, endsQuoted_blanks hws] at happend
  exact happend.symm

/-! ## Keywords -/

/-- A word of letters. -/
structure IsKeyword (needle : List Char) : Prop where
  ne_nil : needle ≠ []
  isAlpha : ∀ c ∈ needle, c.isAlpha = true

/-- Something to look for, without blanks and quotes in it. -/
structure IsSolid (needle : List Char) : Prop where
  ne_nil : needle ≠ []
  isBlank : ∀ c ∈ needle, isBlank c = false
  notMem_quote : '"' ∉ needle

theorem IsKeyword.isSolid {needle : List Char} (h : IsKeyword needle) : IsSolid needle where
  ne_nil := h.ne_nil
  isBlank c hc := not_isBlank_of_isWordChar (isWordChar_iff.mpr (.inl (h.isAlpha c hc)))
  notMem_quote hquote := absurd (h.isAlpha _ hquote) (by decide)

theorem IsSolid.trimStart {needle : List Char} (h : IsSolid needle) (rest : List Char) :
    trimStart (needle ++ rest) = needle ++ rest := by
  obtain ⟨c, cs, rfl⟩ := List.exists_cons_of_ne_nil h.ne_nil
  refine trimStart_eq ?_
  rintro d ⟨⟩
  exact h.isBlank _ List.mem_cons_self

theorem isKeyword_then : IsKeyword "THEN".toList := ⟨by simp, List.all_eq_true.mp rfl⟩

section
variable {needle cs rest a b : List Char} {before before' after after' : Option Char}
  {quoted : Bool} {c : Char}

theorem isWordChar_of_isAlpha (h : c.isAlpha = true) : isWordChar c = true :=
  isWordChar_iff.mpr (.inl h)

/-- A text is cut in front of what was found. -/
theorem findFrom?_spec (h : findFrom? needle before quoted cs = some (a, b)) :
    cs = a ++ b ∧ ∃ rest, b = needle ++ rest := by
  induction cs generalizing before quoted a with
  | nil => cases h
  | cons c cs ih =>
    simp only [findFrom?] at h
    generalize (if (c == '"') = true then !quoted else quoted) = quoted' at h
    split at h
    · rename_i hfound
      cases h
      simp only [Bool.and_eq_true] at hfound
      obtain ⟨rest, hrest, -⟩ := occursAt_iff.mp hfound.2
      exact ⟨rfl, rest, hrest⟩
    · obtain ⟨⟨a', b'⟩, hcs, heq⟩ := Option.map_eq_some_iff.mp h
      cases heq
      obtain ⟨rfl, hb⟩ := ih hcs
      exact ⟨rfl, hb⟩

theorem findOutsideQuotes?_spec (h : findOutsideQuotes? needle cs = some (a, b)) :
    cs = a ++ b ∧ ∃ rest, b = needle ++ rest := by
  unfold findOutsideQuotes? at h
  split at h
  · rename_i hempty
    cases h
    exact ⟨rfl, cs, by simp [List.isEmpty_iff.mp hempty]⟩
  · exact findFrom?_spec h

/-- Only whether a word character stands in front or behind matters. -/
theorem standsAlone_congr (hbefore : before.any isWordChar = before'.any isWordChar)
    (hafter : after.any isWordChar = after'.any isWordChar) :
    standsAlone needle before after = standsAlone needle before' after' := by
  simp only [standsAlone, hbefore, hafter]

theorem findFrom?_congr (h : before.any isWordChar = before'.any isWordChar) :
    findFrom? needle before quoted cs = findFrom? needle before' quoted cs := by
  cases cs with
  | nil => rfl
  | cons c cs =>
    have hoccurs : occursAt needle before (c :: cs) = occursAt needle before' (c :: cs) := by
      unfold occursAt
      split
      · exact standsAlone_congr h rfl
      · rfl
    rw [findFrom?, findFrom?, hoccurs]

/-- Nothing solid reaches over a blank. -/
theorem occursAt_append (hneedle : IsSolid needle) (hc : isBlank c = true) :
    occursAt needle before (cs ++ c :: rest) = occursAt needle before cs := by
  have hword : isWordChar c = false := not_isWordChar_of_isBlank hc
  rw [Bool.eq_iff_iff, occursAt_iff, occursAt_iff]
  constructor
  · rintro ⟨tail, htail, halone⟩
    rcases List.append_eq_append_iff.mp htail with ⟨extra, hextra, hrest⟩ | ⟨tail', rfl, rfl⟩
    · -- What is found would have the blank in it, unless it ends in front of it.
      cases extra with
      | nil =>
        refine ⟨[], by simp [hextra], ?_⟩
        rw [← halone]
        refine standsAlone_congr rfl ?_
        rw [← (by simpa using hrest : c :: rest = tail)]
        simp [hword]
      | cons d extra =>
        obtain ⟨rfl, -⟩ := List.cons.inj hrest
        rw [hneedle.isBlank c (by simp [hextra])] at hc
        cases hc
    · refine ⟨tail', rfl, ?_⟩
      rw [← halone]
      refine standsAlone_congr rfl ?_
      cases tail' with
      | nil => simp [hword]
      | cons d tail' => rfl
  · rintro ⟨tail, rfl, halone⟩
    refine ⟨tail ++ c :: rest, by simp, ?_⟩
    rw [← halone]
    refine standsAlone_congr rfl ?_
    cases tail with
    | nil => simp [hword]
    | cons d tail => rfl

theorem findFrom?_blank (hneedle : IsSolid needle) (hc : isBlank c = true) :
    findFrom? needle before quoted (c :: rest) =
      (findFrom? needle (some c) quoted rest).map fun r => (c :: r.1, r.2) := by
  have hoccurs : occursAt needle before ([] ++ c :: rest) = occursAt needle before [] :=
    occursAt_append hneedle hc
  have hnone : occursAt needle before [] = false := by
    rw [← Bool.not_eq_true, occursAt_iff]
    rintro ⟨tail, htail, -⟩
    exact hneedle.ne_nil (List.append_eq_nil_iff.mp htail.symm).1
  rw [List.nil_append, hnone] at hoccurs
  rw [findFrom?]
  simp [hoccurs, ne_quote_of_isBlank hc]

/-- A text with a blank behind it is searched on its own, and then what follows. -/
theorem findFrom?_append (hneedle : IsSolid needle) (hc : isBlank c = true) :
    findFrom? needle before quoted (cs ++ c :: rest) =
      match findFrom? needle before quoted cs with
      | some r => some (r.1, r.2 ++ c :: rest)
      | none => (findFrom? needle (some c) (endsQuoted quoted cs) rest).map
          fun r => (cs ++ c :: r.1, r.2) := by
  induction cs generalizing before quoted with
  | nil => exact findFrom?_blank hneedle hc
  | cons d cs ih =>
    have hoccurs : occursAt needle before (d :: cs ++ c :: rest) =
        occursAt needle before (d :: cs) := occursAt_append hneedle hc
    rw [List.cons_append] at hoccurs ⊢
    have hquoted : endsQuoted quoted (d :: cs) =
        endsQuoted (if d == '"' then !quoted else quoted) cs := rfl
    simp only [findFrom?, hoccurs, hquoted]
    generalize (if (d == '"') = true then !quoted else quoted) = quoted'
    split
    · rfl
    · rw [ih]
      cases findFrom? needle (some d) quoted' cs with
      | some r => rfl
      | none => simp [Function.comp_def]

theorem findOutsideQuotes?_eq (hne : needle ≠ []) :
    findOutsideQuotes? needle cs = findFrom? needle none false cs := by
  rw [findOutsideQuotes?, if_neg (by simpa using hne)]

theorem findFrom?_of_occursAt (hneedle : IsSolid needle) (h : occursAt needle before cs = true) :
    findFrom? needle before false cs = some ([], cs) := by
  obtain ⟨rest, rfl, -⟩ := occursAt_iff.mp h
  obtain ⟨n, needle, rfl⟩ := List.exists_cons_of_ne_nil hneedle.ne_nil
  have hn : n ≠ '"' := fun hn => hneedle.notMem_quote (by simp [hn])
  rw [List.cons_append] at h ⊢
  simp [findFrom?, hn, h]

/-- What is not found in a text is not found behind the blanks at its start. -/
theorem findFrom?_trimStart_eq_none (hneedle : IsKeyword needle)
    (h : findFrom? needle none quoted cs = none) :
    findFrom? needle none quoted (trimStart cs) = none := by
  induction cs with
  | nil => exact h
  | cons c cs ih =>
    by_cases hc : isBlank c = true
    · have hdrop : trimStart (c :: cs) = trimStart cs := by simp [trimStart, hc]
      rw [findFrom?_blank hneedle.isSolid hc, Option.map_eq_none_iff] at h
      have hword : (some c).any isWordChar = (none : Option Char).any isWordChar := by
        simp [not_isWordChar_of_isBlank hc]
      rw [findFrom?_congr hword] at h
      rw [hdrop]
      exact ih h
    · have hkeep : trimStart (c :: cs) = c :: cs := by simp [trimStart, hc]
      rw [hkeep]
      exact h

end

end ClassicBasic.Text
