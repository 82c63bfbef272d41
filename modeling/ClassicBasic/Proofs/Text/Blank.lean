import ClassicBasic.Text.Blank
import ClassicBasic.Text.Name
import Mathlib.Data.List.TakeWhile

/-!
# Characters by code point, names, and texts between blanks

The classes of characters are given by code points, so that two of them can be told apart by
arithmetic. A name is made of word characters and starts with a letter. A text is its trimmed form
between two runs of blanks (`exists_trim`); the trimmed form neither starts nor ends with a blank,
which makes it the only one (`trim_between`).
-/

namespace ClassicBasic.Text

/-! ## Classes of characters -/

theorem isAlpha_iff {c : Char} : c.isAlpha = true ↔
    (65 ≤ c.toNat ∧ c.toNat ≤ 90) ∨ (97 ≤ c.toNat ∧ c.toNat ≤ 122) := by
  have h : c.isAlpha = (decide (c.val ≥ 'A'.val ∧ c.val ≤ 'Z'.val) ||
      (decide (c.val ≥ 'a'.val) && decide (c.val ≤ 'z'.val))) := rfl
  rw [h]
  simp [UInt32.le_iff_toNat_le]

theorem isDigit_iff {c : Char} : c.isDigit = true ↔ 48 ≤ c.toNat ∧ c.toNat ≤ 57 := by
  simp [Char.isDigit, UInt32.le_iff_toNat_le]

theorem isWordChar_iff {c : Char} : isWordChar c = true ↔
    c.isAlpha = true ∨ c.isDigit = true ∨ c.toNat = 95 ∨ c.toNat = 36 := by
  simp [isWordChar, Char.isAlphanum, ← Char.toNat_inj, or_assoc]

theorem isBlank_iff {c : Char} : isBlank c = true ↔
    (9 ≤ c.toNat ∧ c.toNat ≤ 13) ∨ c.toNat = 32 ∨ c.toNat = 133 ∨ c.toNat = 160 ∨
      c.toNat = 5760 ∨ (8192 ≤ c.toNat ∧ c.toNat ≤ 8202) ∨ c.toNat = 8232 ∨ c.toNat = 8233 ∨
      c.toNat = 8239 ∨ c.toNat = 8287 ∨ c.toNat = 12288 := by
  simp [isBlank, or_assoc]

theorem not_isWordChar_of_isBlank {c : Char} (h : isBlank c = true) : isWordChar c = false := by
  rw [← Bool.not_eq_true, isWordChar_iff, isAlpha_iff, isDigit_iff]
  rw [isBlank_iff] at h
  omega

theorem not_isBlank_of_isWordChar {c : Char} (h : isWordChar c = true) : isBlank c = false := by
  rw [← Bool.not_eq_true]
  intro hblank
  rw [not_isWordChar_of_isBlank hblank] at h
  cases h

/-! ## Names -/

theorem isWordChar_of_isPlainName {cs : List Char} (h : isPlainName cs = true) :
    ∀ c ∈ cs, isWordChar c = true := by
  cases cs with
  | nil => simp
  | cons c cs =>
    simp only [isPlainName, Bool.and_eq_true, List.all_eq_true, Bool.or_eq_true] at h
    intro d hd
    rcases List.mem_cons.mp hd with rfl | hd
    · simp [isWordChar, Char.isAlphanum, h.1]
    · simpa [isWordChar] using Or.inl (h.2 d hd)

/-- A name is a plain name, with or without the `$` behind it. -/
theorem isName_shape {cs : List Char} (h : isName cs = true) :
    ∃ body, isPlainName body = true ∧ (cs = body ∨ cs = body ++ ['$']) := by
  unfold isName at h
  split at h
  · rename_i hlast
    obtain ⟨body, rfl⟩ := List.getLast?_eq_some_iff.mp hlast
    exact ⟨body, by simpa using h, .inr rfl⟩
  · exact ⟨cs, h, .inl rfl⟩

theorem isWordChar_of_isName {cs : List Char} (h : isName cs = true) :
    ∀ c ∈ cs, isWordChar c = true := by
  obtain ⟨body, hbody, rfl | rfl⟩ := isName_shape h
  · exact isWordChar_of_isPlainName hbody
  · intro c hc
    rcases List.mem_append.mp hc with hc | hc
    · exact isWordChar_of_isPlainName hbody c hc
    · rw [List.mem_singleton.mp hc]
      rfl

/-- A name starts with a letter. -/
theorem head?_of_isName {cs : List Char} (h : isName cs = true) :
    ∃ c ∈ cs.head?, c.isAlpha = true := by
  obtain ⟨body, hbody, hcs⟩ := isName_shape h
  cases body with
  | nil => cases hbody
  | cons c body =>
    simp only [isPlainName, Bool.and_eq_true] at hbody
    rcases hcs with rfl | rfl
    · exact ⟨c, rfl, hbody.1⟩
    · exact ⟨c, rfl, hbody.1⟩

/-! ## Trimming -/

/-- Neither the first nor the last character is blank. -/
def Trimmed (cs : List Char) : Prop :=
  (∀ c ∈ cs.head?, isBlank c = false) ∧ ∀ c ∈ cs.getLast?, isBlank c = false

theorem dropWhile_append_of_head? {p : Char → Bool} {pre cs : List Char} (hpre : pre.all p = true)
    (hcs : ∀ c ∈ cs.head?, p c = false) : (pre ++ cs).dropWhile p = cs := by
  rw [List.dropWhile_append_of_pos (by simpa using hpre)]
  cases cs with
  | nil => rfl
  | cons c cs => simp [hcs c (by simp)]

theorem dropWhile_isBlank_append {pre cs : List Char} (hpre : allBlank pre = true)
    (hcs : ∀ c ∈ cs.head?, isBlank c = false) : (pre ++ cs).dropWhile isBlank = cs :=
  dropWhile_append_of_head? hpre hcs

/-- What is taken off the ends of a text. -/
theorem trimBy_between {p : Char → Bool} {pre cs post : List Char} (hpre : pre.all p = true)
    (hfirst : ∀ c ∈ cs.head?, p c = false) (hlast : ∀ c ∈ cs.getLast?, p c = false)
    (hpost : post.all p = true) : trimBy p (pre ++ cs ++ post) = cs := by
  have hpost' : post.reverse.all p = true := by simpa using hpost
  rcases List.eq_nil_or_concat cs with rfl | ⟨init, c, rfl⟩
  · have hall : ∀ c ∈ pre ++ [] ++ post, p c = true := by
      simp only [List.all_eq_true] at hpre hpost
      simp only [List.append_nil, List.mem_append]
      rintro c (hc | hc)
      · exact hpre c hc
      · exact hpost c hc
    have hnil : (pre ++ [] ++ post).dropWhile p = [] := List.dropWhile_eq_nil_iff.mpr hall
    rw [trimBy, hnil]
    rfl
  · have hstart : (pre ++ (init.concat c ++ post)).dropWhile p = init.concat c ++ post := by
      refine dropWhile_append_of_head? hpre fun d hd => hfirst d ?_
      cases init <;> simpa using hd
    have hend : (post.reverse ++ (init.concat c).reverse).dropWhile p = (init.concat c).reverse :=
      dropWhile_append_of_head? hpost' fun d hd => hlast d (by simpa using hd)
    rw [trimBy, List.append_assoc, hstart, List.reverse_append, hend, List.reverse_reverse]

theorem trim_between {pre cs post : List Char} (hpre : allBlank pre = true) (hcs : Trimmed cs)
    (hpost : allBlank post = true) : trim (pre ++ cs ++ post) = cs :=
  trimBy_between hpre hcs.1 hcs.2 hpost

/-- A text is its trimmed form between blanks. -/
theorem exists_trim (cs : List Char) :
    ∃ pre post, cs = pre ++ trim cs ++ post ∧ allBlank pre = true ∧ Trimmed (trim cs) ∧
      allBlank post = true := by
  let rest := cs.dropWhile isBlank
  let mid := (rest.reverse.dropWhile isBlank).reverse
  have hcs : cs = cs.takeWhile isBlank ++ mid ++ (rest.reverse.takeWhile isBlank).reverse := by
    rw [List.append_assoc, ← List.reverse_append, List.takeWhile_append_dropWhile,
      List.reverse_reverse, List.takeWhile_append_dropWhile]
  have hpre : allBlank (cs.takeWhile isBlank) = true := by simp [allBlank]
  have hpost : allBlank (rest.reverse.takeWhile isBlank).reverse = true := by simp [allBlank]
  have hmid : Trimmed mid := by
    constructor
    · intro c hc
      have hrest : c ∈ rest.head? := by
        have : rest = mid ++ (rest.reverse.takeWhile isBlank).reverse := by
          rw [← List.reverse_append, List.takeWhile_append_dropWhile, List.reverse_reverse]
        rw [this, List.head?_append, hc]
        rfl
      have := List.head?_dropWhile_not isBlank cs
      rw [hrest] at this
      simpa using this
    · intro c hc
      have hlast : c ∈ (rest.reverse.dropWhile isBlank).head? := by
        simpa [mid, List.getLast?_reverse] using hc
      have := List.head?_dropWhile_not isBlank rest.reverse
      rw [hlast] at this
      simpa using this
  exact ⟨_, _, hcs, hpre, hmid, hpost⟩

theorem trimmed_trim (cs : List Char) : Trimmed (trim cs) := by
  obtain ⟨_, _, -, -, h, -⟩ := exists_trim cs
  exact h

theorem trim_of_trimmed {cs : List Char} (h : Trimmed cs) : trim cs = cs := by
  have : trim ([] ++ cs ++ []) = cs := trim_between rfl h rfl
  simpa using this

theorem trimStart_of_trimmed {cs : List Char} (h : Trimmed cs) : trimStart cs = cs := by
  have : ([] ++ cs).dropWhile isBlank = cs := dropWhile_isBlank_append rfl h.1
  exact this

@[simp] theorem trim_trim (cs : List Char) : trim (trim cs) = trim cs :=
  trim_of_trimmed (trimmed_trim cs)

@[simp] theorem trimStart_trim (cs : List Char) : trimStart (trim cs) = trim cs :=
  trimStart_of_trimmed (trimmed_trim cs)

theorem trim_eq_nil {cs : List Char} : trim cs = [] ↔ allBlank cs = true := by
  constructor
  · intro h
    obtain ⟨pre, post, hcs, hpre, -, hpost⟩ := exists_trim cs
    rw [h] at hcs
    rw [hcs]
    simp_all [allBlank]
  · intro h
    have : trim (cs ++ [] ++ []) = [] := trim_between h (by simp [Trimmed]) rfl
    simpa using this

theorem trimmed_of_forall {u : List Char} (h : ∀ c ∈ u, isBlank c = false) : Trimmed u :=
  ⟨fun c hc => h c (List.mem_of_mem_head? hc), fun c hc => h c (List.mem_of_getLast? hc)⟩

theorem not_allBlank_of_trimmed {u : List Char} (h : Trimmed u) (hne : u ≠ []) :
    ¬ allBlank u = true := fun hblank =>
  hne ((trim_of_trimmed h).symm.trans (trim_eq_nil.mpr hblank))

/-! ## Texts with something between them -/

theorem head?_intercalate {sep u : List Char} (hu : u ≠ []) (us : List (List Char)) :
    (sep.intercalate (u :: us)).head? = u.head? := by
  obtain ⟨c, cs, rfl⟩ := List.exists_cons_of_ne_nil hu
  cases us <;> simp [List.intercalate]

theorem getLast?_intercalate {sep : List Char} {us : List (List Char)} (h : ∀ u ∈ us, u ≠ []) :
    (sep.intercalate us).getLast? = us.getLast?.bind List.getLast? := by
  induction us with
  | nil => rfl
  | cons u us ih =>
    obtain ⟨hu, hus⟩ := List.forall_mem_cons.mp h
    cases us with
    | nil => rw [List.intercalate_singleton]; rfl
    | cons v us =>
      obtain ⟨w, hw⟩ := Option.isSome_iff_exists.mp
        (List.getLast?_isSome.mpr (List.cons_ne_nil v us))
      obtain ⟨c, hc⟩ := Option.isSome_iff_exists.mp
        (List.getLast?_isSome.mpr (hus w (List.mem_of_getLast? hw)))
      rw [List.intercalate_cons_cons, List.getLast?_append, ih hus, List.getLast?_cons_cons, hw,
        Option.bind_some, hc, Option.some_or]

theorem trimmed_intercalate {sep : List Char} {us : List (List Char)} (hne : ∀ u ∈ us, u ≠ [])
    (h : ∀ u ∈ us, Trimmed u) : Trimmed (sep.intercalate us) := by
  refine ⟨fun c hc => ?_, fun c hc => ?_⟩
  · cases us with
    | nil => simp at hc
    | cons u us =>
      rw [head?_intercalate (hne u (by simp))] at hc
      exact (h u (by simp)).1 c hc
  · rw [getLast?_intercalate hne] at hc
    obtain ⟨u, hu, hc⟩ := Option.bind_eq_some_iff.mp hc
    exact (h u (List.mem_of_getLast? hu)).2 c hc

/-- `ws` with a space in front of each. -/
def spaced (ws : List (List Char)) : List Char := ws.flatMap (' ' :: ·)

theorem spaced_cons (u : List Char) (ws : List (List Char)) :
    spaced (u :: ws) = ' ' :: u ++ spaced ws := rfl

theorem intercalate_spaced (u : List Char) (ws : List (List Char)) :
    [' '].intercalate (u :: ws) = u ++ spaced ws := by
  induction ws generalizing u with
  | nil => simp [spaced]
  | cons v ws ih =>
    rw [List.intercalate_cons_cons, ih]
    simp [spaced]

/-- A word is followed by a space or by nothing. -/
theorem head?_spaced (ws : List (List Char)) : ∀ c ∈ (spaced ws).head?, isWordChar c = false := by
  cases ws with
  | nil => rintro c ⟨⟩
  | cons u ws =>
    rintro c ⟨⟩
    rfl

end ClassicBasic.Text
