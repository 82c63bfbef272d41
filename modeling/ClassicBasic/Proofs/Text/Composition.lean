import ClassicBasic.Proofs.Text.Search

/-!
# Texts made of words and marks

`Composed W M` are the texts made of words in `W`, marks in `M`, numbers, closed quotes and closed
parentheses, in which no word touches another. A keyword that is not among the words is not found in
such a text (`Composed.lacks`), and a cut at colons that are not among the marks goes through it
(`Composed.pieces`).

Two texts are searched one after the other if what is looked for does not reach from one into the
other (`findFrom?_append_of`). A keyword does not if no word does (`Apart`), and a single mark never
does.
-/

namespace ClassicBasic.Text

/-! ## What is looked for -/

/-- The words and marks between the slots of patterns: a keyword or an equals sign. -/
def isNeedle (needle : List Char) : Bool :=
  needle == ['='] || (!needle.isEmpty && needle.all Char.isAlpha)

theorem isNeedle_iff {needle : List Char} :
    isNeedle needle = true ↔ needle = ['='] ∨ IsKeyword needle := by
  simp only [isNeedle, Bool.or_eq_true, beq_iff_eq, Bool.and_eq_true, Bool.not_eq_true',
    List.isEmpty_eq_false_iff, List.all_eq_true]
  exact or_congr_right ⟨fun h => ⟨h.1, h.2⟩, fun h => ⟨h.ne_nil, h.isAlpha⟩⟩

/-- No word goes on from `u` into `v`. -/
def Apart (u v : List Char) : Prop :=
  ∀ c ∈ u.getLast?, isWordChar c = true → ∀ d ∈ v.head?, isWordChar d = false

section
variable {needle u v cs a b : List Char} {before : Option Char} {quoted : Bool} {c : Char}

theorem Apart.of_head? (h : ∀ d ∈ v.head?, isWordChar d = false) : Apart u v :=
  fun _ _ _ => h

theorem Apart.of_getLast? (h : ∀ c ∈ u.getLast?, isWordChar c = false) : Apart u v := by
  intro c hc hword
  rw [h c hc] at hword
  cases hword

theorem ne_nil_of_isNeedle (h : isNeedle needle = true) : needle ≠ [] := by
  rcases isNeedle_iff.mp h with rfl | hkeyword
  · simp
  · exact hkeyword.ne_nil

/-- Letters and the equals sign are neither blanks nor quotes. -/
theorem of_mem_needle (h : isNeedle needle = true) (hc : c ∈ needle) :
    isBlank c = false ∧ c ≠ '"' := by
  rcases isNeedle_iff.mp h with rfl | hkeyword
  · rw [List.mem_singleton.mp hc]
    decide
  · have halpha := hkeyword.isAlpha c hc
    rw [← Bool.not_eq_true, isBlank_iff, ne_eq, ← Char.toNat_inj]
    rw [isAlpha_iff] at halpha
    simp only [Char.reduceToNat]
    omega

theorem isSolid_of_isNeedle (h : isNeedle needle = true) : IsSolid needle where
  ne_nil := ne_nil_of_isNeedle h
  isBlank _ hc := (of_mem_needle h hc).1
  notMem_quote hquote := (of_mem_needle h hquote).2 rfl

theorem occursAt_equals (before : Option Char) (c : Char) (cs : List Char) :
    occursAt ['='] before (c :: cs) = ('=' == c) := by
  by_cases h : '=' = c
  · subst h
    rfl
  · simp [occursAt, dropLeading?, h]

/-- No keyword reaches from one text into another that is apart from it. -/
theorem occursAt_append_apart (hneedle : IsKeyword needle) (hu : u ≠ []) (h : Apart u v)
    (before : Option Char) : occursAt needle before (u ++ v) = occursAt needle before u := by
  have hlast : ∃ c, u.getLast? = some c :=
    Option.isSome_iff_exists.mp (List.getLast?_isSome.mpr hu)
  obtain ⟨c, hc⟩ := hlast
  -- At the end of `u` it makes no difference that `v` follows.
  have hend (hall : u = needle) : standsAlone needle before v.head? =
      standsAlone needle before none := by
    have hword : isWordChar c = true := isWordChar_of_isAlpha
      (hneedle.isAlpha c (hall ▸ List.mem_of_getLast? hc))
    refine standsAlone_congr rfl ?_
    cases v with
    | nil => rfl
    | cons d v => simp [h c hc hword d rfl]
  rw [Bool.eq_iff_iff, occursAt_iff, occursAt_iff]
  constructor
  · rintro ⟨tail, htail, halone⟩
    rcases List.append_eq_append_iff.mp htail with ⟨extra, hextra, hv⟩ | ⟨tail', hu', hv⟩
    · cases extra with
      | nil =>
        rw [List.append_nil] at hextra
        rw [List.nil_append] at hv
        refine ⟨[], by simp [hextra], ?_⟩
        rw [← hv, hend hextra.symm] at halone
        exact halone
      | cons d extra =>
        have hc' : c ∈ needle := by simp [hextra, List.mem_of_getLast? hc]
        have hd : isWordChar d = true :=
          isWordChar_of_isAlpha (hneedle.isAlpha d (by simp [hextra]))
        have hapart := h c hc (isWordChar_of_isAlpha (hneedle.isAlpha c hc')) d (by simp [hv])
        rw [hd] at hapart
        cases hapart
    · refine ⟨tail', hu', ?_⟩
      cases tail' with
      | nil =>
        rw [List.append_nil] at hu'
        rw [hv, List.nil_append, hend hu'] at halone
        exact halone
      | cons d tail' =>
        rw [hv] at halone
        exact halone
  · rintro ⟨tail, hu', halone⟩
    refine ⟨tail ++ v, by rw [hu', List.append_assoc], ?_⟩
    cases tail with
    | nil =>
      rw [List.append_nil] at hu'
      rw [List.nil_append, hend hu']
      exact halone
    | cons d tail => exact halone

/-- Two texts are searched one after the other. -/
theorem findFrom?_append_of
    (h : ∀ s, s <:+ u → s ≠ [] → ∀ before,
      occursAt needle before (s ++ v) = occursAt needle before s) :
    findFrom? needle before quoted (u ++ v) =
      match findFrom? needle before quoted u with
      | some r => some (r.1, r.2 ++ v)
      | none => (findFrom? needle (u.getLast?.or before) (endsQuoted quoted u) v).map
          fun r => (u ++ r.1, r.2) := by
  induction u generalizing before quoted with
  | nil => simp [findFrom?, endsQuoted]
  | cons d u ih =>
    have hoccurs := h (d :: u) (List.suffix_refl _) (by simp) before
    have hlast : (d :: u).getLast?.or before = u.getLast?.or (some d) := by
      rw [← List.singleton_append, List.getLast?_append, Option.or_assoc]
      rfl
    have hquoted : endsQuoted quoted (d :: u) =
        endsQuoted (if d == '"' then !quoted else quoted) u := rfl
    rw [List.cons_append] at hoccurs ⊢
    simp only [findFrom?, hoccurs, hquoted, hlast]
    generalize (if (d == '"') = true then !quoted else quoted) = quoted'
    split
    · rfl
    · rw [ih fun s hs => h s (hs.trans (List.suffix_cons d u))]
      cases findFrom? needle (some d) quoted' u with
      | some r => rfl
      | none => simp [Function.comp_def]

/-- What stands in front of a text can only keep a word from being found. -/
theorem findFrom?_before (h : findFrom? needle none quoted cs = none) :
    findFrom? needle before quoted cs = none := by
  cases cs with
  | nil => rfl
  | cons c cs =>
    have hoccurs : occursAt needle before (c :: cs) = true →
        occursAt needle none (c :: cs) = true := by
      rw [occursAt_iff, occursAt_iff]
      rintro ⟨rest, hrest, halone⟩
      refine ⟨rest, hrest, ?_⟩
      simp only [standsAlone, Bool.or_eq_true, Bool.not_eq_true', Bool.or_eq_false_iff] at halone ⊢
      exact halone.imp_right fun h => ⟨rfl, h.2⟩
    simp only [findFrom?] at h ⊢
    generalize (if (c == '"') = true then !quoted else quoted) = quoted' at h ⊢
    split at h
    · cases h
    · rename_i hnot
      rw [if_neg]
      · exact h
      · simp only [Bool.and_eq_true] at hnot ⊢
        exact fun hfound => hnot ⟨hfound.1, hoccurs hfound.2⟩

/-- What is found stands there in its own right. -/
theorem findFrom?_alone (h : findFrom? needle before quoted cs = some (a, b)) :
    ∃ rest, cs = a ++ (needle ++ rest) ∧
      standsAlone needle (a.getLast?.or before) rest.head? = true := by
  induction cs generalizing before quoted a with
  | nil => cases h
  | cons c cs ih =>
    simp only [findFrom?] at h
    generalize (if (c == '"') = true then !quoted else quoted) = quoted' at h
    split at h
    · rename_i hfound
      cases h
      simp only [Bool.and_eq_true] at hfound
      exact occursAt_iff.mp hfound.2
    · obtain ⟨⟨a', b'⟩, hcs, heq⟩ := Option.map_eq_some_iff.mp h
      cases heq
      obtain ⟨rest, rfl, halone⟩ := ih hcs
      refine ⟨rest, rfl, ?_⟩
      rw [← List.singleton_append, List.getLast?_append, Option.or_assoc]
      exact halone

end

/-! ## Texts without a word -/

/-- `needle` is not found in `u`, and the quotes of `u` close. -/
structure Lacks (needle u : List Char) : Prop where
  absent : findFrom? needle none false u = none
  closed : endsQuoted false u = false

namespace Lacks

variable {needle u v ws body : List Char} {c : Char}

theorem append_of
    (h : ∀ s, s <:+ u → s ≠ [] → ∀ before,
      occursAt needle before (s ++ v) = occursAt needle before s)
    (hu : Lacks needle u) (hv : Lacks needle v) : Lacks needle (u ++ v) where
  absent := by
    rw [findFrom?_append_of h, hu.absent, hu.closed, findFrom?_before hv.absent]
    rfl
  closed := by rw [endsQuoted_append, hu.closed, hv.closed]

theorem append_apart (hneedle : IsKeyword needle) (h : Apart u v) (hu : Lacks needle u)
    (hv : Lacks needle v) : Lacks needle (u ++ v) := by
  refine append_of (fun s hs hne => occursAt_append_apart hneedle hne fun c hc => h c ?_) hu hv
  obtain ⟨t, rfl⟩ := hs
  rw [List.getLast?_append, hc]
  rfl

theorem append_equals (hu : Lacks ['='] u) (hv : Lacks ['='] v) : Lacks ['='] (u ++ v) := by
  refine append_of (fun s _ hne before => ?_) hu hv
  obtain ⟨c, s, rfl⟩ := List.exists_cons_of_ne_nil hne
  rw [List.cons_append, occursAt_equals, occursAt_equals]

theorem of_notMem (hc : c ∈ needle) (hu : c ∉ u) (hquote : '"' ∉ u) : Lacks needle u where
  absent := by
    rw [Option.eq_none_iff_forall_ne_some]
    rintro ⟨a, b⟩ hfound
    obtain ⟨rfl, rest, rfl⟩ := findFrom?_spec hfound
    exact hu (by simp [hc])
  closed := endsQuoted_of_forall (fun d hd => by rintro rfl; exact hquote hd) false

/-- Inside quotes nothing is found. -/
theorem quoted_run (hneedle : needle ≠ ['"']) (hbody : '"' ∉ body) (before : Option Char) :
    findFrom? needle before true (body ++ ['"']) = none := by
  induction body generalizing before with
  | nil => simp [findFrom?, hneedle]
  | cons c body ih =>
    simp only [List.mem_cons, not_or] at hbody
    have hc : c ≠ '"' := fun hc => hbody.1 hc.symm
    rw [List.cons_append, findFrom?]
    simp [hc, ih hbody.2]

theorem quoted (hneedle : needle ≠ ['"']) (hbody : '"' ∉ body) :
    Lacks needle ('"' :: body ++ ['"']) where
  absent := by
    rw [List.cons_append, findFrom?]
    simp [quoted_run hneedle hbody]
  closed := by
    have hrun : endsQuoted true body = true :=
      endsQuoted_of_forall (fun d hd => by rintro rfl; exact hbody hd) true
    have hopen : endsQuoted false ('"' :: body ++ ['"']) = endsQuoted true (body ++ ['"']) := rfl
    rw [hopen, endsQuoted_append, hrun]
    rfl

/-- Another word is not the one looked for. -/
theorem word (hneedle : IsKeyword needle) (hword : ∀ c ∈ u, isWordChar c = true)
    (hne : u ≠ needle) : Lacks needle u where
  absent := by
    rw [Option.eq_none_iff_forall_ne_some]
    rintro ⟨a, b⟩ hfound
    obtain ⟨rest, rfl, halone⟩ := findFrom?_alone hfound
    have hall : needle.all Char.isAlpha = true := List.all_eq_true.mpr hneedle.isAlpha
    simp only [standsAlone, hall, Bool.not_true, Bool.false_or, Bool.not_eq_true',
      Bool.or_eq_false_iff, Option.any_eq_false, Option.or_none] at halone
    -- Word characters on either side would touch it.
    have ha : a = [] := by
      rw [← List.getLast?_eq_none_iff, Option.eq_none_iff_forall_ne_some]
      intro c hc
      have htouch := halone.1 c hc
      rw [hword c (by simp [List.mem_of_getLast? hc])] at htouch
      cases htouch
    have hrest : rest = [] := by
      rw [← List.head?_eq_none_iff, Option.eq_none_iff_forall_ne_some]
      intro c hc
      have htouch := halone.2 c hc
      rw [hword c (by simp [List.mem_of_mem_head? hc])] at htouch
      cases htouch
    exact hne (by simp [ha, hrest])
  closed := by
    refine endsQuoted_of_forall (fun c hc => ?_) false
    exact (ne_of_isInert (isInert_of_isWordChar (hword c hc))).1

/-- The blanks in front of a text may be left out. -/
theorem of_blanks (hneedle : IsSolid needle) (hws : allBlank ws = true)
    (h : Lacks needle (ws ++ u)) : Lacks needle u := by
  induction ws with
  | nil => exact h
  | cons c ws ih =>
    simp only [allBlank, List.all_cons, Bool.and_eq_true] at hws
    refine ih hws.2 ⟨?_, ?_⟩
    · have habsent := h.absent
      rw [List.cons_append, findFrom?_blank hneedle hws.1, Option.map_eq_none_iff] at habsent
      have hword : (some c).any isWordChar = (none : Option Char).any isWordChar := by
        simp [not_isWordChar_of_isBlank hws.1]
      rwa [findFrom?_congr hword] at habsent
    · have hquote : (c == '"') = false := by simpa using ne_quote_of_isBlank hws.1
      have hclosed := h.closed
      rwa [List.cons_append, endsQuoted, List.foldl_cons, hquote] at hclosed

/-- So may those behind it. -/
theorem of_append_blanks (hneedle : IsSolid needle) (hws : allBlank ws = true)
    (h : Lacks needle (u ++ ws)) : Lacks needle u where
  absent := by
    have habsent := h.absent
    cases ws with
    | nil => rwa [List.append_nil] at habsent
    | cons c ws =>
      simp only [allBlank, List.all_cons, Bool.and_eq_true] at hws
      rw [findFrom?_append hneedle hws.1] at habsent
      split at habsent
      · cases habsent
      · assumption
  closed := by
    have hclosed := h.closed
    rwa [endsQuoted_append, endsQuoted_blanks hws] at hclosed

theorem trimStart (hneedle : IsSolid needle) (h : Lacks needle u) : Lacks needle (trimStart u) := by
  obtain ⟨ws, hws, hu⟩ := exists_trimStart u
  rw [hu] at h
  exact h.of_blanks hneedle hws

/-- Behind a text without the needle, the needle is found between spaces. -/
theorem find (hneedle : IsSolid needle) (hu : Lacks needle u)
    (hv : ∀ c ∈ v.head?, isWordChar c = false) :
    findOutsideQuotes? needle (u ++ ' ' :: (needle ++ v)) = some (u ++ [' '], needle ++ v) := by
  have halone : occursAt needle (some ' ') (needle ++ v) = true := by
    refine occursAt_iff.mpr ⟨v, rfl, ?_⟩
    have hafter : v.head?.any isWordChar = false := by
      cases v with
      | nil => rfl
      | cons d v => simpa using hv d rfl
    have hbefore : (some ' ').any isWordChar = false := rfl
    simp [standsAlone, hafter, hbefore]
  rw [findOutsideQuotes?_eq hneedle.ne_nil, findFrom?_append hneedle rfl, hu.absent,
    hu.closed, findFrom?_of_occursAt hneedle halone]
  simp

end Lacks

/-! ## Composed texts -/

/-- Characters that are neither part of a word nor a quote nor a bracket. -/
def isPunctuation (c : Char) : Bool := !isWordChar c && c != '"' && !isOpener c && !isCloser c

/-- Characters of numbers, the names of infinity and of no number included. -/
def isNumeric (c : Char) : Bool :=
  c.isDigit || ['.', '+', '-', 'e', 'E', 'i', 'I', 'n', 'N', 'f', 'F', 't', 'T', 'y', 'Y', 'a',
    'A'].contains c

/-- The texts made of words in `W`, marks in `M`, numbers, closed quotes and closed parentheses, in
which no word touches another. -/
inductive Composed (W : List Char → Prop) (M : Char → Prop) : List Char → Prop where
  | nil : Composed W M []
  | word {u : List Char} : (∀ c ∈ u, isWordChar c = true) → W u → Composed W M u
  | mark {c : Char} : isPunctuation c = true → M c → Composed W M [c]
  | numeral {u : List Char} : (∀ c ∈ u, isNumeric c = true) → Composed W M u
  | quoted {body : List Char} : '"' ∉ body → Composed W M ('"' :: body ++ ['"'])
  | parens {u : List Char} : Composed W M u → Composed W M ('(' :: u ++ [')'])
  | append {u v : List Char} : Composed W M u → Composed W M v → Apart u v → Composed W M (u ++ v)

theorem isInert_of_isNumeric {c : Char} (h : isNumeric c = true) :
    isInert c = true ∧ c ≠ ':' ∧ isBlank c = false := by
  simp only [isNumeric, Bool.or_eq_true, List.contains_iff_mem, List.mem_cons,
    List.not_mem_nil, or_false] at h
  rcases h with h | h
  · have hcolon : c ≠ ':' := by
      rintro rfl
      exact absurd h (by decide)
    rw [isDigit_iff] at h
    rw [isInert_iff, ← Bool.not_eq_true, isBlank_iff]
    refine ⟨?_, hcolon, ?_⟩ <;> omega
  · rcases h with rfl | rfl | rfl | rfl | rfl | rfl | rfl | rfl | rfl | rfl | rfl | rfl | rfl |
      rfl | rfl | rfl | rfl <;> decide

theorem not_isWordChar_of_isPunctuation {c : Char} (h : isPunctuation c = true) :
    isWordChar c = false := by
  simp only [isPunctuation, Bool.and_eq_true, Bool.not_eq_true'] at h
  exact h.1.1.1

theorem isPunctuation_of_isBlank {c : Char} (h : isBlank c = true) : isPunctuation c = true := by
  have hinert := isInert_of_isBlank h
  simp only [isInert, Bool.and_eq_true, bne_iff_ne] at hinert
  simp [isPunctuation, not_isWordChar_of_isBlank h, hinert]

/-! ### Cutting at colons -/

/-- Characters that mean nothing to a cut at colons. -/
structure IsPlain (c : Char) : Prop where
  ne_quote : c ≠ '"'
  ne_colon : c ≠ ':'
  not_isOpener : isOpener c = false
  not_isCloser : isCloser c = false

theorem IsPlain.of_isInert {c : Char} (h : isInert c = true) (hcolon : c ≠ ':') : IsPlain c := by
  simp only [isInert, Bool.and_eq_true, Bool.not_eq_true', bne_iff_ne] at h
  exact ⟨h.1.1.1, hcolon, h.1.2, h.2⟩

theorem piecesFrom_plain {u : List Char} (h : ∀ c ∈ u, IsPlain c) (n : Nat) (cs : List Char) :
    piecesFrom .quotesAndBrackets ':' ⟨false, n⟩ (u ++ cs) =
      (piecesFrom .quotesAndBrackets ':' ⟨false, n⟩ cs).modifyHead (u ++ ·) := by
  induction u with
  | nil => cases h : piecesFrom .quotesAndBrackets ':' ⟨false, n⟩ cs <;> simp [h]
  | cons c u ih =>
    obtain ⟨hc, hu⟩ := List.forall_mem_cons.mp h
    simp [piecesFrom, Nesting.separates, Nesting.step, hc.ne_quote, hc.ne_colon, hc.not_isOpener,
      hc.not_isCloser, ih hu, Function.comp_def]

namespace Composed

variable {W W' : List Char → Prop} {M M' : Char → Prop} {u : List Char}

theorem mono (hW : ∀ u, W u → W' u) (hM : ∀ c, M c → M' c) (h : Composed W M u) :
    Composed W' M' u := by
  induction h with
  | nil => exact .nil
  | word hchars hu => exact .word hchars (hW _ hu)
  | mark hc hM' => exact .mark hc (hM _ hM')
  | numeral hchars => exact .numeral hchars
  | quoted hbody => exact .quoted hbody
  | parens _ ih => exact .parens ih
  | append _ _ hapart ihu ihv => exact .append ihu ihv hapart

/-- A keyword that is not one of the words is not found. -/
theorem lacks {needle : List Char} (hneedle : IsKeyword needle)
    (hnumeric : needle.any (!isNumeric ·) = true) (hW : ∀ u, W u → u ≠ needle)
    (h : Composed W M u) : Lacks needle u := by
  have hkeyword {c d : Char} (hc : c ∈ needle) (hd : isWordChar d = false) : c ≠ d := by
    rintro rfl
    rw [isWordChar_of_isAlpha (hneedle.isAlpha c hc)] at hd
    cases hd
  obtain ⟨k, hk⟩ := List.exists_mem_of_ne_nil needle hneedle.ne_nil
  have hsingle {c : Char} (hword : isWordChar c = false) (hquote : c ≠ '"') : Lacks needle [c] :=
    .of_notMem hk (by simpa using hkeyword hk hword) (by simpa using hquote.symm)
  induction h with
  | nil => exact ⟨rfl, rfl⟩
  | word hchars hu => exact .word hneedle hchars (hW _ hu)
  | mark hc _ =>
    simp only [isPunctuation, Bool.and_eq_true, Bool.not_eq_true', bne_iff_ne] at hc
    exact hsingle hc.1.1.1 hc.1.1.2
  | numeral hchars =>
    obtain ⟨c, hc, hnot⟩ := List.any_eq_true.mp hnumeric
    refine .of_notMem hc (fun hmem => ?_) fun hmem =>
      (ne_of_isInert (isInert_of_isNumeric (hchars _ hmem)).1).1 rfl
    rw [hchars c hmem] at hnot
    cases hnot
  | quoted hbody =>
    refine .quoted ?_ hbody
    rintro rfl
    exact absurd (hneedle.isAlpha '"' (by simp)) (by decide)
  | parens _ ih =>
    refine .append_apart hneedle (.of_head? (by rintro c ⟨⟩; rfl)) ?_ (hsingle rfl (by decide))
    exact .append_apart hneedle (.of_getLast? (by rintro c ⟨⟩; rfl)) (hsingle rfl (by decide)) ih
  | append _ _ hapart ihu ihv => exact .append_apart hneedle hapart ihu ihv

/-- A cut at colons goes through a text that has none among its marks. -/
theorem pieces (hM : ∀ c, M c → c ≠ ':') (h : Composed W M u) (n : Nat) (cs : List Char) :
    piecesFrom .quotesAndBrackets ':' ⟨false, n⟩ (u ++ cs) =
      (piecesFrom .quotesAndBrackets ':' ⟨false, n⟩ cs).modifyHead (u ++ ·) := by
  induction h generalizing n cs with
  | nil => exact piecesFrom_plain (by simp) n cs
  | word hchars _ =>
    refine piecesFrom_plain (fun c hc => ?_) n cs
    refine .of_isInert (isInert_of_isWordChar (hchars c hc)) ?_
    rintro rfl
    exact absurd (hchars _ hc) (by decide)
  | mark hc hm =>
    simp only [isPunctuation, Bool.and_eq_true, Bool.not_eq_true', bne_iff_ne] at hc
    exact piecesFrom_plain (by simpa using ⟨hc.1.1.2, hM _ hm, hc.1.2, hc.2⟩) n cs
  | numeral hchars =>
    refine piecesFrom_plain (fun c hc => ?_) n cs
    have hnumeric := isInert_of_isNumeric (hchars c hc)
    exact .of_isInert hnumeric.1 hnumeric.2.1
  | quoted hbody => exact piecesFrom_quoted .quotesAndBrackets ':' n hbody cs
  | parens _ ih =>
    simp [piecesFrom, Nesting.separates, Nesting.step, isOpener, isCloser, ih, Function.comp_def]
  | append _ _ _ ihu ihv =>
    rw [List.append_assoc, ihu, ihv, List.modifyHead_modifyHead]
    simp [Function.comp_def]

/-! ### Building -/

theorem marks (h : ∀ c ∈ u, isPunctuation c = true ∧ M c) : Composed W M u := by
  induction u with
  | nil => exact .nil
  | cons c u ih =>
    obtain ⟨hc, hu⟩ := List.forall_mem_cons.mp h
    refine .append (.mark hc.1 hc.2) (ih hu) (.of_getLast? ?_)
    rintro d ⟨⟩
    exact not_isWordChar_of_isPunctuation hc.1

/-- Texts with a mark between them do not touch. -/
theorem intercalate {c : Char} {us : List (List Char)} (hc : isPunctuation c = true) (hM : M c)
    (h : ∀ u ∈ us, Composed W M u) : Composed W M ([c].intercalate us) := by
  have hword : ∀ d ∈ some c, isWordChar d = false := by
    rintro d ⟨⟩
    exact not_isWordChar_of_isPunctuation hc
  induction us with
  | nil => exact .nil
  | cons u us ih =>
    cases us with
    | nil => simpa [List.intercalate] using h u (by simp)
    | cons v us =>
      rw [List.intercalate_cons_cons]
      refine .append (.append (h u (by simp)) (.mark hc hM) (.of_head? hword))
        (ih fun x hx => h x (by simp [hx])) (.of_getLast? ?_)
      rw [List.getLast?_concat]
      exact hword

end Composed

end ClassicBasic.Text
