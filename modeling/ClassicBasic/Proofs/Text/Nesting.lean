import ClassicBasic.Proofs.Text.Blank
import ClassicBasic.Text.Search
import ClassicBasic.Text.Split

/-!
# Quotes, brackets and separators

`closing?` and `splitOutsideBrackets` cut a text without losing a character (`closingFrom?_spec`,
`intercalate_piecesFrom`). What stands in front of a closing parenthesis `Closes`, whatever follows
it. `Passes` says of a text that both go through it as if it were not there:
characters that mean nothing to them, closed quotes, and what stands between parentheses. So a
parenthesis around such a text is found again (`closing?_parens`), and such texts with commas
between them are its pieces (`piecesFrom_intercalate`). Blanks around a text only lengthen its first
and its last piece.
-/

namespace ClassicBasic.Text

/-! ## Cuts -/

theorem dropLeading?_eq_some {needle cs rest : List Char} :
    dropLeading? needle cs = some rest ↔ cs = needle ++ rest := by
  induction needle generalizing cs with
  | nil => simp [dropLeading?]
  | cons n needle ih =>
    cases cs with
    | nil => simp [dropLeading?]
    | cons c cs =>
      simp only [dropLeading?, beq_iff_eq]
      split
      · rename_i hnc
        simp [ih, hnc]
      · rename_i hnc
        simp [Ne.symm hnc]

theorem occursAt_iff {needle cs : List Char} {before : Option Char} :
    occursAt needle before cs = true ↔
      ∃ rest, cs = needle ++ rest ∧ standsAlone needle before rest.head? = true := by
  rw [occursAt]
  split
  · rename_i rest hrest
    rw [dropLeading?_eq_some] at hrest
    simp [hrest]
  · rename_i hnone
    simp only [Bool.false_eq_true, false_iff, not_exists, not_and]
    intro rest hrest
    rw [dropLeading?_eq_some.mpr hrest] at hnone
    cases hnone

theorem cutAt?_spec {p : Char → Bool} {cs before after : List Char}
    (h : cutAt? p cs = some (before, after)) :
    ∃ c, p c = true ∧ cs = before ++ c :: after ∧ ∀ d ∈ before, p d = false := by
  induction cs generalizing before after with
  | nil => simp [cutAt?] at h
  | cons c cs ih =>
    simp only [cutAt?] at h
    split at h
    · rename_i hc
      simp only [Option.some.injEq, Prod.mk.injEq] at h
      obtain ⟨rfl, rfl⟩ := h
      exact ⟨c, hc, rfl, by simp⟩
    · rename_i hc
      obtain ⟨⟨before', after'⟩, hcut, heq⟩ := Option.map_eq_some_iff.mp h
      simp only [Prod.mk.injEq] at heq
      obtain ⟨rfl, rfl⟩ := heq
      obtain ⟨d, hd, rfl, hbefore⟩ := ih hcut
      exact ⟨d, hd, rfl, List.forall_mem_cons.mpr ⟨by simpa using hc, hbefore⟩⟩

theorem cutAt?_append {p : Char → Bool} {before after : List Char} {c : Char} (hc : p c = true)
    (h : ∀ d ∈ before, p d = false) : cutAt? p (before ++ c :: after) = some (before, after) := by
  induction before with
  | nil => simp [cutAt?, hc]
  | cons d before ih =>
    simp only [List.cons_append, cutAt?, h d (by simp), Bool.false_eq_true, if_false,
      ih fun e he => h e (by simp [he]), Option.map_some]

theorem cutAt?_eq_none {p : Char → Bool} {cs : List Char} (h : ∀ c ∈ cs, p c = false) :
    cutAt? p cs = none := by
  rw [Option.eq_none_iff_forall_ne_some]
  rintro ⟨before, after⟩ hcut
  obtain ⟨c, hc, rfl, -⟩ := cutAt?_spec hcut
  rw [h c (by simp)] at hc
  cases hc

/-- A cut at a character is one at its first occurrence. -/
theorem cutAt?_char {c : Char} {cs before after : List Char} :
    cutAt? (· == c) cs = some (before, after) ↔ cs = before ++ c :: after ∧ c ∉ before := by
  constructor
  · intro h
    obtain ⟨d, hd, hcs, hbefore⟩ := cutAt?_spec h
    obtain rfl := eq_of_beq hd
    exact ⟨hcs, fun hmem => by simpa using hbefore d hmem⟩
  · rintro ⟨rfl, hbefore⟩
    refine cutAt?_append (beq_self_eq_true c) fun d hd => beq_false_of_ne ?_
    rintro rfl
    exact hbefore hd

theorem cutAt?_char_eq_none {c : Char} {cs : List Char} :
    cutAt? (· == c) cs = none ↔ c ∉ cs := by
  constructor
  · intro h hc
    obtain ⟨before, after, rfl, hbefore⟩ := List.eq_append_cons_of_mem hc
    rw [cutAt?_char.mpr ⟨rfl, hbefore⟩] at h
    cases h
  · intro h
    refine cutAt?_eq_none fun d hd => beq_false_of_ne ?_
    rintro rfl
    exact h hd

/-! ## Cutting at single items -/

section
variable {α : Type} {p : α → Bool}

theorem splitEvery_ne_nil (p : α → Bool) (as : List α) : splitEvery p as ≠ [] := by
  induction as with
  | nil => simp [splitEvery]
  | cons a as ih =>
    obtain ⟨u, us, hus⟩ := List.exists_cons_of_ne_nil ih
    rw [splitEvery]
    split <;> simp [hus]

/-- What holds no separator belongs to the first piece. -/
theorem splitEvery_append {u : List α} (hu : ∀ a ∈ u, p a = false) (as : List α) :
    splitEvery p (u ++ as) = (splitEvery p as).modifyHead (u ++ ·) := by
  induction u with
  | nil =>
    obtain ⟨v, vs, hvs⟩ := List.exists_cons_of_ne_nil (splitEvery_ne_nil p as)
    simp [hvs]
  | cons a u ih =>
    obtain ⟨ha, hu⟩ := List.forall_mem_cons.mp hu
    rw [List.cons_append, splitEvery, ha, ih hu]
    simp [Function.comp_def]

theorem splitEvery_eq_singleton {u : List α} (hu : ∀ a ∈ u, p a = false) :
    splitEvery p u = [u] := by
  simpa [splitEvery] using splitEvery_append hu []

/-- A separator ends the first piece. -/
theorem splitEvery_separator {u : List α} (hu : ∀ a ∈ u, p a = false) {sep : α}
    (hsep : p sep = true) (as : List α) :
    splitEvery p (u ++ sep :: as) = u :: splitEvery p as := by
  rw [splitEvery_append hu, splitEvery, if_pos hsep, List.modifyHead_cons, List.append_nil]

theorem splitEvery_intercalate {sep : α} (hsep : p sep = true) {us : List (List α)} (hne : us ≠ [])
    (hus : ∀ u ∈ us, ∀ a ∈ u, p a = false) : splitEvery p ([sep].intercalate us) = us := by
  induction us with
  | nil => contradiction
  | cons u us ih =>
    obtain ⟨hu, hus⟩ := List.forall_mem_cons.mp hus
    cases us with
    | nil => rw [List.intercalate_singleton, splitEvery_eq_singleton hu]
    | cons v us =>
      rw [List.intercalate_cons_cons, List.append_assoc, List.singleton_append,
        splitEvery_separator hu hsep, ih (by simp) hus]

/-- What holds no item to cut at belongs to the first run. -/
theorem splitAfter_append {u as v : List α} {vs : List (List α)} (hu : ∀ a ∈ u, p a = false)
    (has : splitAfter p as = v :: vs) : splitAfter p (u ++ as) = (u ++ v) :: vs := by
  induction u with
  | nil => exact has
  | cons a u ih =>
    obtain ⟨ha, hu⟩ := List.forall_mem_cons.mp hu
    rw [List.cons_append, splitAfter, ha, ih hu]
    rfl

theorem splitAfter_append_nil {u as : List α} (hne : u ≠ []) (hu : ∀ a ∈ u, p a = false)
    (has : splitAfter p as = []) : splitAfter p (u ++ as) = [u] := by
  obtain ⟨v, a, rfl⟩ := (List.eq_nil_or_concat u).resolve_left hne
  rw [List.concat_eq_append] at hu ⊢
  have ha : splitAfter p (a :: as) = [[a]] := by
    rw [splitAfter, hu a (by simp), has]
    rfl
  rw [List.append_assoc, List.singleton_append,
    splitAfter_append (fun b hb => hu b (by simp [hb])) ha]

theorem splitAfter_open {u : List α} (hne : u ≠ []) (hu : ∀ a ∈ u, p a = false) :
    splitAfter p u = [u] := by
  have hnil : splitAfter p ([] : List α) = [] := rfl
  simpa using splitAfter_append_nil hne hu hnil

/-- An item to cut at ends the first run. -/
theorem splitAfter_separator {u : List α} (hu : ∀ a ∈ u, p a = false) {sep : α}
    (hsep : p sep = true) (as : List α) :
    splitAfter p (u ++ sep :: as) = (u ++ [sep]) :: splitAfter p as :=
  splitAfter_append hu (by rw [splitAfter, if_pos hsep])

theorem forall_mem_intercalate {P : α → Prop} {sep : List α} {us : List (List α)}
    (hsep : ∀ a ∈ sep, P a) (hus : ∀ u ∈ us, ∀ a ∈ u, P a) : ∀ a ∈ sep.intercalate us, P a := by
  induction us with
  | nil => simp
  | cons u us ih =>
    obtain ⟨hu, hus⟩ := List.forall_mem_cons.mp hus
    cases us with
    | nil => rwa [List.intercalate_singleton]
    | cons v us =>
      rw [List.intercalate_cons_cons]
      exact List.forall_mem_append.mpr ⟨List.forall_mem_append.mpr ⟨hu, hsep⟩, ih hus⟩

/-- A piece holds no separator, and nothing that the text does not hold. -/
theorem mem_splitEvery {as u : List α} (h : u ∈ splitEvery p as) :
    ∀ a ∈ u, p a = false ∧ a ∈ as := by
  induction as generalizing u with
  | nil =>
    rw [splitEvery, List.mem_singleton] at h
    simp [h]
  | cons b as ih =>
    rw [splitEvery] at h
    split at h
    · rcases List.mem_cons.mp h with rfl | h
      · simp
      · exact fun a ha => (ih h a ha).imp_right (List.mem_cons_of_mem b)
    · rename_i hb
      obtain ⟨v, vs, hvs⟩ := List.exists_cons_of_ne_nil (splitEvery_ne_nil p as)
      rw [hvs] at h ih
      rcases List.mem_cons.mp h with rfl | h
      · refine List.forall_mem_cons.mpr ⟨⟨by simpa using hb, by simp⟩, fun a ha => ?_⟩
        exact (ih (by simp) a ha).imp_right (List.mem_cons_of_mem b)
      · exact fun a ha => (ih (List.mem_cons_of_mem v h) a ha).imp_right (List.mem_cons_of_mem b)

end

/-! ## Closing parentheses -/

/-- `Closes depth quoted body`: with `depth` parentheses open in front of `body`, inside quotes or
not, a closing one behind it is the first that leaves none open. -/
inductive Closes : Nat → Bool → List Char → Prop where
  | nil : Closes 1 false []
  | quote {depth : Nat} {quoted : Bool} {body : List Char} :
    Closes depth (!quoted) body → Closes depth quoted ('"' :: body)
  | quoted {depth : Nat} {c : Char} {body : List Char} :
    c ≠ '"' → Closes depth true body → Closes depth true (c :: body)
  | opening {depth : Nat} {body : List Char} :
    Closes (depth + 1) false body → Closes depth false ('(' :: body)
  | closing {depth : Nat} {body : List Char} :
    Closes (depth + 1) false body → Closes (depth + 2) false (')' :: body)
  | plain {depth : Nat} {c : Char} {body : List Char} :
    c ≠ '"' → c ≠ '(' → c ≠ ')' → Closes depth false body → Closes depth false (c :: body)

theorem Closes.closingFrom? {depth : Nat} {quoted : Bool} {body : List Char}
    (h : Closes depth quoted body) (after : List Char) :
    closingFrom? depth quoted (body ++ ')' :: after) = some (body, after) := by
  induction h with
  | nil => rfl
  | quote _ ih => simp [Text.closingFrom?, ih]
  | quoted hc _ ih => simp [Text.closingFrom?, hc, ih]
  | opening _ ih => simp [Text.closingFrom?, ih]
  | closing _ ih => simp [Text.closingFrom?, ih]
  | plain hquote hopen hclose _ ih => simp [Text.closingFrom?, hquote, hopen, hclose, ih]

/-- The text is cut in front of a parenthesis that closes what is open. -/
theorem closingFrom?_spec {depth : Nat} {quoted : Bool} {cs body after : List Char}
    (h : closingFrom? depth quoted cs = some (body, after)) :
    cs = body ++ ')' :: after ∧ Closes depth quoted body := by
  induction cs generalizing depth quoted body with
  | nil => simp [closingFrom?] at h
  | cons c cs ih =>
    have keep {depth' quoted'} (h : (closingFrom? depth' quoted' cs).map
        (fun r => (c :: r.1, r.2)) = some (body, after))
        (hstep : ∀ tail, Closes depth' quoted' tail → Closes depth quoted (c :: tail)) :
        c :: cs = body ++ ')' :: after ∧ Closes depth quoted body := by
      obtain ⟨⟨tail, after'⟩, hcs, heq⟩ := Option.map_eq_some_iff.mp h
      simp only [Prod.mk.injEq] at heq
      obtain ⟨rfl, rfl⟩ := heq
      obtain ⟨rfl, htail⟩ := ih hcs
      exact ⟨rfl, hstep tail htail⟩
    simp only [closingFrom?] at h
    split at h
    · rename_i hquote
      exact keep h fun _ => eq_of_beq hquote ▸ .quote
    · rename_i hquote
      have hquote : c ≠ '"' := by simpa using hquote
      cases quoted with
      | true => exact keep h fun _ => .quoted hquote
      | false =>
        rw [if_neg Bool.false_ne_true] at h
        split at h
        · rename_i hopen
          exact keep h fun _ => eq_of_beq hopen ▸ .opening
        · rename_i hopen
          split at h
          · rename_i hclose
            obtain rfl := eq_of_beq hclose
            split at h
            · cases h
            · cases h
              exact ⟨rfl, .nil⟩
            · exact keep h fun _ => .closing
          · rename_i hclose
            exact keep h fun _ => .plain hquote (by simpa using hopen) (by simpa using hclose)

/-- A parenthesis at the start of a text is closed behind what stands in it. -/
theorem closing?_open {cs body after : List Char} (h : closing? ('(' :: cs) = some (body, after)) :
    ∃ inner, body = '(' :: inner ∧ cs = inner ++ ')' :: after ∧ Closes 1 false inner := by
  obtain ⟨hcs, hbody⟩ := closingFrom?_spec h
  cases body with
  | nil => cases hcs
  | cons c inner =>
    obtain ⟨rfl, htail⟩ := List.cons.inj hcs
    refine ⟨inner, rfl, htail, ?_⟩
    cases hbody with
    | opening hinner => exact hinner
    | plain _ hopen _ _ => exact absurd rfl hopen

theorem piecesFrom_ne_nil (shield : Shield) (sep : Char) (n : Nesting) (cs : List Char) :
    piecesFrom shield sep n cs ≠ [] := by
  induction cs generalizing n with
  | nil => simp [piecesFrom]
  | cons c cs ih =>
    simp only [piecesFrom]
    split
    · simp
    · obtain ⟨p, ps, hps⟩ := List.exists_cons_of_ne_nil (ih (n.step shield c))
      simp [hps]

theorem intercalate_piecesFrom (shield : Shield) (sep : Char) (n : Nesting) (cs : List Char) :
    [sep].intercalate (piecesFrom shield sep n cs) = cs := by
  induction cs generalizing n with
  | nil => simp [piecesFrom, List.intercalate]
  | cons c cs ih =>
    simp only [piecesFrom]
    split
    · rename_i hc
      have hsep : c = sep := by
        simp only [Nesting.separates, Bool.and_eq_true, beq_iff_eq] at hc
        exact hc.1.1.1.1
      rw [List.intercalate_cons_of_ne_nil (piecesFrom_ne_nil _ _ _ _), ih, hsep]
      rfl
    · have hcs := ih (n.step shield c)
      obtain ⟨p, ps, hps⟩ :=
        List.exists_cons_of_ne_nil (piecesFrom_ne_nil shield sep (n.step shield c) cs)
      rw [hps] at hcs ⊢
      cases ps with
      | nil => simpa [List.intercalate] using hcs
      | cons q ps => simpa [List.intercalate] using hcs

theorem infix_intercalate {α : Type} {sep u : List α} {us : List (List α)} (h : u ∈ us) :
    u <:+: sep.intercalate us := by
  induction us with
  | nil => cases h
  | cons v us ih =>
    cases us with
    | nil =>
      obtain rfl := List.mem_singleton.mp h
      exact ⟨[], [], by simp⟩
    | cons w us =>
      rw [List.intercalate_cons_cons]
      rcases List.mem_cons.mp h with rfl | h
      · rw [List.append_assoc]
        exact (List.prefix_append _ _).isInfix
      · exact (ih h).trans (List.suffix_append _ _).isInfix

theorem length_le_intercalate {sep u : List Char} {us : List (List Char)} (h : u ∈ us) :
    u.length ≤ (sep.intercalate us).length :=
  (infix_intercalate h).length_le

/-- A quoted text is passed over: nothing in it separates, whatever counts outside. -/
theorem piecesFrom_quoted (shield : Shield) (sep : Char) (n : Nat) {body : List Char}
    (h : '"' ∉ body) (cs : List Char) :
    piecesFrom shield sep ⟨false, n⟩ ('"' :: body ++ ['"'] ++ cs) =
      (piecesFrom shield sep ⟨false, n⟩ cs).modifyHead ('"' :: body ++ ['"'] ++ ·) := by
  have hrun : piecesFrom shield sep ⟨true, n⟩ (body ++ '"' :: cs) =
      (piecesFrom shield sep ⟨false, n⟩ cs).modifyHead (body ++ '"' :: ·) := by
    induction body with
    | nil => simp [piecesFrom, Nesting.separates, Nesting.step]
    | cons c body ih =>
      simp only [List.mem_cons, not_or] at h
      have hc : c ≠ '"' := fun hc => h.1 hc.symm
      simp [piecesFrom, Nesting.separates, Nesting.step, hc, ih h.2, Function.comp_def]
  simp [piecesFrom, Nesting.separates, Nesting.step, hrun, Function.comp_def]

/-- Texts that are passed over are the pieces of a text in which separators stand between them. -/
theorem piecesFrom_join {shield : Shield} {sep : Char}
    (hsep : ({} : Nesting).separates shield sep sep = true) {us : List (List Char)} (hne : us ≠ [])
    (h : ∀ u ∈ us, ∀ cs, piecesFrom shield sep {} (u ++ cs) =
      (piecesFrom shield sep {} cs).modifyHead (u ++ ·)) :
    piecesFrom shield sep {} ([sep].intercalate us) = us := by
  induction us with
  | nil => contradiction
  | cons u us ih =>
    have hu := h u (by simp)
    cases us with
    | nil =>
      have := hu []
      simpa [List.intercalate, piecesFrom] using this
    | cons v vs =>
      have hrest := ih (by simp) fun w hw => h w (by simp [hw])
      rw [List.intercalate_cons_cons, List.append_assoc, hu, List.singleton_append, piecesFrom,
        hsep, if_pos rfl, hrest]
      simp

theorem splitOutsideBrackets_of_not_allBlank {sep : Char} {cs : List Char}
    (h : ¬ allBlank cs = true) :
    splitOutsideBrackets sep cs = piecesFrom .quotesAndBrackets sep {} cs := by
  have hne : cs ≠ [] := by
    rintro rfl
    exact h rfl
  simp [splitOutsideBrackets, splitOutside, hne]

/-! ## Texts that are passed over -/

/-- Characters that neither open nor close nor separate anything. -/
def isInert (c : Char) : Bool := c != '"' && c != ',' && !isOpener c && !isCloser c

theorem isInert_iff {c : Char} : isInert c = true ↔
    c.toNat ≠ 34 ∧ c.toNat ≠ 44 ∧ c.toNat ≠ 40 ∧ c.toNat ≠ 91 ∧ c.toNat ≠ 123 ∧ c.toNat ≠ 41 ∧
      c.toNat ≠ 93 ∧ c.toNat ≠ 125 := by
  simp [isInert, isOpener, isCloser, ← Char.toNat_inj, and_assoc]

theorem isInert_of_isBlank {c : Char} (h : isBlank c = true) : isInert c = true := by
  rw [isBlank_iff] at h
  rw [isInert_iff]
  omega

theorem isInert_of_isWordChar {c : Char} (h : isWordChar c = true) : isInert c = true := by
  rw [isWordChar_iff, isAlpha_iff, isDigit_iff] at h
  rw [isInert_iff]
  omega

theorem ne_of_isInert {c : Char} (h : isInert c = true) : c ≠ '"' ∧ c ≠ '(' ∧ c ≠ ')' := by
  refine ⟨?_, ?_, ?_⟩ <;> rintro rfl <;> exact absurd h (by decide)

/-- The search for a closing parenthesis goes through `u` unchanged, and so does the cut at commas
with at least `m` brackets open. -/
structure Passes (m : Nat) (u : List Char) : Prop where
  closing : ∀ n cs, closingFrom? (n + 1) false (u ++ cs) =
    (closingFrom? (n + 1) false cs).map fun r => (u ++ r.1, r.2)
  pieces : ∀ n, m ≤ n → ∀ cs, piecesFrom .quotesAndBrackets ',' ⟨false, n⟩ (u ++ cs) =
    (piecesFrom .quotesAndBrackets ',' ⟨false, n⟩ cs).modifyHead (u ++ ·)

namespace Passes

variable {m : Nat} {u v : List Char}

theorem nil : Passes m [] where
  closing n cs := by simp
  pieces n _ cs := by cases h : piecesFrom .quotesAndBrackets ',' ⟨false, n⟩ cs <;> simp [h]

theorem append (hu : Passes m u) (hv : Passes m v) : Passes m (u ++ v) where
  closing n cs := by
    rw [List.append_assoc, hu.closing, hv.closing, Option.map_map]
    simp [Function.comp_def]
  pieces n hn cs := by
    rw [List.append_assoc, hu.pieces n hn, hv.pieces n hn, List.modifyHead_modifyHead]
    simp [Function.comp_def]

theorem mono (h : Passes 0 u) : Passes m u where
  closing := h.closing
  pieces n _ := h.pieces n n.zero_le

theorem inert {c : Char} (hc : isInert c = true) : Passes m [c] := by
  simp only [isInert, isOpener, isCloser, Bool.and_eq_true, Bool.not_eq_true', bne_iff_ne,
    Bool.or_eq_false_iff, beq_eq_false_iff_ne] at hc
  obtain ⟨⟨⟨hquote, hcomma⟩, ⟨hopen, _⟩, _⟩, ⟨hclose, _⟩, _⟩ := hc
  constructor
  · intro n cs
    simp [closingFrom?, *]
  · intro n _ cs
    simp [piecesFrom, Nesting.separates, Nesting.step, isOpener, isCloser, *]

theorem inerts (h : ∀ c ∈ u, isInert c = true) : Passes m u := by
  induction u with
  | nil => exact .nil
  | cons c u ih => exact (inert (h c (by simp))).append (ih fun d hd => h d (by simp [hd]))

theorem blanks {ws : List Char} (h : allBlank ws = true) : Passes m ws :=
  .inerts fun c hc => isInert_of_isBlank (List.all_eq_true.mp h c hc)

theorem comma : Passes 1 [','] where
  closing n cs := by simp [closingFrom?]
  pieces n hn cs := by
    have hdepth : (n == 0) = false := by simpa using (by omega : n ≠ 0)
    simp [piecesFrom, Nesting.separates, Nesting.step, isOpener, isCloser, hdepth]

/-- Inside quotes nothing counts but the quote that ends them. -/
theorem quoted_run {body : List Char} (h : '"' ∉ body) (n : Nat) (cs : List Char) :
    closingFrom? (n + 1) true (body ++ '"' :: cs) =
      (closingFrom? (n + 1) false cs).map (fun r => (body ++ '"' :: r.1, r.2)) := by
  induction body with
  | nil => simp [closingFrom?]
  | cons c body ih =>
    simp only [List.mem_cons, not_or] at h
    have hc : c ≠ '"' := fun hc => h.1 hc.symm
    simp [closingFrom?, hc, ih h.2, Function.comp_def]

theorem quoted {body : List Char} (h : '"' ∉ body) : Passes m ('"' :: body ++ ['"']) where
  closing n cs := by
    simp [closingFrom?, quoted_run h n cs, Function.comp_def]
  pieces n _ cs := piecesFrom_quoted .quotesAndBrackets ',' n h cs

theorem parens (h : Passes 1 u) : Passes m ('(' :: u ++ [')']) where
  closing n cs := by
    simp [closingFrom?, h.closing, Function.comp_def]
  pieces n _ cs := by
    simp [piecesFrom, Nesting.separates, Nesting.step, isOpener, isCloser,
      h.pieces (n + 1) (by omega), Function.comp_def]

theorem intercalate {us : List (List Char)} (h : ∀ u ∈ us, Passes 0 u) :
    Passes 1 ([','].intercalate us) := by
  induction us with
  | nil => exact .nil
  | cons u us ih =>
    have hu : Passes 1 u := (h u (by simp)).mono
    cases us with
    | nil => simpa [List.intercalate] using hu
    | cons v vs =>
      rw [List.intercalate_cons_cons]
      exact (hu.append .comma).append (ih fun w hw => h w (by simp [hw]))

end Passes

theorem closing?_parens {m : Nat} {u : List Char} (h : Passes m u) (cs : List Char) :
    closing? ('(' :: u ++ ')' :: cs) = some ('(' :: u, cs) := by
  simp [closing?, closingFrom?, h.closing]

theorem piecesFrom_intercalate {us : List (List Char)} (hne : us ≠ [])
    (h : ∀ u ∈ us, Passes 0 u) :
    piecesFrom .quotesAndBrackets ',' {} ([','].intercalate us) = us :=
  piecesFrom_join rfl hne fun u hu => (h u hu).pieces 0 (Nat.le_refl 0)

/-! ## Pieces and the blanks around them -/

theorem step_blank {c : Char} (hc : isBlank c = true) (shield : Shield) (n : Nesting) :
    n.step shield c = n := by
  have hinert := isInert_of_isBlank hc
  simp only [isInert, Bool.and_eq_true, Bool.not_eq_true', bne_iff_ne] at hinert
  simp [Nesting.step, hinert]

section
variable {sep : Char} {ws : List Char}

/-- Blanks at the start of a text belong to its first piece. -/
theorem piecesFrom_blanks_append (shield : Shield) (n : Nesting) (cs : List Char)
    (hsep : isBlank sep = false) (hws : allBlank ws = true) :
    piecesFrom shield sep n (ws ++ cs) = (piecesFrom shield sep n cs).modifyHead (ws ++ ·) := by
  induction ws with
  | nil => cases h : piecesFrom shield sep n cs <;> simp [h]
  | cons c ws ih =>
    simp only [allBlank, List.all_cons, Bool.and_eq_true] at hws
    have hne : c ≠ sep := by
      rintro rfl
      rw [hws.1] at hsep
      cases hsep
    have hkeep : n.separates shield sep c = false := by simp [Nesting.separates, hne]
    rw [List.cons_append, piecesFrom, hkeep, step_blank hws.1, ih hws.2]
    simp [Function.comp_def]

/-- Blanks at the end of a text belong to its last piece. -/
theorem piecesFrom_append_blanks (shield : Shield) (n : Nesting) (cs : List Char)
    (hsep : isBlank sep = false) (hws : allBlank ws = true) :
    ∃ init last, piecesFrom shield sep n cs = init ++ [last] ∧
      piecesFrom shield sep n (cs ++ ws) = init ++ [last ++ ws] := by
  induction cs generalizing n with
  | nil =>
    refine ⟨[], [], rfl, ?_⟩
    have hpieces : piecesFrom shield sep n (ws ++ []) = [ws ++ []] :=
      piecesFrom_blanks_append shield n [] hsep hws
    simpa using hpieces
  | cons c cs ih =>
    rw [List.cons_append, piecesFrom, piecesFrom]
    split
    · obtain ⟨init, last, hcs, hws⟩ := ih n
      exact ⟨[] :: init, last, by simp [hcs], by simp [hws]⟩
    · obtain ⟨init, last, hcs, hws⟩ := ih (n.step shield c)
      rw [hcs, hws]
      cases init with
      | nil => exact ⟨[], c :: last, rfl, rfl⟩
      | cons p init => exact ⟨(c :: p) :: init, last, rfl, rfl⟩

end

theorem intercalate_append_last (sep last ws : List Char) (us : List (List Char)) :
    sep.intercalate (us ++ [last ++ ws]) = sep.intercalate (us ++ [last]) ++ ws := by
  induction us with
  | nil => simp [List.intercalate]
  | cons u us ih =>
    rw [List.cons_append, List.cons_append, List.intercalate_cons_of_ne_nil (by simp),
      List.intercalate_cons_of_ne_nil (by simp), ih]
    simp only [List.append_assoc]

end ClassicBasic.Text
