import ClassicBasic.Proofs.Text.Occurrence

/-!
# Splitting and joining

What stands behind a text is at `TopLevel` if the quotes of the text are closed and, where they
count, its brackets. This is said by counting them; the scan for separators has nothing open there
and nowhere else (`Nesting.scan_eq_iff`). `Cut` says of a list of texts that no character of them
separates and that all but the last leave nothing open. The pieces of every text are such a list
(`piecesFrom_cut`), and such a list with separators between its texts is cut where it was joined
(`Cut.piecesFrom_eq`).

So splitting and joining are inverse to each other (`splitOutside_inverse`), as long as the
separator is one: a quote never separates, and neither does a bracket that counts, even where
nothing is open (`not_unseparated_bracket`).
-/

namespace ClassicBasic.Text

/-! ## Top level -/

/-- The characters of a text outside its quotes; `quoted` says if it starts inside. -/
def unquoted : (quoted : Bool) → List Char → List Char
  | _, [] => []
  | quoted, c :: cs =>
    if c = '"' then unquoted (!quoted) cs
    else if quoted then unquoted quoted cs
    else c :: unquoted quoted cs

/-- From every place on there are no fewer closers than openers, so that no bracket is open at the
end. What stands in front of a place does not count: a closer with nothing to close is void. -/
def AllClosed (cs : List Char) : Prop := ∀ v, v <:+ cs → v.countP isOpener ≤ v.countP isCloser

/-- Behind `cs` no quote is open and, where brackets count, no bracket outside quotes. -/
def TopLevel (shield : Shield) (cs : List Char) : Prop :=
  Even (cs.count '"') ∧ (shield = .quotesAndBrackets → AllClosed (unquoted false cs))

/-- No separator stands at top level in `u`. -/
def Unseparated (shield : Shield) (sep : Char) (u : List Char) : Prop :=
  ∀ v w, u = v ++ sep :: w → ¬ TopLevel shield v

theorem allClosed_cons {c : Char} {cs : List Char} : AllClosed (c :: cs) ↔
    (c :: cs).countP isOpener ≤ (c :: cs).countP isCloser ∧ AllClosed cs := by
  constructor
  · intro h
    exact ⟨h _ (List.suffix_refl _), fun v hv => h v (hv.trans (List.suffix_cons c cs))⟩
  · rintro ⟨hall, htail⟩ v hv
    rcases List.suffix_cons_iff.mp hv with rfl | hv
    · exact hall
    · exact htail v hv

theorem not_isCloser_of_isOpener {c : Char} (h : isOpener c = true) : isCloser c = false := by
  simp only [isOpener, Bool.or_eq_true, beq_iff_eq] at h
  rcases h with (rfl | rfl) | rfl <;> rfl

namespace Nesting

/-- The state behind a text, from that in front of it. -/
def scan (shield : Shield) (n : Nesting) (cs : List Char) : Nesting := cs.foldl (·.step shield) n

variable {shield : Shield} {sep : Char} {n : Nesting}

theorem scan_cons (shield : Shield) (n : Nesting) (c : Char) (cs : List Char) :
    n.scan shield (c :: cs) = (n.step shield c).scan shield cs := rfl

theorem step_quoted (shield : Shield) (n : Nesting) (c : Char) :
    (n.step shield c).quoted = if c == '"' then !n.quoted else n.quoted := by
  unfold step
  grind

theorem scan_quoted (shield : Shield) (n : Nesting) (cs : List Char) :
    (n.scan shield cs).quoted = endsQuoted n.quoted cs := by
  induction cs generalizing n with
  | nil => rfl
  | cons c cs ih =>
    rw [scan_cons, ih, step_quoted]
    rfl

/-- Where brackets do not count, none is ever open. -/
theorem scan_quotes_depth (n : Nesting) (cs : List Char) :
    (n.scan .quotes cs).depth = n.depth := by
  induction cs generalizing n with
  | nil => rfl
  | cons c cs ih =>
    rw [scan_cons, ih]
    unfold step
    grind

/-- Where they do, those open at the start have to be closed as well. -/
theorem scan_depth_eq_zero (n : Nesting) (cs : List Char) :
    (n.scan .quotesAndBrackets cs).depth = 0 ↔
      n.depth + (unquoted n.quoted cs).countP isOpener ≤ (unquoted n.quoted cs).countP isCloser ∧
        AllClosed (unquoted n.quoted cs) := by
  induction cs generalizing n with
  | nil => simp [scan, unquoted, AllClosed]
  | cons c cs ih =>
    rw [scan_cons, ih, step_quoted]
    by_cases hquote : c = '"'
    · simp [step, unquoted, hquote]
    by_cases hquoted : n.quoted = true
    · simp [step, unquoted, hquote, hquoted]
    have hkeep : unquoted n.quoted (c :: cs) = c :: unquoted n.quoted cs := by
      simp [unquoted, hquote, hquoted]
    have hsame : (if c == '"' then !n.quoted else n.quoted) = n.quoted := by simp [hquote]
    rw [hkeep, hsame, allClosed_cons, List.countP_cons, List.countP_cons, ← and_assoc]
    refine and_congr_left fun hclosed => ?_
    have hrest := hclosed _ (List.suffix_refl _)
    by_cases hopen : isOpener c = true
    · have hstep : (n.step .quotesAndBrackets c).depth = n.depth + 1 := by
        simp [step, hquote, hquoted, hopen]
      rw [hstep, hopen, not_isCloser_of_isOpener hopen]
      simp only [if_true, Bool.false_eq_true, if_false]
      omega
    by_cases hclose : isCloser c = true
    · -- With nothing to close it is void, and what follows is closed without it.
      have hstep : (n.step .quotesAndBrackets c).depth = n.depth - 1 := by
        simp [step, hquote, hquoted, hopen, hclose]
      rw [hstep, if_neg hopen, if_pos hclose]
      omega
    · have hstep : (n.step .quotesAndBrackets c).depth = n.depth := by
        simp [step, hquote, hquoted, hopen, hclose]
      rw [hstep, if_neg hopen, if_neg hclose]
      omega

/-- The scan has nothing open exactly at top level. -/
theorem scan_eq_iff {cs : List Char} : scan shield {} cs = {} ↔ TopLevel shield cs := by
  have hfields : scan shield {} cs = {} ↔
      (scan shield {} cs).quoted = false ∧ (scan shield {} cs).depth = 0 := by
    cases scan shield {} cs
    simp
  rw [hfields, scan_quoted, endsQuoted_eq_self, TopLevel]
  cases shield with
  | quotes => simp [scan_quotes_depth]
  | quotesAndBrackets =>
    rw [scan_depth_eq_zero]
    refine and_congr_right fun _ => ⟨fun h _ => h.2, fun h => ?_⟩
    have hclosed : AllClosed (unquoted false cs) := h rfl
    exact ⟨by simpa using hclosed _ (List.suffix_refl _), hclosed⟩

end Nesting

instance (shield : Shield) (cs : List Char) : Decidable (TopLevel shield cs) :=
  decidable_of_iff _ Nesting.scan_eq_iff

/-! ## Texts in which nothing separates -/

/-- Whether a scan takes `c` for a quote or a bracket. -/
def Shield.counts (shield : Shield) (c : Char) : Bool :=
  c == '"' || (shield == .quotesAndBrackets && (isOpener c || isCloser c))

theorem Nesting.separates_iff {shield : Shield} {sep c : Char} {n : Nesting} :
    n.separates shield sep c = true ↔ c = sep ∧ n = {} ∧ shield.counts c = false := by
  obtain ⟨quoted, depth⟩ := n
  cases shield <;> cases quoted <;> simp [separates, Shield.counts, and_assoc]

/-- No character of `u`, which the scan enters in state `n`, separates. -/
def Whole (shield : Shield) (sep : Char) (n : Nesting) (u : List Char) : Prop :=
  ∀ v c w, u = v ++ c :: w → (n.scan shield v).separates shield sep c = false

section
variable {shield : Shield} {sep c : Char} {n : Nesting} {u cs : List Char} {us : List (List Char)}

theorem Whole.nil : Whole shield sep n [] := by
  intro v c w h
  simp at h

theorem whole_cons : Whole shield sep n (c :: u) ↔
    n.separates shield sep c = false ∧ Whole shield sep (n.step shield c) u := by
  constructor
  · intro h
    exact ⟨h [] c u rfl, fun v d w hu => h (c :: v) d w (by rw [hu]; rfl)⟩
  · rintro ⟨hc, hu⟩ v d w hcut
    cases v with
    | nil =>
      cases hcut
      exact hc
    | cons b v =>
      obtain ⟨rfl, htail⟩ := List.cons.inj hcut
      exact hu v d w htail

/-- A quote or a bracket that counts never separates. -/
theorem Whole.of_counts (hsep : shield.counts sep = true) (n : Nesting) (u : List Char) :
    Whole shield sep n u := by
  intro v c w _
  by_contra h
  obtain ⟨rfl, -, hcounts⟩ := Nesting.separates_iff.mp (by simpa using h)
  rw [hsep] at hcounts
  cases hcounts

/-- Any other character does at top level, and only there. -/
theorem whole_iff (hsep : shield.counts sep = false) :
    Whole shield sep {} u ↔ Unseparated shield sep u := by
  constructor
  · intro h v w hu htop
    have hkept := h v sep w hu
    rw [Nesting.scan_eq_iff.mpr htop, Nesting.separates_iff.mpr ⟨rfl, rfl, hsep⟩] at hkept
    cases hkept
  · intro h v c w hu
    by_contra hcut
    obtain ⟨rfl, hscan, -⟩ := Nesting.separates_iff.mp (by simpa using hcut)
    exact h v w hu (Nesting.scan_eq_iff.mp hscan)

/-- A text in which nothing separates belongs to the first piece. -/
theorem Whole.piecesFrom_append (hu : Whole shield sep n u) (cs : List Char) :
    piecesFrom shield sep n (u ++ cs) =
      (piecesFrom shield sep (n.scan shield u) cs).modifyHead (u ++ ·) := by
  induction u generalizing n with
  | nil =>
    obtain ⟨p, ps, hps⟩ := List.exists_cons_of_ne_nil (piecesFrom_ne_nil shield sep n cs)
    simp [Nesting.scan, hps]
  | cons c u ih =>
    obtain ⟨hc, hu⟩ := whole_cons.mp hu
    rw [List.cons_append, piecesFrom, hc, ih hu, Nesting.scan_cons, if_neg Bool.false_ne_true,
      List.modifyHead_modifyHead]
    rfl

/-! ## Lists of pieces -/

/-- `Cut shield sep n us`: with separators between them and entered in state `n`, the texts `us` are
cut at the separators and nowhere else. -/
inductive Cut (shield : Shield) (sep : Char) : Nesting → List (List Char) → Prop
  | last {n : Nesting} {u : List Char} : Whole shield sep n u → Cut shield sep n [u]
  | piece {n : Nesting} {u : List Char} {us : List (List Char)} : Whole shield sep n u →
      n.scan shield u = {} → Cut shield sep {} us → Cut shield sep n (u :: us)

theorem Cut.ne_nil (h : Cut shield sep n us) : us ≠ [] := by
  cases h <;> simp

theorem Cut.head (h : Cut shield sep n (u :: us)) : Whole shield sep n u := by
  cases h with
  | last hu => exact hu
  | piece hu _ _ => exact hu

/-- The first text may start with a character that does not separate. -/
theorem Cut.cons (hc : n.separates shield sep c = false)
    (h : Cut shield sep (n.step shield c) us) : Cut shield sep n (us.modifyHead (c :: ·)) := by
  cases h with
  | last hu => exact .last (whole_cons.mpr ⟨hc, hu⟩)
  | piece hu hscan hus => exact .piece (whole_cons.mpr ⟨hc, hu⟩) hscan hus

theorem piecesFrom_cut (shield : Shield) (sep : Char) (n : Nesting) (cs : List Char) :
    Cut shield sep n (piecesFrom shield sep n cs) := by
  induction cs generalizing n with
  | nil => exact .last .nil
  | cons c cs ih =>
    rw [piecesFrom]
    split
    · rename_i hsep
      obtain ⟨-, rfl, -⟩ := Nesting.separates_iff.mp hsep
      exact .piece .nil rfl (ih {})
    · rename_i hkeep
      exact .cons (by simpa using hkeep) (ih _)

/-- A text is its only piece exactly if nothing in it separates. -/
theorem piecesFrom_eq_singleton : piecesFrom shield sep n u = [u] ↔ Whole shield sep n u := by
  constructor
  · intro h
    have hcut := piecesFrom_cut shield sep n u
    rw [h] at hcut
    exact hcut.head
  · intro hu
    have happend := hu.piecesFrom_append []
    simpa [piecesFrom] using happend

theorem Cut.piecesFrom_eq (hsep : shield.counts sep = false) (h : Cut shield sep n us) :
    piecesFrom shield sep n ([sep].intercalate us) = us := by
  induction h with
  | last hu => rw [List.intercalate_singleton, piecesFrom_eq_singleton.mpr hu]
  | @piece n u us hu hscan hus ih =>
    have hcut : Nesting.separates shield sep {} sep = true :=
      Nesting.separates_iff.mpr ⟨rfl, rfl, hsep⟩
    rw [List.intercalate_cons_of_ne_nil hus.ne_nil, List.append_assoc, List.singleton_append,
      hu.piecesFrom_append, hscan, piecesFrom, if_pos hcut, ih, List.modifyHead_cons,
      List.append_nil]

theorem cut_iff : Cut shield sep {} us ↔ us ≠ [] ∧ (∀ u ∈ us, Whole shield sep {} u) ∧
    ∀ u ∈ us.dropLast, Nesting.scan shield {} u = {} := by
  induction us with
  | nil => exact iff_of_false (fun h => h.ne_nil rfl) fun h => h.1 rfl
  | cons u us ih =>
    cases us with
    | nil =>
      constructor
      · intro h
        exact ⟨by simp, by simpa using h.head, by simp⟩
      · intro h
        exact .last (h.2.1 u (by simp))
    | cons v us =>
      rw [List.dropLast_cons_cons]
      constructor
      · intro h
        cases h with
        | piece hu hscan hus =>
          obtain ⟨-, hwhole, hclosed⟩ := ih.mp hus
          exact ⟨by simp, List.forall_mem_cons.mpr ⟨hu, hwhole⟩,
            List.forall_mem_cons.mpr ⟨hscan, hclosed⟩⟩
      · rintro ⟨-, hwhole, hclosed⟩
        obtain ⟨hu, hwhole⟩ := List.forall_mem_cons.mp hwhole
        obtain ⟨hscan, hclosed⟩ := List.forall_mem_cons.mp hclosed
        exact .piece hu hscan (ih.mpr ⟨by simp, hwhole, hclosed⟩)

theorem splitOutside_eq (h : cs ≠ []) :
    splitOutside shield sep cs = piecesFrom shield sep {} cs :=
  if_neg (by simpa using h)

/-- Nothing but the empty text alone is joined to the empty text. -/
theorem intercalate_ne_nil (hne : us ≠ []) (hempty : us ≠ [[]]) : [sep].intercalate us ≠ [] := by
  cases us with
  | nil => exact absurd rfl hne
  | cons u us =>
    cases us with
    | nil =>
      rw [List.intercalate_singleton]
      rintro rfl
      exact hempty rfl
    | cons v us =>
      rw [List.intercalate_cons_cons]
      simp

end

/-- **Splitting and joining are inverse to each other**, whether quotes alone shield a separator
(`splitOutsideQuotes`) or quotes and brackets do (`splitOutsideBrackets`). Joined again, the pieces
of a text give it back, and all but the last leave the scan outside quotes and brackets. They have
no separator at top level, unless the separator is a quote or a bracket that counts: then the text
is its only piece. Conversely, texts without a separator at top level, of which all but the last
leave the scan outside quotes and brackets, are the pieces of the text they are joined to. -/
theorem splitOutside_inverse (shield : Shield) (sep : Char) :
    (∀ cs, cs ≠ [] →
      [sep].intercalate (splitOutside shield sep cs) = cs ∧
      (∀ u ∈ (splitOutside shield sep cs).dropLast, Nesting.scan shield {} u = {}) ∧
      (shield.counts sep = false → ∀ u ∈ splitOutside shield sep cs, Unseparated shield sep u) ∧
      (shield.counts sep = true → splitOutside shield sep cs = [cs])) ∧
    (shield.counts sep = false → ∀ us, us ≠ [] → us ≠ [[]] →
      (∀ u ∈ us, Unseparated shield sep u) →
      (∀ u ∈ us.dropLast, Nesting.scan shield {} u = {}) →
      splitOutside shield sep ([sep].intercalate us) = us) := by
  constructor
  · intro cs hcs
    obtain ⟨-, hwhole, hclosed⟩ := cut_iff.mp (piecesFrom_cut shield sep {} cs)
    rw [splitOutside_eq hcs]
    refine ⟨intercalate_piecesFrom shield sep {} cs, hclosed, fun hsep u hu => ?_, fun hsep => ?_⟩
    · exact (whole_iff hsep).mp (hwhole u hu)
    · exact piecesFrom_eq_singleton.mpr (.of_counts hsep {} cs)
  · intro hsep us hne hempty hkept hclosed
    have hcut : Cut shield sep {} us :=
      cut_iff.mpr ⟨hne, fun u hu => (whole_iff hsep).mpr (hkept u hu), hclosed⟩
    rw [splitOutside_eq (intercalate_ne_nil hne hempty), hcut.piecesFrom_eq hsep]

/-- A level that one kind of bracket opens and another closes, a quoted separator, an empty piece
and a last piece that leaves a bracket and a quote open. -/
theorem splitOutside_inverse_mixed :
    let us := ["A(1,2]".toList, "\",\"".toList, [], "B(\"C,".toList]
    (∀ u ∈ us, Unseparated .quotesAndBrackets ',' u) ∧
      (∀ u ∈ us.dropLast, Nesting.scan .quotesAndBrackets {} u = {}) ∧
      splitOutsideBrackets ',' ([','].intercalate us) = us ∧
      ∀ u ∈ splitOutsideQuotes ',' ([','].intercalate us), Unseparated .quotes ',' u := by
  intro us
  have hkept : ∀ u ∈ us, Unseparated .quotesAndBrackets ',' u := by
    intro u hu
    refine (whole_iff rfl).mp (piecesFrom_eq_singleton.mp ?_)
    revert u
    decide
  have hclosed : ∀ u ∈ us.dropLast, Nesting.scan .quotesAndBrackets {} u = {} := by decide
  refine ⟨hkept, hclosed, ?_, ?_⟩
  · exact (splitOutside_inverse .quotesAndBrackets ',').2 rfl us (by decide) (by decide) hkept hclosed
  · exact ((splitOutside_inverse .quotes ',').1 _ (by decide)).2.2.1 rfl

/-- A bracket at top level does not separate. -/
theorem not_unseparated_bracket :
    ¬ ∀ (sep : Char) (cs : List Char), cs ≠ [] →
      ∀ u ∈ splitOutsideBrackets sep cs, Unseparated .quotesAndBrackets sep u := by
  intro h
  exact h ')' [')'] (by simp) [')'] (by decide) [] [] rfl (by decide)

end ClassicBasic.Text
