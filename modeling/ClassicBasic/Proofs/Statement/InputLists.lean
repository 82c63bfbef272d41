import ClassicBasic.Proofs.Statement.Blocks
import ClassicBasic.Proofs.Statement.Clauses

/-!
# The lists of INPUT

`Clause.Follows` is the grammar of an INPUT list: a prompt in quotes with a semicolon or a comma
behind it, which may be missing, and targets with commas between them. A text that is read as a
target has no comma outside quotes and brackets (`passes_of_readTarget`), so a list has one reading
only.
-/

namespace ClassicBasic

/-- The pieces of a text with commas between them are the text. -/
theorem Text.commas_splitOutsideBrackets (cs : List Char) :
    commas (splitOutsideBrackets ',' cs) = cs := by
  rw [splitOutsideBrackets, splitOutside]
  split
  · rename_i hnil
    rw [List.isEmpty_iff.mp hnil]
    rfl
  · exact intercalate_piecesFrom _ _ _ _

namespace Clause

open Text (commas inQuotes allBlank trim trimStart Passes)

/-! ## The texts of targets -/

section
variable {u cs name inner : List Char} {args : List (List Char)} {t : Target}

theorem passes_of_readExpr {e : Expr} (h : readExpr cs = .ok e) : Passes 0 cs := by
  unfold readExpr at h
  split at h
  · rename_i hparse
    obtain ⟨ts, hspelled, hts, -⟩ := Expr.exists_spelled hparse
    exact hts.passes hspelled
  · cases h

/-- Blanks around a text that is passed over are passed over too. -/
theorem passes_of_trim (h : Passes 0 (trim u)) : Passes 0 u := by
  obtain ⟨pre, post, hu, hpre, -, hpost⟩ := Text.exists_trim u
  rw [hu]
  exact ((Passes.blanks hpre).append h).append (.blanks hpost)

theorem passes_of_isName (h : Text.isName cs = true) : Passes 0 cs :=
  .inerts fun c hc => Text.isInert_of_isWordChar (Text.isWordChar_of_isName h c hc)

/-- What is read as a target has its commas in quotes and brackets, and these are closed. -/
theorem passes_of_readTarget (h : readTarget u = .ok t) : Passes 0 u := by
  refine passes_of_trim ?_
  unfold readTarget at h
  generalize trim u = cs at h ⊢
  simp only at h
  split at h
  · rename_i name args hsplit
    split at h
    · cases h
    · rename_i hvalid
      simp only [Bool.or_eq_true, Bool.not_eq_true', not_or, Bool.not_eq_false] at hvalid
      obtain ⟨subscripts, hsubscripts, -⟩ := bind_eq_ok.mp h
      obtain ⟨before, inner, rfl, rfl, rfl⟩ := splitCall?_shape hsplit
      have hargs : ∀ a ∈ Text.splitOutsideBrackets ',' inner, Passes 0 a := by
        intro a ha
        obtain ⟨e, -, he⟩ := forall₂_left (mapM_eq_ok.mp hsubscripts) ha
        exact passes_of_readExpr he
      have hinner : Passes 1 inner := by
        rw [← Text.commas_splitOutsideBrackets inner]
        exact .intercalate hargs
      exact (passes_of_trim (passes_of_isName hvalid.1)).append (.parens hinner)
  · split at h
    · rename_i hname
      exact passes_of_isName hname
    · cases h

theorem not_allBlank_of_readTarget (h : readTarget u = .ok t) : ¬ allBlank u = true := by
  intro hblank
  obtain ⟨c, hc, -⟩ := starts_of_readTarget h
  rw [Text.trim_eq_nil.mpr hblank] at hc
  cases hc

end

/-! ## The grammar -/

/-- What may stand in front of the targets, and the prompt that it gives. -/
inductive Opening : Option String → List Char → Prop
  | bare : Opening none []
  | prompt {p : String} {ws : List Char} {sep : Char} : '"' ∉ p.toList → allBlank ws = true →
      sep = ';' ∨ sep = ',' → Opening (some p) (inQuotes p ++ (ws ++ [sep]))

/-- `us` are the texts of `targets`, in their order. -/
def Spell (us : List (List Char)) (targets : List Target) : Prop :=
  List.Forall₂ (fun u t => readTarget u = .ok t) us targets

/-- The grammar of an INPUT list: `text` is an opening, and targets with commas between them. -/
def Follows (text : List Char) (prompt : Option String) (targets : List Target) : Prop :=
  ∃ front us, trimStart text = front ++ commas us ∧ Opening prompt front ∧ us ≠ [] ∧
    Spell us targets

/-- The texts of a list that are not blank. -/
def nonblanks (us : List (List Char)) : List (List Char) := us.filter fun u => !allBlank u

/-- What the reader takes without being part of the grammar: a place of a target is blank, or the
separator behind the prompt is missing. -/
inductive Lax (text : List Char) : Option String → List Target → Prop
  | gap {prompt : Option String} {targets : List Target} {front : List Char}
      {us : List (List Char)} : trimStart text = front ++ commas us → Opening prompt front →
      (∃ u ∈ us, allBlank u = true) → Spell (nonblanks us) targets → targets ≠ [] →
      Lax text prompt targets
  | unseparated {p : String} {targets : List Target} {ws : List Char} {us : List (List Char)} :
      trimStart text = inQuotes p ++ (ws ++ commas us) → '"' ∉ p.toList → allBlank ws = true →
      (∀ c ∈ (commas us).head?, Text.isBlank c = false ∧ c ≠ ';' ∧ c ≠ ',') →
      Spell (nonblanks us) targets → targets ≠ [] → Lax text (some p) targets

section
variable {us : List (List Char)} {targets : List Target} {text front list : List Char}
  {prompt : Option String}

/-- Every text of a list with gaps is blank or a target. -/
theorem Spell.of_mem (h : Spell (nonblanks us) targets) {u : List Char} (hu : u ∈ us) :
    allBlank u = true ∨ ∃ t, readTarget u = .ok t := by
  by_cases hblank : allBlank u = true
  · exact .inl hblank
  · obtain ⟨t, -, ht⟩ := forall₂_left h (List.mem_filter.mpr ⟨hu, by simpa using hblank⟩)
    exact .inr ⟨t, ht⟩

theorem Spell.nonblanks_eq (h : Spell us targets) : nonblanks us = us := by
  refine List.filter_eq_self.mpr fun u hu => ?_
  obtain ⟨t, -, ht⟩ := forall₂_left h hu
  simpa using not_allBlank_of_readTarget ht

/-- A list with gaps is cut into the texts between its commas. -/
theorem Spell.split_commas (h : Spell (nonblanks us) targets) (hne : targets ≠ []) :
    Text.splitOutsideBrackets ',' (commas us) = us := by
  obtain ⟨t, ht⟩ := List.exists_mem_of_ne_nil _ hne
  obtain ⟨u, hu, hread⟩ := forall₂_right h ht
  have hmem : u ∈ us := (List.mem_filter.mp hu).1
  have hpasses : ∀ v ∈ us, Passes 0 v := fun v hv =>
    (h.of_mem hv).elim Passes.blanks fun ⟨_, ht⟩ => passes_of_readTarget ht
  have hcommas : commas us ≠ [] := by
    have hlength : u.length ≤ (commas us).length := Text.length_le_intercalate hmem
    intro hnil
    rw [hnil, List.length_nil, Nat.le_zero, List.length_eq_zero_iff] at hlength
    exact not_allBlank_of_readTarget hread (hlength ▸ rfl)
  rw [Text.splitOutsideBrackets, Text.splitOutside, if_neg (by simpa using hcommas)]
  exact Text.piecesFrom_intercalate (List.ne_nil_of_mem hmem) hpasses

/-- A text that is blank or a target does not start with a quote. -/
theorem head?_ne_quote {u : List Char} (h : allBlank u = true ∨ ∃ t, readTarget u = .ok t) :
    u.head? ≠ some '"' := by
  intro hhead
  rcases h with hblank | ⟨t, ht⟩
  · exact absurd (List.all_eq_true.mp hblank '"' (List.mem_of_mem_head? hhead)) (by decide)
  · obtain ⟨c, hc, halpha⟩ := starts_of_readTarget ht
    rw [Text.head?_trim fun d hd => ?_, hhead] at hc
    · cases hc
      exact absurd halpha (by decide)
    · rw [hhead] at hd
      cases hd
      rfl

/-- A list does not start with a quote. -/
theorem Spell.head?_commas (h : Spell (nonblanks us) targets) : (commas us).head? ≠ some '"' := by
  cases us with
  | nil => simp [commas]
  | cons u us =>
    have hu := head?_ne_quote (h.of_mem List.mem_cons_self)
    cases u with
    | nil =>
      cases us with
      | nil => simp [commas]
      | cons v us => simp [Text.commas_cons_cons]
    | cons c u => rwa [Text.commas_cons]

/-- A text in quotes is told from what follows it. -/
theorem inQuotes_append_inj {p q : String} {rest rest' : List Char} (hp : '"' ∉ p.toList)
    (hq : '"' ∉ q.toList) (h : inQuotes p ++ rest = inQuotes q ++ rest') :
    p.toList = q.toList ∧ rest = rest' := by
  rw [inQuotes_append, inQuotes_append] at h
  have hcut := congrArg (Text.cutAt? (· == '"')) (List.cons.inj h).2
  rw [Text.cutAt?_char.mpr ⟨rfl, hp⟩, Text.cutAt?_char.mpr ⟨rfl, hq⟩] at hcut
  exact Prod.mk.inj (Option.some.inj hcut)

theorem dropSeparator_of_ne (h : ∀ c ∈ list.head?, c ≠ ';' ∧ c ≠ ',') :
    dropSeparator list = list := by
  unfold dropSeparator
  split
  · exact absurd rfl (h ';' rfl).1
  · exact absurd rfl (h ',' rfl).2
  · rfl

theorem trimStart_blanks_append {ws : List Char} (hws : allBlank ws = true)
    (hlist : ∀ c ∈ list.head?, Text.isBlank c = false) : trimStart (ws ++ list) = list :=
  Text.dropWhile_isBlank_append hws hlist

/-- Behind an opening stands the list. -/
theorem Opening.readPrompt (h : Opening prompt front) (htext : trimStart text = front ++ list)
    (hlist : list.head? ≠ some '"') : readPrompt text = .ok (prompt, list) := by
  cases h with
  | bare =>
    rw [List.nil_append] at htext
    rw [Clause.readPrompt, htext]
    split
    · exact absurd rfl hlist
    · rfl
  | @prompt p ws sep hp hws hsep =>
    have hstart : dropSeparator (trimStart (ws ++ sep :: list)) = list := by
      rw [trimStart_blanks_append hws]
      · rcases hsep with rfl | rfl <;> rfl
      · rintro c ⟨⟩
        rcases hsep with rfl | rfl <;> rfl
    rw [List.append_assoc, List.append_assoc, List.singleton_append] at htext
    rw [readPrompt_quoted hp htext, hstart]

/-- What a prompt was read from. -/
theorem readPrompt_cases (h : Clause.readPrompt text = .ok (prompt, list)) :
    prompt = none ∧ trimStart text = list ∨
      ∃ p behind, prompt = some p ∧ '"' ∉ p.toList ∧ trimStart text = inQuotes p ++ behind ∧
        list = dropSeparator (trimStart behind) := by
  unfold Clause.readPrompt at h
  split at h
  · rename_i rest htext
    split at h
    · rename_i p behind hcut
      cases h
      obtain ⟨c, hc, rfl, hp⟩ := Text.cutAt?_spec hcut
      obtain rfl := eq_of_beq hc
      refine .inr ⟨String.ofList p, behind, rfl, fun hmem => ?_, ?_, rfl⟩
      · rw [String.toList_ofList] at hmem
        simpa using hp '"' hmem
      · rw [htext, inQuotes_append, String.toList_ofList]
    · cases h
  · cases h
    exact .inl ⟨rfl, rfl⟩

theorem dropSeparator_cases (list : List Char) :
    (∃ sep rest, (sep = ';' ∨ sep = ',') ∧ list = sep :: rest ∧ dropSeparator list = rest) ∨
      (∀ c ∈ list.head?, c ≠ ';' ∧ c ≠ ',') ∧ dropSeparator list = list := by
  by_cases h : ∀ c ∈ list.head?, c ≠ ';' ∧ c ≠ ','
  · exact .inr ⟨h, dropSeparator_of_ne h⟩
  · left
    cases list with
    | nil => exact absurd nofun h
    | cons c rest =>
      have hc : c = ';' ∨ c = ',' := by
        by_contra hne
        refine h fun d hd => ?_
        cases hd
        exact not_or.mp hne
      refine ⟨c, rest, hc, rfl, ?_⟩
      rcases hc with rfl | rfl <;> rfl

/-- An INPUT list is its prompt and the texts between its commas, of which those that are not blank
are targets. -/
theorem readInputList_eq_ok : readInputList text = .ok (prompt, targets) ↔
    ∃ list, Clause.readPrompt text = .ok (prompt, list) ∧
      Spell (nonblanks (Text.splitOutsideBrackets ',' list)) targets ∧ targets ≠ [] := by
  rw [readInputList, bind_eq_ok]
  constructor
  · rintro ⟨⟨prompt', list⟩, hprompt, h⟩
    obtain ⟨targets', htargets, h⟩ := bind_eq_ok.mp h
    split at h
    · cases h
    · rename_i hne
      cases h
      exact ⟨list, hprompt, mapM_eq_ok.mp htargets, by simpa using hne⟩
  · rintro ⟨list, hprompt, htargets, hne⟩
    refine ⟨(prompt, list), hprompt, bind_eq_ok.mpr ⟨targets, mapM_eq_ok.mpr htargets, ?_⟩⟩
    rw [if_neg (by simpa using hne)]

/-- Behind an opening, the targets of a list are read, and its gaps are skipped. -/
theorem Opening.readInputList (h : Opening prompt front)
    (htext : trimStart text = front ++ commas us) (hus : Spell (nonblanks us) targets)
    (hne : targets ≠ []) : readInputList text = .ok (prompt, targets) := by
  refine readInputList_eq_ok.mpr ⟨commas us, h.readPrompt htext hus.head?_commas, ?_, hne⟩
  rwa [hus.split_commas hne]

theorem Follows.readInputList (h : Follows text prompt targets) :
    readInputList text = .ok (prompt, targets) := by
  obtain ⟨front, us, htext, hfront, hne, hus⟩ := h
  refine hfront.readInputList htext (by rwa [hus.nonblanks_eq]) ?_
  rintro rfl
  cases hus
  contradiction

theorem Lax.readInputList (h : Lax text prompt targets) :
    readInputList text = .ok (prompt, targets) := by
  cases h with
  | gap htext hfront _ hus hne => exact hfront.readInputList htext hus hne
  | @unseparated p _ ws us htext hp hws hlist hus hne =>
    have hrest : dropSeparator (trimStart (ws ++ commas us)) = commas us := by
      rw [trimStart_blanks_append hws fun c hc => (hlist c hc).1]
      exact dropSeparator_of_ne fun c hc => (hlist c hc).2
    refine readInputList_eq_ok.mpr ⟨commas us, by rw [readPrompt_quoted hp htext, hrest], ?_, hne⟩
    rwa [hus.split_commas hne]

/-- A list behind an opening follows the grammar or has a gap. -/
theorem Opening.follows_or_lax (h : Opening prompt front) (htext : trimStart text = front ++ list)
    (hus : Spell (nonblanks (Text.splitOutsideBrackets ',' list)) targets) (hne : targets ≠ []) :
    Follows text prompt targets ∨ Lax text prompt targets := by
  rw [← Text.commas_splitOutsideBrackets list] at htext
  generalize Text.splitOutsideBrackets ',' list = us at htext hus
  by_cases hgap : ∃ u ∈ us, allBlank u = true
  · exact .inr (.gap htext h hgap hus hne)
  · have hall : nonblanks us = us :=
      List.filter_eq_self.mpr fun u hu => by simpa using fun hblank => hgap ⟨u, hu, hblank⟩
    rw [hall] at hus
    refine .inl ⟨front, us, htext, h, ?_, hus⟩
    rintro rfl
    cases hus
    contradiction

theorem follows_or_lax (h : readInputList text = .ok (prompt, targets)) :
    Follows text prompt targets ∨ Lax text prompt targets := by
  obtain ⟨list, hprompt, hus, hne⟩ := readInputList_eq_ok.mp h
  rcases readPrompt_cases hprompt with ⟨rfl, htext⟩ | ⟨p, behind, rfl, hp, htext, rfl⟩
  · exact Opening.bare.follows_or_lax htext hus hne
  · obtain ⟨ws, hws, hbehind⟩ := Text.exists_trimStart behind
    rcases dropSeparator_cases (trimStart behind) with
      ⟨sep, rest, hsep, hrest, hdrop⟩ | ⟨hsep, hdrop⟩
    · rw [hdrop] at hus
      refine (Opening.prompt hp hws hsep).follows_or_lax ?_ hus hne
      rw [htext, hbehind, hrest]
      simp
    · rw [hdrop] at hus
      have hcommas := Text.commas_splitOutsideBrackets (trimStart behind)
      refine .inr (.unseparated ?_ hp hws (fun c hc => ?_) hus hne)
      · rw [hcommas, ← hbehind, htext]
      · rw [hcommas] at hc
        exact ⟨Text.head?_trimStart behind c hc, hsep c hc⟩

/-- No text follows the grammar in one way and departs from it in another. -/
theorem Lax.not_follows (h : Lax text prompt targets) (prompt' : Option String)
    (targets' : List Target) : ¬ Follows text prompt' targets' := by
  rintro ⟨front', us', htext', hfront', hne', hus'⟩
  have hus'' : Spell (nonblanks us') targets' := by rwa [hus'.nonblanks_eq]
  have htargets' : targets' ≠ [] := by
    rintro rfl
    cases hus'
    contradiction
  cases h with
  | @gap _ _ front us htext hfront hgap hus hne =>
    have hlist : commas us = commas us' := by
      have hprompt := hfront.readPrompt htext hus.head?_commas
      rw [hfront'.readPrompt htext' hus''.head?_commas] at hprompt
      exact (Prod.mk.inj (Except.ok.inj hprompt)).2.symm
    obtain rfl : us = us' := by
      rw [← hus.split_commas hne, hlist, hus''.split_commas htargets']
    obtain ⟨u, hu, hblank⟩ := hgap
    obtain ⟨t, -, ht⟩ := forall₂_left hus' hu
    exact not_allBlank_of_readTarget ht hblank
  | @unseparated p _ ws us htext hp hws hlist hus hne =>
    rw [htext] at htext'
    cases hfront' with
    | bare =>
      refine hus''.head?_commas ?_
      rw [← List.nil_append (commas us'), ← htext']
      rfl
    | @prompt p' ws' sep hp' hws' hsep' =>
      have hbehind : ws ++ commas us = ws' ++ sep :: commas us' := by
        refine (inQuotes_append_inj hp hp' ?_).2
        simpa using htext'
      have hstart : commas us = sep :: commas us' := by
        rw [← trimStart_blanks_append hws fun c hc => (hlist c hc).1, hbehind]
        refine trimStart_blanks_append hws' ?_
        rintro c ⟨⟩
        rcases hsep' with rfl | rfl <;> rfl
      obtain ⟨-, hsemicolon, hcomma⟩ := hlist sep (by rw [hstart]; rfl)
      exact hsep'.elim hsemicolon hcomma

end

/-- **The lists that INPUT takes.** A text is taken for an INPUT list with a prompt and targets
exactly if it follows the grammar, in which case these are the prompt and the targets that are
written, one by one and in their order, or if it would but for blank places in the list or for a
missing separator behind the prompt. No text does both. -/
theorem readInputList_iff (text : List Char) (prompt : Option String) (targets : List Target) :
    (readInputList text = .ok (prompt, targets) ↔
        Follows text prompt targets ∨ Lax text prompt targets) ∧
      (Lax text prompt targets → ∀ prompt' targets', ¬ Follows text prompt' targets') :=
  ⟨⟨follows_or_lax, fun h => h.elim Follows.readInputList Lax.readInputList⟩, Lax.not_follows⟩

/-- A comma too many, and no separator behind the prompt. -/
theorem readInputList_iff_untidy :
    Lax "\"N\" A,,B$".toList (some "N") [.scalar "A", .scalar "B$"] ∧
      readInputList "\"N\" A,,B$".toList = .ok (some "N", [.scalar "A", .scalar "B$"]) ∧
      ¬ ∃ prompt targets, Follows "\"N\" A,,B$".toList prompt targets := by
  have hus : Spell (nonblanks ["A".toList, [], "B$".toList]) [.scalar "A", .scalar "B$"] :=
    .cons rfl (.cons rfl .nil)
  have hlax : Lax "\"N\" A,,B$".toList (some "N") [.scalar "A", .scalar "B$"] :=
    @Lax.unseparated _ "N" _ [' '] _ rfl (by decide) rfl (by rintro c ⟨⟩; decide) hus (by simp)
  obtain ⟨hread, hnot⟩ :=
    readInputList_iff "\"N\" A,,B$".toList (some "N") [.scalar "A", .scalar "B$"]
  exact ⟨hlax, hread.mpr (.inr hlax), fun ⟨prompt, targets, h⟩ => hnot hlax prompt targets h⟩

end Clause

end ClassicBasic
