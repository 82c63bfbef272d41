import ClassicBasic.Program
import ClassicBasic.Proofs.Except

/-!
# Programs and their lines

A program is read line by line, and what is said of it is what is said of its lines. Either all of
them can be read (`Program.parseEach_lines`), or the report has one diagnostic for each line that
cannot (`Program.parseEach_faults`), of which it keeps the first twenty (`Report.ofList_kept`) and
counts all (`Report.ofList_total`). `Program.ofLines_by_line` puts these together.
-/

namespace ClassicBasic

/-! ## Reports -/

namespace Report

theorem foldl_add_total (ds : List Diagnostic) (r : Report) :
    (ds.foldl add r).total = r.total + ds.length := by
  induction ds generalizing r with
  | nil => rfl
  | cons d ds ih =>
    have hadd : (r.add d).total = r.total + 1 := rfl
    rw [List.foldl_cons, ih, List.length_cons, hadd]
    omega

/-- Diagnostics are kept up to the capacity, in order. -/
theorem foldl_add_kept (ds : List Diagnostic) {r : Report} (h : r.kept.length ≤ capacity) :
    (ds.foldl add r).kept = (r.kept ++ ds).take capacity := by
  induction ds generalizing r with
  | nil => rw [List.foldl_nil, List.append_nil, List.take_of_length_le h]
  | cons d ds ih =>
    rw [List.foldl_cons]
    by_cases hroom : r.kept.length < capacity
    · have hadd : (r.add d).kept = r.kept ++ [d] := if_pos hroom
      rw [ih (by rw [hadd, List.length_append]; exact hroom), hadd, List.append_assoc]
      rfl
    · -- A full report stays as it is, whatever is added.
      have hfull : r.kept.length = capacity := by omega
      have hadd : (r.add d).kept = r.kept := if_neg hroom
      rw [ih (hadd ▸ h), hadd, List.take_left' hfull, List.take_left' hfull]

theorem ofList_total (ds : List Diagnostic) : (ofList ds).total = ds.length :=
  (foldl_add_total ds {}).trans (Nat.zero_add _)

theorem ofList_kept (ds : List Diagnostic) : (ofList ds).kept = ds.take capacity :=
  foldl_add_kept ds (Nat.zero_le _)

/-- Every diagnostic is either kept or hidden. -/
theorem ofList_hidden (ds : List Diagnostic) :
    (ofList ds).kept.length + (ofList ds).hidden = (ofList ds).total := by
  have hkept : (ofList ds).kept.length ≤ (ofList ds).total := by
    rw [ofList_kept, ofList_total]
    exact List.length_take_le' _ _
  rw [hidden]
  omega

theorem display_eq (r : Report) :
    r.display = "\n".intercalate (r.kept.map Diagnostic.display) ++
      if r.hidden = 0 then "" else "\n... and " ++ toString r.hidden ++ " more" := by
  rw [display]
  cases r.hidden with
  | zero => rfl
  | succ n => rw [if_pos n.succ_pos, if_neg n.succ_ne_zero]

end Report

/-! ## Lines -/

namespace Line

/-- Whether a line cannot be read. -/
def fails (l : SourceLine) : Bool := !(Line.parse l).isOk

/-- `d` is what is said of the line `l`, which cannot be read: it names the line by its number and by
its place in the source, and shows its text without the blanks around it. -/
structure Fault (l : SourceLine) (d : Diagnostic) : Prop where
  parse : Line.parse l = .error d
  location : d.location = some ⟨l.number, l.sourceLine⟩
  sourceText : d.sourceText = String.ofList (Text.trim l.text.toList)

theorem fault_of_error {l : SourceLine} {d : Diagnostic} (h : Line.parse l = .error d) :
    Fault l d := by
  refine ⟨h, ?_, ?_⟩
  all_goals
    unfold Line.parse at h
    split at h
    · cases h
    · cases h
      rfl

theorem fails_of_ok {l : SourceLine} {line : Line} (h : Line.parse l = .ok line) :
    fails l = false := by
  rw [fails, h]
  rfl

theorem fails_of_error {l : SourceLine} {d : Diagnostic} (h : Line.parse l = .error d) :
    fails l = true := by
  rw [fails, h]
  rfl

end Line

namespace Program

variable {source : List SourceLine}

theorem parseEach_cons_ok {l : SourceLine} {line : Line} (h : Line.parse l = .ok line)
    (source : List SourceLine) :
    parseEach (l :: source) = (line :: (parseEach source).1, (parseEach source).2) := by
  simp only [parseEach, h]

theorem parseEach_cons_error {l : SourceLine} {d : Diagnostic} (h : Line.parse l = .error d)
    (source : List SourceLine) :
    parseEach (l :: source) = ((parseEach source).1, d :: (parseEach source).2) := by
  simp only [parseEach, h]

/-- The diagnostics are those of the lines that cannot be read, in order. -/
theorem parseEach_faults (source : List SourceLine) :
    List.Forall₂ Line.Fault (source.filter Line.fails) (parseEach source).2 := by
  induction source with
  | nil => exact .nil
  | cons l source ih =>
    cases hl : Line.parse l with
    | ok line =>
      rw [parseEach_cons_ok hl, List.filter_cons_of_neg (by simp [Line.fails_of_ok hl])]
      exact ih
    | error d =>
      rw [parseEach_cons_error hl, List.filter_cons_of_pos (Line.fails_of_error hl)]
      exact .cons (Line.fault_of_error hl) ih

theorem length_faults (source : List SourceLine) :
    (parseEach source).2.length = source.countP Line.fails := by
  rw [List.countP_eq_length_filter, (parseEach_faults source).length_eq]

/-- Without a fault, the lines are those of the source, one by one. -/
theorem parseEach_lines (h : (parseEach source).2 = []) :
    List.Forall₂ (fun l line => Line.parse l = .ok line) source (parseEach source).1 := by
  induction source with
  | nil => exact .nil
  | cons l source ih =>
    cases hl : Line.parse l with
    | ok line =>
      rw [parseEach_cons_ok hl] at h ⊢
      exact .cons hl (ih h)
    | error d =>
      rw [parseEach_cons_error hl] at h
      cases h

/-- There is no fault if every line can be read. -/
theorem faults_eq_nil (h : ∀ l ∈ source, ∃ line, Line.parse l = .ok line) :
    (parseEach source).2 = [] := by
  rw [← List.length_eq_zero_iff, length_faults, List.countP_eq_zero]
  intro l hl
  obtain ⟨line, hline⟩ := h l hl
  simp [Line.fails_of_ok hline]

theorem ofLines_eq_ok {p : Program} : ofLines source = .ok p ↔
    List.Forall₂ (fun l line => Line.parse l = .ok line) source p.lines := by
  constructor
  · intro h
    simp only [ofLines, List.isEmpty_iff] at h
    split at h
    · cases h
      exact parseEach_lines ‹_›
    · cases h
  · intro h
    have hnil : (parseEach source).2 = [] := faults_eq_nil fun l hl => by
      obtain ⟨line, -, hline⟩ := forall₂_left h hl
      exact ⟨line, hline⟩
    have hlines : (parseEach source).1 = p.lines := by
      refine List.right_unique_forall₂' (fun l a b ha hb => ?_) (parseEach_lines hnil) h
      exact Except.ok.inj (ha.symm.trans hb)
    simp only [ofLines, hnil, hlines, List.isEmpty_nil, if_true]

theorem ofLines_eq_error {r : Report} (h : ofLines source = .error r) :
    r = Report.ofList (parseEach source).2 := by
  simp only [ofLines] at h
  split at h
  · cases h
  · cases h
    rfl

/-- **A program is read line by line.** It is read if and only if each of its lines is, and then it
consists of what they are read as. Otherwise all lines that cannot be read are counted, the first
twenty of them are reported in order, and how many are left out is said behind those. -/
theorem ofLines_by_line (source : List SourceLine) :
    ((∃ p, ofLines source = .ok p) ↔ ∀ l ∈ source, ∃ line, Line.parse l = .ok line) ∧
    (∀ p, ofLines source = .ok p ↔
      List.Forall₂ (fun l line => Line.parse l = .ok line) source p.lines) ∧
    ∀ r, ofLines source = .error r →
      r.total = source.countP Line.fails ∧
      List.Forall₂ Line.Fault ((source.filter Line.fails).take (min 20 r.total)) r.kept ∧
      ∃ hidden, r.kept.length + hidden = r.total ∧
        r.display = "\n".intercalate (r.kept.map Diagnostic.display) ++
          if hidden = 0 then "" else "\n... and " ++ toString hidden ++ " more" := by
  refine ⟨⟨?_, fun h => ?_⟩, fun p => ofLines_eq_ok, fun r hr => ?_⟩
  · rintro ⟨p, hp⟩ l hl
    obtain ⟨line, -, hline⟩ := forall₂_left (ofLines_eq_ok.mp hp) hl
    exact ⟨line, hline⟩
  · exact ⟨⟨(parseEach source).1⟩, ofLines_eq_ok.mpr (parseEach_lines (faults_eq_nil h))⟩
  · obtain rfl := ofLines_eq_error hr
    have htotal := (Report.ofList_total (parseEach source).2).trans (length_faults source)
    refine ⟨htotal, ?_, _, Report.ofList_hidden _, Report.display_eq _⟩
    have hmin : (source.filter Line.fails).take (min 20 (Report.ofList (parseEach source).2).total) =
        (source.filter Line.fails).take Report.capacity := by
      rw [htotal, List.countP_eq_length_filter, ← List.take_eq_take_min]
      rfl
    rw [hmin, Report.ofList_kept]
    exact List.forall₂_take _ (parseEach_faults source)

end Program

end ClassicBasic
