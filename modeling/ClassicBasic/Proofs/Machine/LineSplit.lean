import ClassicBasic.Proofs.Machine.Stepping

/-!
# Cutting a line in two

A line with several statements can be cut in two: the first ones stay, the others become a line of
their own behind it. `LineSplit` is a program with such a cut; `whole` is the program before it and
`parts` the program after it. The number of the new line must be one that nothing refers to, and
none of the statements that stay may be an inline IF, since its branches take the place of the rest
of the line.

`At` says which places of the two programs correspond. Places in other lines stay where they are or
move one line down, and a place behind the last statement that stays is also one before the first
statement that moves. Where a run goes on, the two programs stand at corresponding places again,
before the same statement (`At.settle`, `Stands.statement_eq`).
-/

namespace ClassicBasic

/-! ## The lines that jumps lead to -/

mutual

/-- The numbers that the jumps of a statement lead to, those in the branches of an IF included. -/
def Statement.lineNumbers : Statement → List Nat
  | .gosub line | .goto line | .ifLine _ line => [line]
  | .ifElseLine _ line elseLine => [line, elseLine]
  | .ifThen _ block => blockLineNumbers block
  | .ifElse _ block elseBlock => blockLineNumbers block ++ blockLineNumbers elseBlock
  | .onGosub _ lines | .onGoto _ lines => lines
  | _ => []

def blockLineNumbers : Block → List Nat
  | [] => []
  | st :: rest => st.lineNumbers ++ blockLineNumbers rest

end

theorem blockLineNumbers_eq (b : Block) : blockLineNumbers b = b.flatMap Statement.lineNumbers := by
  induction b with
  | nil => rfl
  | cons st rest ih => rw [blockLineNumbers, ih, List.flatMap_cons]

theorem Statement.mem_lineNumbers_of_branch {st : Statement} {b : Block} {n : Nat}
    (hb : b ∈ st.branches) (hn : n ∈ blockLineNumbers b) : n ∈ st.lineNumbers := by
  cases st with
  | ifThen condition block =>
    obtain rfl := List.mem_singleton.mp hb
    exact hn
  | ifElse condition block elseBlock =>
    rw [lineNumbers, List.mem_append]
    rcases List.mem_cons.mp hb with rfl | hb
    · exact .inl hn
    · obtain rfl := List.mem_singleton.mp hb
      exact .inr hn
  | _ => cases hb

/-- The branches of the IFs in a line, and those inside them. -/
inductive Line.HasBranch (line : Line) : Block → Prop
  | own {st : Statement} {b : Block} : st ∈ line.block → b ∈ st.branches → HasBranch line b
  | inner {b b' : Block} {st : Statement} : HasBranch line b → st ∈ b → b' ∈ st.branches →
      HasBranch line b'

/-! ## Cut lines -/

/-- A program one of whose lines is cut in two. -/
structure LineSplit where
  /-- The lines before the one that is cut. -/
  before : List Line
  line : Line
  after : List Line
  first : Line
  second : Line
  block : line.block = first.block ++ second.block
  number : first.number = line.number
  first_ne_nil : first.block ≠ []
  second_ne_nil : second.block ≠ []
  no_inlineIf : ∀ st ∈ first.block, st.isInlineIf = false
  /-- No line has the number of the second part. -/
  no_line : ∀ l ∈ before ++ line :: after, l.number ≠ second.number
  /-- No jump leads to the number of the second part. -/
  no_jump : ∀ l ∈ before ++ line :: after, second.number ∉ blockLineNumbers l.block

namespace LineSplit

variable (d : LineSplit)

def whole : Program := ⟨d.before ++ d.line :: d.after⟩

def parts : Program := ⟨d.before ++ d.first :: d.second :: d.after⟩

/-- The place of the line that is cut. -/
def place : Nat := d.before.length

/-- The place among the parts of the line at place `i` of the whole; for the line that is cut, that
of its first part. -/
def shift (i : Nat) : Nat := if i ≤ d.place then i else i + 1

theorem shift_of_le {i : Nat} (h : i ≤ d.place) : d.shift i = i := if_pos h

theorem shift_of_lt {i : Nat} (h : d.place < i) : d.shift i = i + 1 := if_neg (by omega)

theorem whole_place : d.whole.lines[d.place]? = some d.line := by
  simp [whole, place]

theorem parts_place : d.parts.lines[d.place]? = some d.first := by
  simp [parts, place]

theorem parts_place_succ : d.parts.lines[d.place + 1]? = some d.second := by
  simp [parts, place]

theorem length_parts : d.parts.lines.length = d.whole.lines.length + 1 := by
  simp only [parts, whole, List.length_append, List.length_cons]
  omega

theorem place_lt : d.place < d.whole.lines.length := by
  simp only [whole, place, List.length_append, List.length_cons]
  omega

/-- All other lines are the same. -/
theorem parts_shift {i : Nat} (h : i ≠ d.place) :
    d.parts.lines[d.shift i]? = d.whole.lines[i]? := by
  rcases Nat.lt_or_gt_of_ne h with h | h
  · have hi : i < d.before.length := h
    rw [d.shift_of_le (Nat.le_of_lt h)]
    simp only [parts, whole, List.getElem?_append_left hi]
  · obtain ⟨k, rfl⟩ := Nat.exists_eq_add_of_lt h
    rw [d.shift_of_lt h]
    have hparts : d.place + k + 1 + 1 = d.before.length + (k + 2) := by
      simp only [place]; omega
    have hwhole : d.place + k + 1 = d.before.length + (k + 1) := by
      simp only [place]; omega
    simp only [parts, whole, hparts]
    rw [hwhole, List.getElem?_append_right (by omega), List.getElem?_append_right (by omega)]
    simp

theorem lineStart_shift {i : Nat} (h : i ≠ d.place) :
    d.parts.lineStart (d.shift i) = { d.whole.lineStart i with line := d.shift i } := by
  unfold Program.lineStart
  rw [d.parts_shift h]

/-- The first line with a number is the same. -/
theorem findLine?_parts {number : Nat} (h : number ≠ d.second.number) :
    d.parts.findLine? number = (d.whole.findLine? number).map d.shift := by
  have hsecond : (d.second.number == number) = false := by simpa using h.symm
  have hbefore {i : Nat} (hi : d.before.findIdx? (fun l => l.number == number) = some i) :
      i < d.before.length := (List.findIdx?_eq_some_iff_getElem.mp hi).1
  simp only [Program.findLine?, parts, whole, List.findIdx?_append, List.findIdx?_cons, d.number,
    hsecond]
  cases hi : d.before.findIdx? fun l => l.number == number with
  | some i =>
    have hi' := hbefore hi
    simp [shift, place, Nat.le_of_lt hi']
  | none =>
    cases hline : d.line.number == number with
    | true => simp [shift, place]
    | false =>
      simp only [Bool.false_eq_true, if_false, Option.none_or, Option.map_map]
      congr 1
      funext i
      have hlt : d.place < i + 1 + d.before.length := by
        simp only [place]
        omega
      show i + 1 + 1 + d.before.length = d.shift (i + 1 + d.before.length)
      rw [d.shift_of_lt hlt]
      omega

theorem isEmpty_eq_false {l : Line} (h : l.block ≠ []) : l.block.isEmpty = false := by
  simpa using h

theorem takeWhile_append_cons {α : Type} {p : α → Bool} {x : α} (hx : p x = false)
    (xs ys : List α) : (xs ++ x :: ys).takeWhile p = xs.takeWhile p := by
  induction xs with
  | nil => simp [hx]
  | cons a xs ih => cases ha : p a <;> simp [ha, ih]

/-- Lines without statements are skipped in the same way; neither the line nor its parts are. -/
theorem skipEmpty_shift (i : Nat) :
    d.parts.skipEmpty (d.shift i) = d.shift (d.whole.skipEmpty i) := by
  have hfirst : d.first.block.isEmpty = false := isEmpty_eq_false d.first_ne_nil
  have hline : d.line.block.isEmpty = false := by
    simp [d.block, d.first_ne_nil]
  unfold Program.skipEmpty
  by_cases hi : i ≤ d.place
  · rw [d.shift_of_le hi]
    simp only [parts, whole, List.drop_append_of_le_length (show i ≤ d.before.length from hi),
      takeWhile_append_cons (p := fun l : Line => l.block.isEmpty) hfirst,
      takeWhile_append_cons (p := fun l : Line => l.block.isEmpty) hline]
    have hle : ((d.before.drop i).takeWhile fun l => l.block.isEmpty).length ≤
        (d.before.drop i).length := (List.takeWhile_prefix _).length_le
    rw [List.length_drop] at hle
    rw [d.shift_of_le]
    simp only [place] at hi ⊢
    omega
  · obtain ⟨k, rfl⟩ := Nat.exists_eq_add_of_lt (Nat.lt_of_not_le hi)
    rw [d.shift_of_lt (by omega), d.shift_of_lt (by omega)]
    have hparts : d.parts.lines.drop (d.place + k + 1 + 1) = d.after.drop k := by
      simp [parts, place, List.drop_append, Nat.add_assoc]
    have hwhole : d.whole.lines.drop (d.place + k + 1) = d.after.drop k := by
      simp [whole, place, List.drop_append, Nat.add_assoc]
    rw [hparts, hwhole]
    omega

theorem skipEmpty_second : d.parts.skipEmpty (d.place + 1) = d.place + 1 := by
  have hsecond : d.second.block.isEmpty = false := isEmpty_eq_false d.second_ne_nil
  have hdrop : d.parts.lines.drop (d.place + 1) = d.second :: d.after := by
    simp [parts, place, List.drop_append]
  unfold Program.skipEmpty
  rw [hdrop]
  simp [hsecond]

/-! ## Places that correspond -/

/-- The places of the whole and of the parts that correspond. A place behind the last statement of
the first part corresponds to that before the first statement of the second as well. -/
inductive At : Position → Position → Prop
  | before {q : Position} : q.line < d.place → d.second.number ∉ blockLineNumbers q.block → At q q
  | first {k : Nat} : k ≤ d.first.block.length →
      At ⟨d.place, d.line.block, k⟩ ⟨d.place, d.first.block, k⟩
  | second (k : Nat) :
      At ⟨d.place, d.line.block, d.first.block.length + k⟩ ⟨d.place + 1, d.second.block, k⟩
  | branch {b : Block} (k : Nat) : d.second.HasBranch b → At ⟨d.place, b, k⟩ ⟨d.place + 1, b, k⟩
  | after {q : Position} : d.place < q.line → d.second.number ∉ blockLineNumbers q.block →
      At q { q with line := q.line + 1 }

variable {d} {q q' : Position} {st : Statement}

theorem not_mem_lineNumbers {b : Block} (h : d.second.number ∉ blockLineNumbers b) (hst : st ∈ b) :
    d.second.number ∉ st.lineNumbers := by
  rw [blockLineNumbers_eq] at h
  exact fun hn => h (List.mem_flatMap.mpr ⟨st, hst, hn⟩)

theorem not_mem_line : d.second.number ∉ blockLineNumbers d.line.block :=
  d.no_jump d.line (by simp)

theorem not_mem_branch {b : Block} (h : d.second.HasBranch b) :
    d.second.number ∉ blockLineNumbers b := by
  induction h with
  | own hst hb =>
    have hline := d.block ▸ List.mem_append_right d.first.block hst
    exact fun hn => not_mem_lineNumbers not_mem_line hline (Statement.mem_lineNumbers_of_branch hb hn)
  | inner _ hst hb ih =>
    exact fun hn => not_mem_lineNumbers ih hst (Statement.mem_lineNumbers_of_branch hb hn)

namespace At

/-- No statement at a place that corresponds to one leads to the second part. -/
theorem not_mem (h : d.At q q') (hst : st ∈ q.block) : d.second.number ∉ st.lineNumbers := by
  cases h with
  | before _ hb | after _ hb => exact not_mem_lineNumbers hb hst
  | first _ | second _ => exact not_mem_lineNumbers not_mem_line hst
  | branch _ hb => exact not_mem_lineNumbers (not_mem_branch hb) hst

theorem lineStart (i : Nat) : d.At (d.whole.lineStart i) (d.parts.lineStart (d.shift i)) := by
  by_cases hi : i = d.place
  · subst hi
    rw [d.shift_of_le (Nat.le_refl _)]
    have hwhole : d.whole.lineStart d.place = ⟨d.place, d.line.block, 0⟩ := by
      simp [Program.lineStart, d.whole_place]
    have hparts : d.parts.lineStart d.place = ⟨d.place, d.first.block, 0⟩ := by
      simp [Program.lineStart, d.parts_place]
    rw [hwhole, hparts]
    exact .first (Nat.zero_le _)
  · rw [d.lineStart_shift hi]
    have hjump : d.second.number ∉ blockLineNumbers (d.whole.lineStart i).block := by
      unfold Program.lineStart
      cases hline : d.whole.lines[i]? with
      | none => simp [blockLineNumbers]
      | some l => exact d.no_jump l (List.mem_of_getElem? hline)
    rcases Nat.lt_or_gt_of_ne hi with hi | hi
    · rw [d.shift_of_le (Nat.le_of_lt hi)]
      exact .before hi hjump
    · rw [d.shift_of_lt hi]
      exact .after hi hjump

theorem next (h : d.At q q') (hst : q'.block[q'.index]? = some st) : d.At q.next q'.next := by
  cases h with
  | before hq hb => exact .before hq hb
  | @first k _ =>
    have hk : k < d.first.block.length := (List.getElem?_eq_some_iff.mp hst).1
    exact .first hk
  | second k => exact .second (k + 1)
  | branch k hb => exact .branch (k + 1) hb
  | after hq hb => exact .after hq hb

theorem enter (h : d.At q q') (hst : q'.block[q'.index]? = some st) {b : Block}
    (hb : b ∈ st.branches) : d.At (q.enter b) (q'.enter b) := by
  have hmem := List.mem_of_getElem? hst
  have hjump {a : Block} (ha : d.second.number ∉ blockLineNumbers a) (hsta : st ∈ a) :
      d.second.number ∉ blockLineNumbers b :=
    fun hn => not_mem_lineNumbers ha hsta (Statement.mem_lineNumbers_of_branch hb hn)
  cases h with
  | before hq ha => exact .before hq (hjump ha hmem)
  | first _ =>
    have hnone := Statement.isInlineIf_eq_false.mp (d.no_inlineIf st hmem)
    rw [hnone] at hb
    cases hb
  | second _ => exact .branch 0 (.own hmem hb)
  | branch _ ha => exact .branch 0 (.inner ha hmem hb)
  | after hq ha => exact .after hq (hjump ha hmem)

end At

/-! ## Where statements are executed -/

/-- Corresponding places before a statement, or behind the last one of a block, where the first part
is not done. -/
structure Stands (d : LineSplit) (q q' : Position) : Prop where
  places : d.At q q'
  inside : q'.line = d.place → q'.index < d.first.block.length

/-- The lines of the whole and of the parts that the statement at the place `q` of the whole is
in. -/
inductive Holds (d : LineSplit) (q : Position) : Line → Line → Prop
  | elsewhere {line : Line} : q.line ≠ d.place → Holds d q line line
  | first : q.line = d.place → q.block = d.line.block → q.index < d.first.block.length →
      Holds d q d.line d.first
  | second : q.line = d.place →
      q.block = d.line.block ∧ d.first.block.length ≤ q.index ∨ d.second.HasBranch q.block →
      Holds d q d.line d.second

namespace Stands

theorem lineStart (i : Nat) : d.Stands (d.whole.lineStart i) (d.parts.lineStart (d.shift i)) :=
  ⟨.lineStart i, fun _ => List.length_pos_iff.mpr d.first_ne_nil⟩

/-- The same statement is executed. -/
theorem statement_eq (h : d.Stands q q') : q'.block[q'.index]? = q.block[q.index]? := by
  obtain ⟨hat, hinside⟩ := h
  cases hat with
  | before _ _ | branch _ _ | after _ _ => rfl
  | first _ =>
    show d.first.block[_]? = d.line.block[_]?
    rw [d.block, List.getElem?_append_left (hinside rfl)]
  | second k =>
    show d.second.block[k]? = d.line.block[d.first.block.length + k]?
    rw [d.block, List.getElem?_append_right (Nat.le_add_right _ _), Nat.add_sub_cancel_left]

theorem lines (h : d.Stands q q') :
    Option.Rel (d.Holds q) d.whole.lines[q.line]? d.parts.lines[q'.line]? := by
  obtain ⟨hat, hinside⟩ := h
  have helsewhere (hne : q.line ≠ d.place) :
      Option.Rel (d.Holds q) d.whole.lines[q.line]? d.parts.lines[d.shift q.line]? := by
    rw [d.parts_shift hne]
    cases d.whole.lines[q.line]? with
    | none => exact .none
    | some line => exact .some (.elsewhere hne)
  cases hat with
  | before hq _ =>
    have hrel := helsewhere (Nat.ne_of_lt hq)
    rw [d.shift_of_le (Nat.le_of_lt hq)] at hrel
    exact hrel
  | first _ =>
    rw [d.whole_place, d.parts_place]
    exact .some (.first rfl rfl (hinside rfl))
  | second k =>
    rw [d.whole_place, d.parts_place_succ]
    exact .some (.second rfl (.inl ⟨rfl, Nat.le_add_right _ _⟩))
  | branch k hb =>
    rw [d.whole_place, d.parts_place_succ]
    exact .some (.second rfl (.inr hb))
  | after hq _ =>
    have hrel := helsewhere (Nat.ne_of_gt hq)
    rw [d.shift_of_lt hq] at hrel
    exact hrel

end Stands

/-- Outside the first part, both go on with the next line or both do not. -/
theorem At.settle_of_iff (h : d.At q q') (hline : q'.line + 1 = d.shift (q.line + 1))
    (hiff : (d.parts.lines.length ≤ q'.line ∨ q'.index < q'.block.length) ↔
      (d.whole.lines.length ≤ q.line ∨ q.index < q.block.length))
    (hother : q'.line ≠ d.place) : d.Stands (d.whole.settle q) (d.parts.settle q') := by
  unfold Program.settle
  by_cases hstay : d.whole.lines.length ≤ q.line ∨ q.index < q.block.length
  · rw [if_pos hstay, if_pos (hiff.mpr hstay)]
    exact ⟨h, fun hplace => absurd hplace hother⟩
  · rw [if_neg hstay, if_neg (fun hstay' => hstay (hiff.mp hstay')), hline, d.skipEmpty_shift]
    exact .lineStart _

theorem At.settle (h : d.At q q') : d.Stands (d.whole.settle q) (d.parts.settle q') := by
  have hlength := d.length_parts
  have hplace := d.place_lt
  have hblock : d.line.block.length = d.first.block.length + d.second.block.length := by
    rw [d.block, List.length_append]
  cases h with
  | before hq hb =>
    refine settle_of_iff (.before hq hb) (d.shift_of_le hq).symm ?_ (Nat.ne_of_lt hq)
    omega
  | @first k hk =>
    have hsecond : 0 < d.second.block.length := List.length_pos_iff.mpr d.second_ne_nil
    have hwhole : d.whole.settle ⟨d.place, d.line.block, k⟩ = ⟨d.place, d.line.block, k⟩ :=
      if_pos (.inr (show k < d.line.block.length by omega))
    rw [hwhole]
    rcases Nat.lt_or_eq_of_le hk with hk | rfl
    · have hparts : d.parts.settle ⟨d.place, d.first.block, k⟩ = ⟨d.place, d.first.block, k⟩ :=
        if_pos (.inr hk)
      rw [hparts]
      exact ⟨.first (Nat.le_of_lt hk), fun _ => hk⟩
    · -- The first part is done, and the second has a statement.
      have hparts : d.parts.settle ⟨d.place, d.first.block, d.first.block.length⟩ =
          ⟨d.place + 1, d.second.block, 0⟩ := by
        unfold Program.settle
        rw [if_neg (by simp only [not_or, not_le, not_lt]; omega)]
        simp only [d.skipEmpty_second, Program.lineStart, d.parts_place_succ]
        rfl
      rw [hparts]
      exact ⟨.second 0, fun h => absurd h (Nat.succ_ne_self _)⟩
  | second k =>
    refine settle_of_iff (.second k) (d.shift_of_lt (Nat.lt_succ_self _)).symm ?_
      (Nat.succ_ne_self _)
    simp only
    omega
  | branch k hb =>
    refine settle_of_iff (.branch k hb) (d.shift_of_lt (Nat.lt_succ_self _)).symm ?_
      (Nat.succ_ne_self _)
    simp only
    omega
  | after hq hb =>
    refine settle_of_iff (.after hq hb) (d.shift_of_lt (Nat.lt_succ_of_lt hq)).symm ?_ ?_
    · simp only
      omega
    · simp only
      omega

end LineSplit

end ClassicBasic
