import ClassicBasic.Proofs.Machine.Addresses
import Mathlib.Data.Finset.Card

/-!
# The loops under way

FOR gives up an older loop over its variable, and those inside it, before it begins its own; NEXT
only takes loops away from the inside. So no two loops under way are over the same variable, however
a program jumps out of its loops and back into them, and there are never more of them than variables
in FORs of the program.
-/

namespace ClassicBasic

/-! ## The variables of FORs -/

mutual

/-- The variables of the FORs of a statement, those in the branches of an IF included. -/
def Statement.loopVars : Statement → List String
  | .forLoop var _ _ _ => [var]
  | .ifThen _ block => blockLoopVars block
  | .ifElse _ block elseBlock => blockLoopVars block ++ blockLoopVars elseBlock
  | _ => []

/-- The variables of the FORs of a block, in order. -/
def blockLoopVars : Block → List String
  | [] => []
  | statement :: rest => statement.loopVars ++ blockLoopVars rest

end

/-- The variables of all FORs of a program. -/
def Program.loopVars (p : Program) : List String := p.lines.flatMap fun l => blockLoopVars l.block

theorem blockLoopVars_eq (b : Block) : blockLoopVars b = b.flatMap Statement.loopVars := by
  induction b with
  | nil => simp [blockLoopVars]
  | cons st rest ih => simp [blockLoopVars, ih]

theorem Statement.loopVars_of_branch {st : Statement} {b : Block} (h : b ∈ st.branches) :
    blockLoopVars b ⊆ st.loopVars := by
  cases st with
  | ifThen condition block =>
    obtain rfl : b = block := by simpa [branches] using h
    simp [loopVars]
  | ifElse condition block elseBlock =>
    obtain rfl | rfl : b = block ∨ b = elseBlock := by simpa [branches] using h
    · simp [loopVars]
    · simp [loopVars]
  | _ => simp [branches] at h

theorem Line.HasBlock.loopVars_subset {line : Line} {b : Block} (h : line.HasBlock b) :
    blockLoopVars b ⊆ blockLoopVars line.block := by
  induction h with
  | statements => exact List.Subset.refl _
  | @branch b b' st _ hst hb ih =>
    refine List.Subset.trans (fun var hvar => ?_) ih
    rw [blockLoopVars_eq, List.mem_flatMap]
    exact ⟨st, hst, Statement.loopVars_of_branch hb hvar⟩

/-- A loop of the program is over the variable of one of its FORs. -/
theorem Program.IsLoop.var_mem {p : Program} {l : Loop} (h : p.IsLoop l) : l.var ∈ p.loopVars := by
  obtain ⟨line, hline, hblock⟩ := h.place.block
  obtain ⟨first, limit, step, hbehind⟩ := h.begun
  have hst : Statement.forLoop l.var first limit step ∈ l.resume.block := by
    unfold Position.behind? at hbehind
    split at hbehind
    · cases hbehind
    · exact List.mem_of_getElem? hbehind
  have hvar : l.var ∈ blockLoopVars l.resume.block := by
    rw [blockLoopVars_eq, List.mem_flatMap]
    exact ⟨_, hst, by simp [Statement.loopVars]⟩
  unfold Program.loopVars
  rw [List.mem_flatMap]
  exact ⟨line, List.mem_of_getElem? hline, hblock.loopVars_subset hvar⟩

/-! ## No two loops over one variable -/

namespace Machine

/-- Outside the innermost loop over `var` there is no loop over it, if there was only that one. -/
theorem not_mem_outsideLoop {var : String} {loops : List Loop} (h : (loops.map Loop.var).Nodup) :
    var ∉ (outsideLoop var loops).map Loop.var := by
  unfold outsideLoop
  cases hdrop : loops.dropWhile fun l => l.var != var with
  | nil =>
    intro hmem
    obtain ⟨l, hl, hvar⟩ := List.mem_map.mp hmem
    have hne := List.dropWhile_eq_nil_iff.mp hdrop l hl
    simp [hvar] at hne
  | cons l outer =>
    have hvar : l.var = var := by
      have hhead := List.head?_dropWhile_not (fun l : Loop => l.var != var) loops
      simpa [hdrop] using hhead
    have hsuffix : l :: outer <:+ loops := hdrop ▸ List.dropWhile_suffix _
    have hnodup : ((l :: outer).map Loop.var).Nodup := h.sublist (hsuffix.sublist.map _)
    rw [← hvar]
    exact (List.nodup_cons.mp hnodup).1

/-- A step keeps the variables of the loops distinct. -/
theorem step_loops_nodup {p : Program} {m : Machine} (s : Settings)
    (h : (m.loops.map Loop.var).Nodup) : ((m.step p s).machine.loops.map Loop.var).Nodup := by
  obtain hsuffix | ⟨l, hpush⟩ := step_loops p s m
  · exact h.sublist (hsuffix.sublist.map _)
  · rw [hpush]
    refine List.nodup_cons.mpr ⟨not_mem_outsideLoop h, ?_⟩
    exact h.sublist ((outsideLoop_suffix _ _).sublist.map _)

theorem Reachable.loops_nodup {p : Program} {s : Settings} {m : Machine} (h : Reachable p s m) :
    (m.loops.map Loop.var).Nodup := by
  induction h with
  | start random console => exact List.nodup_nil
  | step _ ih => exact step_loops_nodup s ih
  | restart _ ih => exact ih
  | console _ _ ih => exact ih

/-- **The loops under way are over distinct variables**, so there are at most as many as the program
has variables in its FORs. -/
theorem Reachable.loops_bounded {p : Program} {s : Settings} {m : Machine} (h : Reachable p s m) :
    (m.loops.map Loop.var).Nodup ∧ m.loops.length ≤ p.loopVars.toFinset.card := by
  have hnodup := h.loops_nodup
  refine ⟨hnodup, ?_⟩
  have hsubset : (m.loops.map Loop.var).toFinset ⊆ p.loopVars.toFinset := by
    intro var hvar
    rw [List.mem_toFinset] at hvar ⊢
    obtain ⟨l, hl, rfl⟩ := List.mem_map.mp hvar
    exact (h.addressed.loops l hl).var_mem
  calc m.loops.length
    _ = (m.loops.map Loop.var).length := (List.length_map _).symm
    _ = (m.loops.map Loop.var).toFinset.card := (List.toFinset_card_of_nodup hnodup).symm
    _ ≤ p.loopVars.toFinset.card := Finset.card_le_card hsubset

/-- A loop over `I` begun again inside another one. -/
def loopAgain : Program :=
  let one : Expr := ⟨"1", .single (.number 1)⟩
  ⟨[⟨10, 1, "FOR I=1 TO 1:FOR J=1 TO 1:FOR I=1 TO 1",
    [.forLoop "I" one one one, .forLoop "J" one one one, .forLoop "I" one one one]⟩]⟩

/-- The second FOR over `I` leaves neither the first nor the loop over `J`. -/
theorem loops_bounded_loopAgain :
    ∃ m, Reachable loopAgain {} m ∧ m.steps = 3 ∧ m.loops.map Loop.var = ["I"] ∧
      (m.loops.map Loop.var).Nodup ∧ m.loops.length ≤ loopAgain.loopVars.toFinset.card ∧
      loopAgain.loopVars.toFinset.card = 2 := by
  have hm : Reachable loopAgain {} ((((start loopAgain (.ofSeed 0) {}).step loopAgain {}).machine.step
      loopAgain {}).machine.step loopAgain {}).machine :=
    .step (.step (.step (.start (.ofSeed 0) {})))
  obtain ⟨hnodup, hlength⟩ := hm.loops_bounded
  exact ⟨_, hm, rfl, by decide, hnodup, hlength, by decide⟩

end Machine

end ClassicBasic
