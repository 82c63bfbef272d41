import ClassicBasic.Grid
import Mathlib.Algebra.BigOperators.Group.List.Basic

/-!
# Elements of grids

An element holds what was last put there. The place of an element is computed from its coordinates
row by row: within the sizes this gives a place of its own to all coordinates (`offset_inj`), and
one inside the grid (`offset_lt`), so that what is put there is found again (`get_set_self`) and
nothing else is lost (`get_set_of_ne`). Which coordinates there are only depends on the sizes.
-/

namespace ClassicBasic

namespace Grid

/-! ## Places -/

section
variable {dim dim' o o' i : Nat} {sizes cs cs' : List Nat}

/-- The places below those of the coordinates so far are taken by smaller ones: a place divided by
the product of the sizes still to come gives back what came before. -/
theorem offsetFrom_bounds (hlen : cs.length = sizes.length)
    (h : offsetFrom dim o sizes cs = .ok i) : o * sizes.prod ≤ i ∧ i < (o + 1) * sizes.prod := by
  induction sizes generalizing dim o cs with
  | nil =>
    obtain rfl := List.length_eq_zero_iff.mp hlen
    cases h
    simp
  | cons size sizes ih =>
    obtain ⟨c, cs, rfl⟩ := List.exists_cons_of_length_eq_add_one hlen
    rw [offsetFrom] at h
    split at h
    · rename_i hc
      obtain ⟨hlow, hhigh⟩ := ih (Nat.succ.inj hlen) h
      rw [List.prod_cons]
      constructor
      · calc o * (size * sizes.prod) = o * size * sizes.prod := (Nat.mul_assoc ..).symm
          _ ≤ (o * size + c) * sizes.prod := Nat.mul_le_mul_right _ (Nat.le_add_right ..)
          _ ≤ i := hlow
      · have hnext : o * size + c + 1 ≤ (o + 1) * size := by
          rw [Nat.succ_mul]
          omega
        calc i < (o * size + c + 1) * sizes.prod := hhigh
          _ ≤ (o + 1) * size * sizes.prod := Nat.mul_le_mul_right _ hnext
          _ = (o + 1) * (size * sizes.prod) := Nat.mul_assoc ..
    · cases h

/-- Different coordinates have different places. -/
theorem offsetFrom_inj (hlen : cs.length = sizes.length) (hlen' : cs'.length = sizes.length)
    (h : offsetFrom dim o sizes cs = .ok i) (h' : offsetFrom dim' o' sizes cs' = .ok i) :
    o = o' ∧ cs = cs' := by
  induction sizes generalizing dim dim' o o' cs cs' with
  | nil =>
    obtain rfl := List.length_eq_zero_iff.mp hlen
    obtain rfl := List.length_eq_zero_iff.mp hlen'
    cases h
    cases h'
    exact ⟨rfl, rfl⟩
  | cons size sizes ih =>
    obtain ⟨c, cs, rfl⟩ := List.exists_cons_of_length_eq_add_one hlen
    obtain ⟨c', cs', rfl⟩ := List.exists_cons_of_length_eq_add_one hlen'
    rw [offsetFrom] at h h'
    split at h
    · rename_i hc
      split at h'
      · rename_i hc'
        obtain ⟨ho, rfl⟩ := ih (Nat.succ.inj hlen) (Nat.succ.inj hlen') h h'
        -- What stands in this dimension is the remainder, and what came before the quotient.
        have hrem : c = c' := by
          have hmod := congrArg (· % size) ho
          simpa [Nat.mul_comm _ size, Nat.mul_add_mod, Nat.mod_eq_of_lt, hc, hc'] using hmod
        subst hrem
        refine ⟨?_, rfl⟩
        exact Nat.eq_of_mul_eq_mul_right (by omega) (Nat.add_right_cancel ho)
      · cases h'
    · cases h

end

variable {g g' : Grid} {kind : Kind} {sizes cs cs' : List Nat} {v : Value} {i j : Nat}

theorem offset_ok (h : g.offset cs = .ok i) :
    cs.length = g.sizes.length ∧ offsetFrom 1 0 g.sizes cs = .ok i := by
  unfold offset at h
  split at h
  · rename_i hlen
    exact ⟨by simpa using hlen, h⟩
  · cases h

theorem offset_inj (h : g.offset cs = .ok i) (h' : g.offset cs' = .ok i) : cs = cs' := by
  obtain ⟨hlen, h⟩ := offset_ok h
  obtain ⟨hlen', h'⟩ := offset_ok h'
  exact (offsetFrom_inj hlen hlen' h h').2

/-! ## Elements -/

/-- There is a cell for each element. -/
def WellFormed (g : Grid) : Prop := g.cells.size = g.sizes.prod

theorem offset_lt (hg : g.WellFormed) (h : g.offset cs = .ok i) : i < g.cells.size := by
  obtain ⟨hlen, h⟩ := offset_ok h
  rw [hg]
  simpa using (offsetFrom_bounds hlen h).2

theorem cellCount?_eq {product n : Nat} (h : cellCount? product sizes = some n) :
    n = product * sizes.prod := by
  induction sizes generalizing product with
  | nil =>
    cases h
    simp
  | cons size sizes ih =>
    rw [cellCount?] at h
    split at h
    · rw [ih h, List.prod_cons, Nat.mul_assoc]
    · cases h

theorem make_ok (h : make kind sizes = .ok g) :
    g = { kind, sizes, cells := Array.replicate sizes.prod (Value.unset kind) } := by
  unfold make at h
  split at h
  · rename_i n hn
    split at h
    · cases h
      rw [cellCount?_eq hn, Nat.one_mul]
    · cases h
  · cases h

theorem make_wellFormed (h : make kind sizes = .ok g) : g.WellFormed := by
  rw [make_ok h]
  exact Array.size_replicate

theorem set_ok (h : g.set cs v = .ok g') :
    v.kind = g.kind ∧ ∃ i, g.offset cs = .ok i ∧
      g' = { g with cells := g.cells.setIfInBounds i v } := by
  unfold set at h
  split at h
  · rename_i hkind
    cases hi : g.offset cs with
    | error e =>
      rw [hi] at h
      cases h
    | ok i =>
      rw [hi] at h
      cases h
      exact ⟨by simpa using hkind, i, rfl, rfl⟩
  · cases h

theorem WellFormed.set (hg : g.WellFormed) (h : g.set cs v = .ok g') : g'.WellFormed := by
  obtain ⟨-, i, -, rfl⟩ := set_ok h
  exact Array.size_setIfInBounds.trans hg

/-- A new grid holds nothing. -/
theorem get_make (h : make kind sizes = .ok g) (hv : g.get cs = .ok v) : v = Value.unset kind := by
  obtain rfl := make_ok h
  unfold get at hv
  split at hv
  · cases hv
    rw [Array.getD_eq_getD_getElem?, Array.getElem?_replicate]
    split <;> rfl
  · cases hv

theorem get_set_self (hg : g.WellFormed) (h : g.set cs v = .ok g') : g'.get cs = .ok v := by
  obtain ⟨-, i, hi, rfl⟩ := set_ok h
  have hlt := offset_lt hg hi
  have hoffset : ({ g with cells := g.cells.setIfInBounds i v } : Grid).offset cs = .ok i := hi
  simp only [get, hoffset]
  simp [Array.getD_eq_getD_getElem?, hlt]

theorem get_set_of_ne (h : g.set cs v = .ok g') (hne : cs' ≠ cs) : g'.get cs' = g.get cs' := by
  obtain ⟨-, i, hi, rfl⟩ := set_ok h
  have hsame : ({ g with cells := g.cells.setIfInBounds i v } : Grid).offset cs' =
      g.offset cs' := rfl
  simp only [get, hsame]
  cases hj : g.offset cs' with
  | error e => rfl
  | ok j =>
    have hij : i ≠ j := by
      rintro rfl
      exact hne (offset_inj hj hi)
    simp [Array.getD_eq_getD_getElem?, hij]

/-- What can be read can be written, and the other way around. -/
theorem exists_set_iff (hv : v.kind = g.kind) :
    (∃ g', g.set cs v = .ok g') ↔ ∃ u, g.get cs = .ok u := by
  unfold set get
  simp only [hv, beq_self_eq_true, if_true]
  cases g.offset cs <;> simp

end Grid

end ClassicBasic
