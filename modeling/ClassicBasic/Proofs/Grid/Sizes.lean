import ClassicBasic.Proofs.Grid
import Mathlib.Algebra.BigOperators.Ring.List
import Mathlib.Algebra.Ring.Nat

/-!
# Sizes of grids

A grid is made if it has at most `maxCells` elements, and if the product of its sizes, which is
taken from the left, does not leave a word on the way (`make_succeeds_iff`). The second condition
only matters when a size is zero: without one the products grow, and the last of them is bounded
already. A zero brings the product back to nothing, but not before the sizes in front of it were
multiplied, so a grid without elements may be refused for the order of its sizes.
-/

namespace ClassicBasic

namespace Grid

variable {kind : Kind} {sizes before : List Nat}

theorem maxCells_lt_wordLimit : maxCells < wordLimit := by decide

/-- The products on the way are those of the leading sizes. -/
theorem cellCount?_eq_some {product n : Nat} (hproduct : product < wordLimit) :
    cellCount? product sizes = some n ↔
      n = product * sizes.prod ∧
        ∀ before, before <+: sizes → product * before.prod < wordLimit := by
  induction sizes generalizing product with
  | nil => simp [cellCount?, hproduct, eq_comm]
  | cons size sizes ih =>
    rw [cellCount?]
    by_cases hsize : product * size < wordLimit
    · rw [if_pos hsize, ih hsize, List.prod_cons, Nat.mul_assoc]
      refine and_congr_right fun _ => ⟨fun h before hbefore => ?_, fun h before hbefore => ?_⟩
      · rcases List.prefix_cons_iff.mp hbefore with rfl | ⟨rest, rfl, hrest⟩
        · simpa using hproduct
        · rw [List.prod_cons, ← Nat.mul_assoc]
          exact h rest hrest
      · have hcons := h (size :: before) ((List.prefix_cons_inj size).mpr hbefore)
        rwa [List.prod_cons, ← Nat.mul_assoc] at hcons
    · rw [if_neg hsize]
      constructor
      · intro h
        cases h
      · rintro ⟨-, h⟩
        have hfirst := h [size] ((List.prefix_cons_inj size).mpr List.nil_prefix)
        rw [List.prod_singleton] at hfirst
        exact absurd hfirst hsize

theorem make_succeeds_iff : (∃ g, make kind sizes = .ok g) ↔
    sizes.prod ≤ maxCells ∧ ∀ before, before <+: sizes → before.prod < wordLimit := by
  have hcount (n : Nat) : cellCount? 1 sizes = some n ↔
      n = sizes.prod ∧ ∀ before, before <+: sizes → before.prod < wordLimit := by
    rw [cellCount?_eq_some (by decide), Nat.one_mul]
    simp only [Nat.one_mul]
  constructor
  · rintro ⟨g, h⟩
    unfold make at h
    split at h
    · rename_i n hn
      obtain ⟨rfl, hbefore⟩ := (hcount n).mp hn
      split at h
      · exact ⟨‹_›, hbefore⟩
      · cases h
    · cases h
  · rintro ⟨hmax, hbefore⟩
    unfold make
    rw [(hcount sizes.prod).mpr ⟨rfl, hbefore⟩]
    simp only [if_pos hmax]
    exact ⟨_, rfl⟩

/-- Sizes that are multiplied too far before a zero comes. -/
def ZeroTooLate (sizes : List Nat) : Prop :=
  ∃ before after, sizes = before ++ after ∧ wordLimit ≤ before.prod ∧ 0 ∈ after

/-- The product leaves a word only in front of a zero, if it is small in the end. -/
theorem prefix_prod_lt_iff (hmax : sizes.prod ≤ maxCells) :
    (∀ before, before <+: sizes → before.prod < wordLimit) ↔ ¬ ZeroTooLate sizes := by
  constructor
  · rintro h ⟨before, after, rfl, hbefore, -⟩
    exact absurd (h before (List.prefix_append before after)) (Nat.not_lt.mpr hbefore)
  · rintro h before ⟨after, rfl⟩
    by_contra hbefore
    have hbefore : wordLimit ≤ before.prod := Nat.not_lt.mp hbefore
    refine h ⟨before, after, rfl, hbefore, ?_⟩
    by_contra hzero
    have hgrow : before.prod ≤ (before ++ after).prod := by
      rw [List.prod_append]
      exact Nat.le_mul_of_pos_right _ (Nat.pos_of_ne_zero (List.prod_ne_zero hzero))
    have := maxCells_lt_wordLimit
    omega

/-! ## The order of the sizes -/

/-- The sizes that are not zero. -/
def nonzero (sizes : List Nat) : List Nat := sizes.filter (· ≠ 0)

theorem zero_not_mem_nonzero (sizes : List Nat) : 0 ∉ nonzero sizes := by simp [nonzero]

theorem nonzero_eq_self (h : 0 ∉ sizes) : nonzero sizes = sizes :=
  List.filter_eq_self.mpr fun n hn => by simpa using fun h0 : n = 0 => h (h0 ▸ hn)

/-- Leading sizes without a zero multiply to no more than all that are not zero. -/
theorem prod_le_nonzero (hbefore : before <+: sizes) (hzero : 0 ∉ before) :
    before.prod ≤ (nonzero sizes).prod := by
  obtain ⟨after, rfl⟩ := hbefore
  have hsplit : nonzero (before ++ after) = before ++ nonzero after := by
    rw [nonzero, List.filter_append, ← nonzero, ← nonzero, nonzero_eq_self hzero]
  have hpos : 0 < (nonzero after).prod :=
    Nat.pos_of_ne_zero (List.prod_ne_zero (zero_not_mem_nonzero after))
  rw [hsplit, List.prod_append]
  exact Nat.le_mul_of_pos_right _ hpos

/-- A zero in front of all other sizes is never too late. -/
theorem exists_order (sizes : List Nat) :
    ∃ order : List Nat, order.Perm sizes ∧ ¬ ZeroTooLate order := by
  by_cases hzero : 0 ∈ sizes
  · refine ⟨0 :: sizes.erase 0, (List.perm_cons_erase hzero).symm, ?_⟩
    rintro ⟨before, after, heq, hbefore, -⟩
    cases before with
    | nil => exact absurd hbefore (by decide)
    | cons n before =>
      obtain ⟨rfl, -⟩ := List.cons.inj heq
      rw [List.prod_cons, Nat.zero_mul] at hbefore
      exact absurd hbefore (by decide)
  · refine ⟨sizes, .refl _, ?_⟩
    rintro ⟨before, after, rfl, -, hafter⟩
    exact hzero (List.mem_append_right before hafter)

/-- The order does not matter if even all other sizes in front of a zero stay within a word. -/
theorem forall_order_iff (hmax : sizes.prod ≤ maxCells) :
    (∀ order : List Nat, order.Perm sizes → ¬ ZeroTooLate order) ↔
      (nonzero sizes).prod < wordLimit := by
  constructor
  · intro h
    by_contra hlarge
    have hlarge : wordLimit ≤ (nonzero sizes).prod := Nat.not_lt.mp hlarge
    refine h (nonzero sizes ++ sizes.filter fun n => !decide (n ≠ 0))
      (List.filter_append_perm _ sizes) ⟨_, _, rfl, hlarge, ?_⟩
    -- Without a zero the product of all sizes would be too large.
    suffices hzero : 0 ∈ sizes by simpa using hzero
    by_contra hzero
    rw [nonzero_eq_self hzero] at hlarge
    have := maxCells_lt_wordLimit
    omega
  · rintro hsmall order hperm ⟨before, after, rfl, hbefore, -⟩
    by_cases hzero : 0 ∈ before
    · rw [List.prod_eq_zero hzero] at hbefore
      exact absurd hbefore (by decide)
    · have hle := prod_le_nonzero (List.prefix_append before after) hzero
      have hprod : (nonzero (before ++ after)).prod = (nonzero sizes).prod :=
        (hperm.filter _).prod_eq
      omega

/-- **Which sizes a grid can have.** It is made exactly if it has at most `maxCells` elements and no
zero among its sizes comes after some that leave a word when they are multiplied, and then it has as
many elements as the product of its sizes says. Sizes with a small enough product can always be put
into an order in which the grid is made; all their orders will do exactly if those that are not zero
stay within a word. -/
theorem make_by_sizes (kind : Kind) (sizes : List Nat) :
    ((∃ g, make kind sizes = .ok g) ↔ sizes.prod ≤ maxCells ∧ ¬ ZeroTooLate sizes) ∧
    (∀ g, make kind sizes = .ok g → g.cells.size = sizes.prod) ∧
    ((∃ order : List Nat, order.Perm sizes ∧ ∃ g, make kind order = .ok g) ↔
      sizes.prod ≤ maxCells) ∧
    ((∀ order : List Nat, order.Perm sizes → ∃ g, make kind order = .ok g) ↔
      sizes.prod ≤ maxCells ∧ (nonzero sizes).prod < wordLimit) := by
  have hmake (sizes : List Nat) : (∃ g, make kind sizes = .ok g) ↔
      sizes.prod ≤ maxCells ∧ ¬ ZeroTooLate sizes :=
    make_succeeds_iff.trans (and_congr_right prefix_prod_lt_iff)
  refine ⟨hmake sizes, fun g h => ?_, ?_, ?_⟩
  · rw [make_wellFormed h, make_ok h]
  · constructor
    · rintro ⟨order, hperm, h⟩
      rw [← hperm.prod_eq]
      exact ((hmake order).mp h).1
    · intro hmax
      obtain ⟨order, hperm, hlate⟩ := exists_order sizes
      exact ⟨order, hperm, (hmake order).mpr ⟨hperm.prod_eq ▸ hmax, hlate⟩⟩
  · constructor
    · intro h
      have hmax := ((hmake sizes).mp (h sizes (.refl _))).1
      exact ⟨hmax, (forall_order_iff hmax).mp fun order hperm =>
        ((hmake order).mp (h order hperm)).2⟩
    · rintro ⟨hmax, hsmall⟩ order hperm
      exact (hmake order).mpr
        ⟨hperm.prod_eq ▸ hmax, (forall_order_iff hmax).mpr hsmall order hperm⟩

-- A grid without elements is refused, and made with the same sizes in another order.
example (kind : Kind) :
    make kind [twoTo 63, 2, 0] = .error .tooLarge ∧
      make kind [0, twoTo 63, 2] = .ok { kind, sizes := [0, twoTo 63, 2], cells := #[] } :=
  ⟨rfl, rfl⟩

end Grid

end ClassicBasic
