import ClassicBasic.Proofs.Grid.Sizes
import ClassicBasic.Proofs.Machine.Atomicity
import Mathlib.Algebra.BigOperators.Group.Finset.Basic

/-!
# The layout of grids

Coordinates have a place in a grid exactly if there is one for each dimension, below its size. The
place is the sum of each coordinate times the product of the later sizes (`offset_eq_ok`), and the
places of all coordinates are all places of the grid, each of them once.

The place is computed from the left. What there is of it after some dimensions is below the product
of their sizes (`offsetFrom_bounds`), and when the grid was made no such product left a word, so the
computation never does, even if a later size is zero and the grid has no elements at all.
-/

namespace ClassicBasic

namespace Grid

/-! ## Places -/

/-- The sum of each coordinate times the product of the later sizes. -/
def place (sizes cs : List Nat) : Nat :=
  ∑ k ∈ Finset.range cs.length, cs.getD k 0 * (sizes.drop (k + 1)).prod

section
variable {dim o o' i : Nat} {sizes before after cs cs' : List Nat}

theorem place_cons (size c : Nat) (sizes cs : List Nat) :
    place (size :: sizes) (c :: cs) = c * sizes.prod + place sizes cs := by
  unfold place
  rw [List.length_cons, Finset.sum_range_succ', Nat.add_comm]
  simp

/-- Coordinates below the sizes have a place. -/
theorem offsetFrom_of_within (h : List.Forall₂ (· < ·) cs sizes) :
    offsetFrom dim o sizes cs = .ok (o * sizes.prod + place sizes cs) := by
  induction h generalizing dim o with
  | nil => simp [offsetFrom, place]
  | @cons c size cs sizes hc _ ih =>
    rw [offsetFrom, if_pos hc, ih, place_cons, List.prod_cons, Nat.add_mul, Nat.mul_assoc,
      Nat.add_assoc]

theorem within_of_offsetFrom (hlen : cs.length = sizes.length)
    (h : offsetFrom dim o sizes cs = .ok i) : List.Forall₂ (· < ·) cs sizes := by
  induction sizes generalizing dim o cs with
  | nil =>
    obtain rfl := List.length_eq_zero_iff.mp hlen
    exact .nil
  | cons size sizes ih =>
    obtain ⟨c, cs, rfl⟩ := List.exists_cons_of_length_eq_add_one hlen
    rw [offsetFrom] at h
    split at h
    · rename_i hc
      exact .cons hc (ih (Nat.succ.inj hlen) h)
    · cases h

/-- Every place below the product of the sizes is that of some coordinates: the first of them is the
quotient by the product of the later sizes, and the others have the remainder as their place. -/
theorem exists_place (h : i < sizes.prod) :
    ∃ cs, List.Forall₂ (· < ·) cs sizes ∧ place sizes cs = i := by
  induction sizes generalizing i with
  | nil =>
    obtain rfl : i = 0 := by simpa using h
    exact ⟨[], .nil, rfl⟩
  | cons size sizes ih =>
    rw [List.prod_cons] at h
    have hpos : 0 < sizes.prod := Nat.pos_of_mul_pos_left (Nat.zero_lt_of_lt h)
    obtain ⟨cs, hcs, hplace⟩ := ih (Nat.mod_lt i hpos)
    refine ⟨i / sizes.prod :: cs, .cons (Nat.div_lt_of_lt_mul (Nat.mul_comm .. ▸ h)) hcs, ?_⟩
    rw [place_cons, hplace, Nat.div_add_mod']

/-- The computation of a place goes on from what the leading dimensions gave. -/
theorem offsetFrom_append (hlen : cs.length = before.length)
    (h : offsetFrom dim o before cs = .ok o') :
    offsetFrom dim o (before ++ after) (cs ++ cs') =
      offsetFrom (dim + before.length) o' after cs' := by
  induction before generalizing dim o cs with
  | nil =>
    obtain rfl := List.length_eq_zero_iff.mp hlen
    cases h
    rfl
  | cons size before ih =>
    obtain ⟨c, cs, rfl⟩ := List.exists_cons_of_length_eq_add_one hlen
    rw [List.cons_append, List.cons_append, offsetFrom]
    rw [offsetFrom] at h
    split at h
    · rename_i hc
      rw [if_pos hc, ih (Nat.succ.inj hlen) h, List.length_cons, Nat.add_right_comm, Nat.add_assoc]
    · cases h

theorem within_iff : List.Forall₂ (· < ·) cs sizes ↔ cs.length = sizes.length ∧
    ∀ (k : Nat) c size, cs[k]? = some c → sizes[k]? = some size → c < size := by
  rw [List.forall₂_iff_get]
  refine and_congr_right fun hlen => ⟨fun h k c size hc hsize => ?_, fun h k hk hk' => ?_⟩
  · obtain ⟨hk, rfl⟩ := List.getElem?_eq_some_iff.mp hc
    obtain ⟨hk', rfl⟩ := List.getElem?_eq_some_iff.mp hsize
    exact h k hk hk'
  · exact h k _ _ (List.getElem?_eq_getElem hk) (List.getElem?_eq_getElem hk')

end

variable {kind : Kind} {sizes cs : List Nat} {g : Grid} {i : Nat}

theorem offset_eq_ok :
    g.offset cs = .ok i ↔ List.Forall₂ (· < ·) cs g.sizes ∧ i = place g.sizes cs := by
  constructor
  · intro h
    obtain ⟨hlen, h⟩ := offset_ok h
    have hwithin := within_of_offsetFrom hlen h
    rw [offsetFrom_of_within hwithin] at h
    cases h
    exact ⟨hwithin, by rw [Nat.zero_mul, Nat.zero_add]⟩
  · rintro ⟨hwithin, rfl⟩
    have hlen : cs.length = g.sizes.length := hwithin.length_eq
    unfold offset
    rw [if_pos (by simpa using hlen), offsetFrom_of_within hwithin, Nat.zero_mul, Nat.zero_add]

/-! ## Grids in use -/

/-- The grids that are made with these sizes and then written to. -/
inductive Made (kind : Kind) (sizes : List Nat) : Grid → Prop
  | make {g : Grid} : make kind sizes = .ok g → Made kind sizes g
  | set {g g' : Grid} {cs : List Nat} {v : Value} :
    Made kind sizes g → g.set cs v = .ok g' → Made kind sizes g'

namespace Made

theorem accepted (h : Made kind sizes g) : ∃ g₀, Grid.make kind sizes = .ok g₀ := by
  induction h with
  | make h => exact ⟨_, h⟩
  | set _ _ ih => exact ih

theorem kind_eq (h : Made kind sizes g) : g.kind = kind := by
  induction h with
  | make h => rw [make_ok h]
  | set _ hset ih =>
    obtain ⟨-, i, -, rfl⟩ := set_ok hset
    exact ih

theorem sizes_eq (h : Made kind sizes g) : g.sizes = sizes := by
  induction h with
  | make h => rw [make_ok h]
  | set _ hset ih =>
    obtain ⟨-, i, -, rfl⟩ := set_ok hset
    exact ih

theorem wellFormed (h : Made kind sizes g) : g.WellFormed := by
  induction h with
  | make h => exact make_wellFormed h
  | set _ hset ih => exact ih.set hset

end Made

/-- What the places of the elements of a grid have to do with its sizes, and the elements with what
was put there. -/
structure Addressable (kind : Kind) (sizes : List Nat) (g : Grid) : Prop where
  /-- There is a place for coordinates if there are as many as sizes, each below its size. -/
  offset_iff : ∀ cs, (∃ i, g.offset cs = .ok i) ↔ cs.length = sizes.length ∧
    ∀ (k : Nat) c size, cs[k]? = some c → sizes[k]? = some size → c < size
  place_eq : ∀ cs i, g.offset cs = .ok i → i = place sizes cs
  inside : ∀ cs i, g.offset cs = .ok i → i < g.cells.size
  distinct : ∀ cs cs' i, g.offset cs = .ok i → g.offset cs' = .ok i → cs = cs'
  reached : ∀ i, i < g.cells.size → ∃ cs, g.offset cs = .ok i
  /-- What the coordinates `cs` of the leading dimensions give is within a word, and the computation
  goes on from there. -/
  onTheWay : ∀ before after cs o, sizes = before ++ after → cs.length = before.length →
    offsetFrom 1 0 before cs = .ok o →
    o < wordLimit ∧
      ∀ cs', offsetFrom 1 0 sizes (cs ++ cs') = offsetFrom (before.length + 1) o after cs'
  set_iff : ∀ cs v, (∃ g', g.set cs v = .ok g') ↔ v.kind = kind ∧ ∃ i, g.offset cs = .ok i
  get_set : ∀ cs v g', g.set cs v = .ok g' →
    g'.get cs = .ok v ∧ ∀ cs', cs' ≠ cs → g'.get cs' = g.get cs'
  /-- An array stays as it is when a value cannot be stored in it. -/
  unchanged : ∀ (m m' : Machine) a v e, m.workspace.arrays.get? a.name = some g →
    Machine.storeElement a v m = .error e m' → m'.workspace.arrays.get? a.name = some g

/-- A value of the grid's kind can be put wherever there is a place. -/
theorem exists_set (cs : List Nat) (v : Value) :
    (∃ g', g.set cs v = .ok g') ↔ v.kind = g.kind ∧ ∃ i, g.offset cs = .ok i := by
  constructor
  · rintro ⟨g', h⟩
    obtain ⟨hkind, i, hi, -⟩ := set_ok h
    exact ⟨hkind, i, hi⟩
  · rintro ⟨hkind, i, hi⟩
    refine (exists_set_iff hkind).mpr ?_
    simp [get, hi]

/-- The leading dimensions give less than the product of their sizes, which is within a word. -/
theorem Made.onTheWay {before after : List Nat} {o : Nat} (h : Made kind (before ++ after) g)
    (hlen : cs.length = before.length) (ho : offsetFrom 1 0 before cs = .ok o) : o < wordLimit := by
  have hprod := (make_succeeds_iff.mp h.accepted).2 before (List.prefix_append before after)
  have hlt := (offsetFrom_bounds hlen ho).2
  omega

/-- **Every element of a grid has a place of its own.** However large its sizes are and whatever was
put into it since it was made, coordinates have a place exactly if they are within the sizes; the
places of different coordinates differ, and together they are all places of the grid. An element is
what was put there last, and nothing else is changed by that. -/
theorem Made.addressable (h : Made kind sizes g) : Addressable kind sizes g where
  offset_iff cs := by
    rw [← within_iff, ← h.sizes_eq]
    exact ⟨fun ⟨i, hi⟩ => (offset_eq_ok.mp hi).1, fun hcs => ⟨_, offset_eq_ok.mpr ⟨hcs, rfl⟩⟩⟩
  place_eq cs i hi := by
    rw [← h.sizes_eq]
    exact (offset_eq_ok.mp hi).2
  inside cs i hi := offset_lt h.wellFormed hi
  distinct cs cs' i hi hi' := offset_inj hi hi'
  reached i hi := by
    rw [h.wellFormed] at hi
    obtain ⟨cs, hcs, hplace⟩ := exists_place hi
    exact ⟨cs, offset_eq_ok.mpr ⟨hcs, hplace.symm⟩⟩
  onTheWay before after cs o heq hlen ho := by
    subst heq
    exact ⟨h.onTheWay hlen ho, fun cs' => by rw [offsetFrom_append hlen ho, Nat.add_comm]⟩
  set_iff cs v := by
    rw [← h.kind_eq]
    exact exists_set cs v
  get_set cs v g' hset :=
    ⟨get_set_self h.wellFormed hset, fun cs' hne => get_set_of_ne hset hne⟩
  unchanged m m' a v e harray hfail := by
    rw [((Machine.storeElement_atomic a v).error hfail).workspace]
    exact harray

/-- A text in a grid with two rows, and a grid without elements whose leading sizes are large. -/
theorem addressable_twoRows_empty :
    ∃ rows empty, Made .text [2, 3] rows ∧ Made .number [twoTo 40, twoTo 20, 0] empty ∧
      rows.get [1, 0] = .ok (.text "A") ∧ rows.offset [1, 0] = .ok 3 ∧ place [2, 3] [1, 0] = 3 ∧
      Addressable .text [2, 3] rows ∧ empty.cells.size = 0 ∧
      offsetFrom 1 0 [twoTo 40, twoTo 20] [twoTo 40 - 1, twoTo 20 - 1] = .ok (twoTo 60 - 1) ∧
      Addressable .number [twoTo 40, twoTo 20, 0] empty := by
  have hset : set ⟨.text, [2, 3], Array.replicate 6 (.text "")⟩ [1, 0] (.text "A") =
      .ok ⟨.text, [2, 3], #[.text "", .text "", .text "", .text "A", .text "", .text ""]⟩ := rfl
  have hrows : Made .text [2, 3] _ := .set (.make rfl) hset
  have hempty : Made .number [twoTo 40, twoTo 20, 0] ⟨.number, [twoTo 40, twoTo 20, 0], #[]⟩ :=
    .make rfl
  exact ⟨_, _, hrows, hempty, rfl, rfl, rfl, hrows.addressable, rfl, rfl, hempty.addressable⟩

end Grid

end ClassicBasic
