import ClassicBasic.Proofs.Text.Blank
import ClassicBasic.Number.Numeral
import Mathlib.Data.List.Basic

/-!
# The shape of a number

A number that starts with a digit or a point is a run of digits and points, and perhaps a power of
ten (`number?_shape`). So it ends with a digit or a point, and a sign in it stands behind the letter
of the power (`Numeric.sign`).
-/

namespace ClassicBasic.Numeral

/-- Characters of a number in front of its power of ten. -/
def isMantissa (c : Char) : Bool := c.isDigit || c == '.'

/-- The power of ten of a number: its letter, a sign or none, and digits. -/
def IsPower (cs : List Char) : Prop :=
  ∃ e sign ds, cs = e :: sign ++ ds ∧ (e = 'e' ∨ e = 'E') ∧
    (sign = [] ∨ sign = ['+'] ∨ sign = ['-']) ∧ ds ≠ [] ∧ ∀ d ∈ ds, d.isDigit = true

/-- Digits and points, and perhaps a power of ten. -/
def Numeric (cs : List Char) : Prop :=
  ∃ m tail, cs = m ++ tail ∧ m ≠ [] ∧ (∀ c ∈ m, isMantissa c = true) ∧ (tail = [] ∨ IsPower tail)

theorem isMantissa_iff {c : Char} :
    isMantissa c = true ↔ (48 ≤ c.toNat ∧ c.toNat ≤ 57) ∨ c.toNat = 46 := by
  simp [isMantissa, Text.isDigit_iff, ← Char.toNat_inj]

theorem isMantissa_of_isDigit {c : Char} (h : c.isDigit = true) : isMantissa c = true := by
  simp [isMantissa, h]

/-! ## Reading -/

theorem splitSign_spec (cs : List Char) :
    ∃ sign, cs = sign ++ (splitSign cs).2 ∧ (sign = [] ∨ sign = ['+'] ∨ sign = ['-']) := by
  unfold splitSign
  split
  · exact ⟨['-'], rfl, by simp⟩
  · exact ⟨['+'], rfl, by simp⟩
  · exact ⟨[], rfl, by simp⟩

theorem exponent?_shape {cs : List Char} {n : Int} (h : exponent? cs = some n) :
    cs = [] ∨ IsPower cs := by
  cases cs with
  | nil => exact .inl rfl
  | cons e cs =>
    simp only [exponent?, Bool.or_eq_true, beq_iff_eq] at h
    split at h
    · rename_i he
      obtain ⟨m, hm, -⟩ := Option.map_eq_some_iff.mp h
      obtain ⟨sign, hcs, hsign⟩ := splitSign_spec cs
      simp only [digits?, Option.ite_none_right_eq_some, Bool.and_eq_true, Bool.not_eq_true',
        List.isEmpty_eq_false_iff, List.all_eq_true] at hm
      exact .inr ⟨e, sign, (splitSign cs).2, by rw [List.cons_append, ← hcs], he, hsign, hm.1⟩
    · cases h

/-- A natural number has only a sign and digits. -/
theorem natBelow?_chars {bound n : Nat} {cs : List Char} (h : natBelow? bound cs = some n) :
    ∀ c ∈ cs, c = '+' ∨ c.isDigit = true := by
  have hdigits {ds : List Char} {m : Nat} (h : (digits? ds).filter (· < bound) = some m) :
      ∀ d ∈ ds, d.isDigit = true := by
    obtain ⟨hm, -⟩ := Option.filter_eq_some_iff.mp h
    simp only [digits?, Option.ite_none_right_eq_some, Bool.and_eq_true, List.all_eq_true] at hm
    exact hm.1.2
  unfold natBelow? at h
  intro c hc
  split at h
  · rcases List.mem_cons.mp hc with rfl | hc
    · exact .inl rfl
    · exact .inr (hdigits h c hc)
  · exact .inr (hdigits h c hc)

/-- An integer has only signs and digits. -/
theorem int?_chars {cs : List Char} {n : Int} (h : int? cs = some n) :
    ∀ c ∈ cs, c = '+' ∨ c = '-' ∨ c.isDigit = true := by
  obtain ⟨hn, -⟩ := Option.filter_eq_some_iff.mp h
  obtain ⟨m, hm, -⟩ := Option.map_eq_some_iff.mp hn
  simp only [digits?, Option.ite_none_right_eq_some, Bool.and_eq_true, List.all_eq_true] at hm
  have hdigits : ∀ d ∈ (splitSign cs).2, d.isDigit = true := hm.1.2
  intro c hc
  obtain ⟨sign, hcs, hsign⟩ := splitSign_spec cs
  rw [hcs] at hc
  rcases List.mem_append.mp hc with hc | hc
  · rcases hsign with rfl | rfl | rfl
    · cases hc
    · exact .inl (List.mem_singleton.mp hc)
    · exact .inr (.inl (List.mem_singleton.mp hc))
  · exact .inr (.inr (hdigits c hc))

theorem spanDigits_spec (cs : List Char) :
    cs = (spanDigits cs).1 ++ (spanDigits cs).2 ∧ ∀ d ∈ (spanDigits cs).1, d.isDigit = true :=
  ⟨by simp [spanDigits], fun _ => List.mem_takeWhile_imp⟩

theorem decimal?_shape {cs : List Char} {d : Decimal} (h : decimal? cs = some d) :
    Numeric cs := by
  obtain ⟨hcs, hwhole⟩ := spanDigits_spec cs
  simp only [decimal?, Option.ite_none_left_eq_some] at h
  obtain ⟨hne, h⟩ := h
  obtain ⟨n, hn, -⟩ := Option.map_eq_some_iff.mp h
  have htail := exponent?_shape hn
  split at hne
  · rename_i rest hrest
    obtain ⟨hrest', hpart⟩ := spanDigits_spec rest
    simp only [hrest] at htail
    refine ⟨(spanDigits cs).1 ++ '.' :: (spanDigits rest).1, _, ?_, by simp, ?_, htail⟩
    · rw [List.append_assoc, List.cons_append, ← hrest', ← hrest]
      exact hcs
    · simp only [List.mem_append, List.mem_cons]
      rintro c (hc | rfl | hc)
      · exact isMantissa_of_isDigit (hwhole c hc)
      · rfl
      · exact isMantissa_of_isDigit (hpart c hc)
  · split at htail
    · exact absurd ‹_› (‹∀ rest, (spanDigits cs).2 = '.' :: rest → False› _)
    · exact ⟨_, _, hcs, by simpa using hne, fun c hc => isMantissa_of_isDigit (hwhole c hc), htail⟩

theorem toLower_of_isMantissa {c : Char} (h : isMantissa c = true) : c.toLower = c := by
  rw [isMantissa_iff] at h
  have hnat : ¬ (65 ≤ c.toNat ∧ c.toNat ≤ 90) := by omega
  have hupper : ¬ (c.val ≥ 'A'.val ∧ c.val ≤ 'Z'.val) := by
    simpa [UInt32.le_iff_toNat_le] using hnat
  exact dif_neg hupper

theorem number?_shape {c : Char} {cs : List Char} {x : Float} (hc : isMantissa c = true)
    (h : number? (c :: cs) = some x) : Numeric (c :: cs) := by
  have hsign : splitSign (c :: cs) = (false, c :: cs) := by
    unfold splitSign
    split
    · rename_i heq
      cases heq
      exact absurd hc (by decide)
    · rename_i heq
      cases heq
      exact absurd hc (by decide)
    · rfl
  -- A name of infinity or of no number starts with a letter.
  have hname {l : Char} {ls : List Char} (hl : isMantissa l = false) :
      String.ofList ((c :: cs).map Char.toLower) ≠ String.ofList (l :: ls) := by
    intro heq
    rw [String.ofList_inj, List.map_cons, toLower_of_isMantissa hc] at heq
    rw [(List.cons.inj heq).1, hl] at hc
    cases hc
  have hinf := @hname 'i' ['n', 'f'] rfl
  have hinfinity := @hname 'i' ['n', 'f', 'i', 'n', 'i', 't', 'y'] rfl
  have hnan := @hname 'n' ['a', 'n'] rfl
  simp only [number?, hsign, Bool.or_eq_true, beq_iff_eq] at h
  rw [if_neg (not_or.mpr ⟨hinf, hinfinity⟩), if_neg hnan] at h
  obtain ⟨d, hd, -⟩ := Option.map_eq_some_iff.mp h
  exact decimal?_shape hd

/-! ## Characters -/

namespace Numeric

variable {cs : List Char}

theorem chars (h : Numeric cs) :
    ∀ c ∈ cs, isMantissa c = true ∨ c = 'e' ∨ c = 'E' ∨ c = '+' ∨ c = '-' := by
  obtain ⟨m, tail, rfl, -, hm, rfl | ⟨e, sign, ds, rfl, he, hsign, -, hds⟩⟩ := h
  · intro c hc
    exact .inl (hm c (by simpa using hc))
  · intro c hc
    simp only [List.mem_append, List.cons_append, List.mem_cons] at hc
    rcases hc with hc | rfl | hc | hc
    · exact .inl (hm c hc)
    · exact he.elim (fun h => .inr (.inl h)) fun h => .inr (.inr (.inl h))
    · rcases hsign with rfl | rfl | rfl <;> simp at hc <;> simp [hc]
    · exact .inl (isMantissa_of_isDigit (hds c hc))

theorem getLast? (h : Numeric cs) : ∃ c ∈ cs.getLast?, isMantissa c = true := by
  obtain ⟨m, tail, rfl, hne, hm, rfl | ⟨e, sign, ds, rfl, -, -, hne', hds⟩⟩ := h
  · obtain ⟨init, c, rfl⟩ := (List.eq_nil_or_concat m).resolve_left hne
    exact ⟨c, by simp, hm c (by simp)⟩
  · obtain ⟨init, c, rfl⟩ := (List.eq_nil_or_concat ds).resolve_left hne'
    refine ⟨c, ?_, isMantissa_of_isDigit (hds c (by simp))⟩
    rw [List.getLast?_append, List.cons_append, List.getLast?_cons, List.getLast?_append]
    simp

/-- A sign in a number stands behind the letter of its power of ten. -/
theorem sign {u v : List Char} {c : Char} (h : Numeric (u ++ c :: v)) (hc : c = '+' ∨ c = '-') :
    ∃ m e, u = m ++ [e] ∧ (e = 'e' ∨ e = 'E') ∧ m ≠ [] ∧ ∀ d ∈ m, isMantissa d = true := by
  have hmantissa {ds : List Char} (hds : ∀ d ∈ ds, isMantissa d = true) : c ∉ ds := by
    intro hmem
    have := hds c hmem
    rcases hc with rfl | rfl <;> exact absurd this (by decide)
  have hmem : c ∈ u ++ c :: v := by simp
  obtain ⟨m, tail, hcs, hne, hm, rfl | ⟨e, sign, ds, rfl, he, hsign, -, hds⟩⟩ := h
  · rw [hcs, List.append_nil] at hmem
    exact absurd hmem (hmantissa hm)
  · have hds' : c ∉ ds := hmantissa fun d hd => isMantissa_of_isDigit (hds d hd)
    have hme : c ∉ m ++ [e] := by
      simp only [List.mem_append, List.mem_singleton, not_or]
      refine ⟨hmantissa hm, ?_⟩
      rintro rfl
      rcases hc with rfl | rfl <;> exact absurd he (by decide)
    have hsplit {s : Char} (h : u ++ c :: v = m ++ ([e] ++ [s] ++ ds)) : u = m ++ [e] := by
      have h' : (m ++ [e]) ++ s :: ds = u ++ c :: v := by simpa using h.symm
      exact ((List.append_cons_inj_of_notMem hme hds').mp h').1.symm
    rcases hsign with rfl | rfl | rfl
    · rw [hcs, ← List.append_assoc, List.mem_append] at hmem
      exact absurd hmem (not_or.mpr ⟨hme, hds'⟩)
    · exact ⟨m, e, hsplit hcs, he, hne, hm⟩
    · exact ⟨m, e, hsplit hcs, he, hne, hm⟩

end Numeric

end ClassicBasic.Numeral
