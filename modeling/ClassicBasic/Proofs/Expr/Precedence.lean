import ClassicBasic.Proofs.Expr.Chain
import Mathlib.Data.List.Induction

/-!
# Operator precedence

A formula joins two operands at a time. `Formula.ofSequence` groups a sequence of operands by the
ranks of its operators: the last of the loosest operators joins what stands before it to what
stands after it (`Formula.Ranked`). The tree that is grown by `Tree.push` one operator after the
other, without looking ahead, has the value of this formula (`evalWithin_sequence`).

The proof follows `push`: `Formula.insert` does to a formula what `push` does to a tree
(`Stands.push`), and grouping a longer sequence inserts its last operator (`ofSequence_append`).
-/

namespace ClassicBasic

/-- Operands joined two at a time. -/
inductive Formula where
  | operand (t : Tree)
  | node (op : Op) (left right : Formula)
deriving Inhabited

namespace Formula

/-- The value of a formula whose operands have the values `ev`, its left side first. -/
def value (ev : Tree → Evaluation Value) : Formula → Evaluation Value
  | .operand t => ev t
  | .node op left right => op.join (left.value ev) (right.value ev)

/-- The operands and operators of a formula from left to right. -/
def flat : Formula → Tree × List (Op × Tree)
  | .operand t => (t, [])
  | .node op left right => (left.flat.1, left.flat.2 ++ (op, right.flat.1) :: right.flat.2)

/-- Grouped by rank: the operators to the right of a node bind tighter than the node's own, those
to its left at least as tight. -/
def Ranked : Formula → Prop
  | .operand _ => True
  | .node op left right =>
    (∀ p ∈ left.flat.2, op.rank ≤ p.1.rank) ∧ (∀ p ∈ right.flat.2, op.rank < p.1.rank) ∧
      left.Ranked ∧ right.Ranked

/-! ## Grouping by rank -/

/-- The last of the loosest operators of a sequence, with what stands before and after it. -/
def loosest? : List (Op × Tree) → Option (List (Op × Tree) × (Op × Tree) × List (Op × Tree))
  | [] => none
  | p :: rest =>
    match loosest? rest with
    | none => some ([], p, rest)
    | some (before, q, after) =>
      if p.1.rank < q.1.rank then some ([], p, rest) else some (p :: before, q, after)

theorem loosest?_eq_none {rest : List (Op × Tree)} (h : loosest? rest = none) : rest = [] := by
  cases rest with
  | nil => rfl
  | cons p rest =>
    simp only [loosest?] at h
    split at h
    · cases h
    · split at h <;> cases h

theorem loosest?_spec {rest before after : List (Op × Tree)} {p : Op × Tree}
    (h : loosest? rest = some (before, p, after)) :
    rest = before ++ p :: after ∧ (∀ q ∈ before, p.1.rank ≤ q.1.rank) ∧
      ∀ q ∈ after, p.1.rank < q.1.rank := by
  induction rest generalizing before p after with
  | nil => simp [loosest?] at h
  | cons q rest ih =>
    simp only [loosest?] at h
    split at h
    · rename_i hnone
      obtain ⟨rfl, rfl, rfl⟩ : [] = before ∧ q = p ∧ rest = after := by simpa using h
      simp [loosest?_eq_none hnone]
    · rename_i before' q' after' hsome
      obtain ⟨rfl, hbefore, hafter⟩ := ih hsome
      split at h
      · rename_i hlt
        obtain ⟨rfl, rfl, rfl⟩ : [] = before ∧ q = p ∧ before' ++ q' :: after' = after := by
          simpa using h
        refine ⟨rfl, by simp, fun r hr => ?_⟩
        rcases List.mem_append.mp hr with hr | hr
        · exact Nat.lt_of_lt_of_le hlt (hbefore r hr)
        · rcases List.mem_cons.mp hr with rfl | hr
          · exact hlt
          · exact Nat.lt_trans hlt (hafter r hr)
      · rename_i hge
        obtain ⟨rfl, rfl, rfl⟩ : q :: before' = before ∧ q' = p ∧ after' = after := by
          simpa using h
        refine ⟨rfl, fun r hr => ?_, hafter⟩
        rcases List.mem_cons.mp hr with rfl | hr
        · omega
        · exact hbefore r hr

theorem loosest?_eq_some {before after : List (Op × Tree)} {p : Op × Tree}
    (hbefore : ∀ q ∈ before, p.1.rank ≤ q.1.rank) (hafter : ∀ q ∈ after, p.1.rank < q.1.rank) :
    loosest? (before ++ p :: after) = some (before, p, after) := by
  induction before with
  | nil =>
    simp only [List.nil_append, loosest?]
    split
    · rfl
    · rename_i before' q after' hsome
      have hq : q ∈ after := by simp [(loosest?_spec hsome).1]
      simp [hafter q hq]
  | cons r before ih =>
    have hr : ¬ r.1.rank < p.1.rank := Nat.not_lt.mpr (hbefore r (by simp))
    simp [loosest?, ih (fun q hq => hbefore q (by simp [hq])), hr]

/-- The formula of a sequence, grouped by rank: operators of one rank associate to the left. -/
def ofSequence (first : Tree) (rest : List (Op × Tree)) : Formula :=
  match h : loosest? rest with
  | none => .operand first
  | some (before, p, after) =>
    have : rest.length = before.length + after.length + 1 := by
      simp [(loosest?_spec h).1, Nat.add_assoc]
    .node p.1 (ofSequence first before) (ofSequence p.2 after)
termination_by rest.length

@[simp] theorem ofSequence_nil (first : Tree) : ofSequence first [] = .operand first := by
  rw [ofSequence]
  rfl

theorem ofSequence_split {before after : List (Op × Tree)} {p : Op × Tree} (first : Tree)
    (hbefore : ∀ q ∈ before, p.1.rank ≤ q.1.rank) (hafter : ∀ q ∈ after, p.1.rank < q.1.rank) :
    ofSequence first (before ++ p :: after) =
      .node p.1 (ofSequence first before) (ofSequence p.2 after) := by
  rw [ofSequence]
  split
  · rename_i h
    rw [loosest?_eq_some hbefore hafter] at h
    cases h
  · rename_i h
    rw [loosest?_eq_some hbefore hafter] at h
    cases h
    rfl

/-- Induction on the groups of a sequence. -/
theorem split_induction {motive : Tree → List (Op × Tree) → Prop}
    (nil : ∀ first, motive first [])
    (split : ∀ first before p after, (∀ q ∈ before, p.1.rank ≤ q.1.rank) →
      (∀ q ∈ after, p.1.rank < q.1.rank) → motive first before → motive p.2 after →
      motive first (before ++ p :: after)) (first : Tree) (rest : List (Op × Tree)) :
    motive first rest := by
  induction hn : rest.length using Nat.strongRecOn generalizing first rest with
  | ind n ih =>
    cases h : loosest? rest with
    | none => rw [loosest?_eq_none h]; exact nil first
    | some r =>
      obtain ⟨before, p, after⟩ := r
      obtain ⟨rfl, hbefore, hafter⟩ := loosest?_spec h
      simp only [List.length_append, List.length_cons] at hn
      exact split first before p after hbefore hafter (ih _ (by omega) first before rfl)
        (ih _ (by omega) p.2 after rfl)

theorem flat_ofSequence (first : Tree) (rest : List (Op × Tree)) :
    (ofSequence first rest).flat = (first, rest) := by
  induction first, rest using split_induction with
  | nil first => simp [flat]
  | split first before p after hbefore hafter ihl ihr =>
    simp [ofSequence_split first hbefore hafter, flat, ihl, ihr]

theorem ranked_ofSequence (first : Tree) (rest : List (Op × Tree)) :
    (ofSequence first rest).Ranked := by
  induction first, rest using split_induction with
  | nil first => simp [Ranked]
  | split first before p after hbefore hafter ihl ihr =>
    rw [ofSequence_split first hbefore hafter]
    simp only [Ranked, flat_ofSequence]
    exact ⟨hbefore, hafter, ihl, ihr⟩

/-! ## One more operator -/

/-- The formula followed by an operator and an operand: the operator goes to the right as long as
it binds tighter. -/
def insert (op : Op) (e : Tree) : Formula → Formula
  | .operand t => .node op (.operand t) (.operand e)
  | .node op' left right =>
    if op'.rank < op.rank then .node op' left (right.insert op e)
    else .node op (.node op' left right) (.operand e)

/-- Nothing is looser than `+`. -/
theorem insert_plus (e : Tree) (f : Formula) :
    f.insert .plus e = .node .plus f (.operand e) := by
  cases f with
  | operand t => rfl
  | node op left right =>
    have : ¬ op.rank < Op.plus.rank := by cases op <;> decide
    simp [insert, this]

theorem ofSequence_append (first : Tree) (rest : List (Op × Tree)) (op : Op) (e : Tree) :
    ofSequence first (rest ++ [(op, e)]) = (ofSequence first rest).insert op e := by
  induction first, rest using split_induction with
  | nil first =>
    rw [ofSequence_split (p := (op, e)) first (by simp) (by simp)]
    simp [insert]
  | split first before p after hbefore hafter _ ihr =>
    rw [ofSequence_split first hbefore hafter]
    by_cases hlt : p.1.rank < op.rank
    · -- The loosest operator stays, and the new one goes into the group after it.
      have hafter' : ∀ q ∈ after ++ [(op, e)], p.1.rank < q.1.rank := by
        intro q hq
        rcases List.mem_append.mp hq with hq | hq
        · exact hafter q hq
        · rwa [List.mem_singleton.mp hq]
      rw [List.append_assoc, List.cons_append, ofSequence_split first hbefore hafter', ihr]
      simp [insert, hlt]
    · -- The new operator is the last of the loosest.
      have hle : ∀ q ∈ before ++ p :: after, op.rank ≤ q.1.rank := by
        intro q hq
        rcases List.mem_append.mp hq with hq | hq
        · have := hbefore q hq; omega
        · rcases List.mem_cons.mp hq with rfl | hq
          · omega
          · have := hafter q hq; omega
      rw [ofSequence_split (p := (op, e)) first hle (by simp),
        ofSequence_split first hbefore hafter]
      simp [insert, hlt]

end Formula

/-! ## Trees and formulas -/

section
variable (w : Workspace) (bound : Bindings)
  (apply : String → Function → Args → EStateM CallError Random Value)

/-- A tree that stands for a formula: the chains on its right edge are nodes, one after the other,
and what is to their left has the value that the formula has there. -/
inductive Stands : Tree → Formula → Prop
  | operand {t : Tree} : t.isChain = false → Stands t (.operand t)
  | single {t : Tree} {f : Formula} : Stands t f → Stands (.chain .plus false [t]) f
  | chain {op : Op} {ts : List Tree} {t : Tree} {left right : Formula} : ts ≠ [] →
      Tree.evalWith w bound apply (.chain op false ts) =
        left.value (Tree.evalWith w bound apply) →
      Stands t right → Stands (.chain op false (ts ++ [t])) (.node op left right)

namespace Stands

variable {w bound apply}

theorem value {t : Tree} {f : Formula} (h : Stands w bound apply t f) :
    Tree.evalWith w bound apply t = f.value (Tree.evalWith w bound apply) := by
  induction h with
  | operand _ => rfl
  | single _ ih => rw [Tree.evalWith_chain_single, ih]
  | @chain op ts t left right hts hleft _ ih =>
    rw [Tree.evalWith_chain_append w bound apply op false false hts, hleft, ih, Formula.value]

theorem pair {op : Op} {t e : Tree} {f : Formula} (h : Stands w bound apply t f)
    (he : e.isChain = false) :
    Stands w bound apply (.chain op false ([t] ++ [e])) (.node op f (.operand e)) :=
  .chain (by simp) (by rw [Tree.evalWith_chain_single, h.value]) (.operand he)

/-- Pushing an operand on a tree inserts it into the formula. -/
theorem push {t e : Tree} {f : Formula} (h : Stands w bound apply t f) (op : Op)
    (he : e.isChain = false) : Stands w bound apply (t.push op e) (f.insert op e) := by
  induction h with
  | operand ht =>
    rw [Tree.push_leaf ht]
    exact pair (.operand ht) he
  | @single t f ht ih =>
    by_cases hop : op = .plus
    · subst hop
      rw [Tree.push_chain_self, Formula.insert_plus]
      exact pair ht he
    · rw [← List.nil_append [t], Tree.push_chain_tighter (Op.rank_plus_lt hop)]
      exact .single ih
  | @chain op' ts t left right hts hleft ht ih =>
    have hchain : Stands w bound apply (.chain op' false (ts ++ [t])) (.node op' left right) :=
      .chain hts hleft ht
    by_cases hlt : op'.rank < op.rank
    · rw [Tree.push_chain_tighter hlt, Formula.insert, if_pos hlt]
      exact .chain hts hleft ih
    · rw [Formula.insert, if_neg hlt]
      by_cases hop : op = op'
      · subst hop
        rw [Tree.push_chain_self]
        exact .chain (by simp) hchain.value (.operand he)
      · rw [Tree.push_chain_other hop (fun h => absurd h hlt)]
        exact pair hchain he

/-- The tree of a sequence stands for the formula of the sequence. -/
theorem sequence {first : Tree} {rest : List (Op × Tree)} (hfirst : first.isChain = false)
    (hrest : ∀ p ∈ rest, p.2.isChain = false) :
    Stands w bound apply (Tree.sequence first rest) (Formula.ofSequence first rest) := by
  induction rest using List.reverseRecOn with
  | nil =>
    rw [Formula.ofSequence_nil]
    exact .single (.operand hfirst)
  | append_singleton rest p ih =>
    rw [Tree.sequence_append, Formula.ofSequence_append]
    exact (ih fun q hq => hrest q (by simp [hq])).push p.1 (hrest p (by simp))

end Stands

end

/-- **Pushing operators one by one implements precedence.** A sequence of operands that are no
chains has the value of its formula, in which the operators are grouped by their ranks, those of
one rank from the left, and each is applied to two operands, the left one first. -/
theorem Workspace.evalWithin_sequence {first : Tree} {rest : List (Op × Tree)}
    (hfirst : first.isChain = false) (hrest : ∀ p ∈ rest, p.2.isChain = false) :
    (Formula.ofSequence first rest).flat = (first, rest) ∧
      (Formula.ofSequence first rest).Ranked ∧
      ∀ (w : Workspace) (room : Nat) (bound : Bindings),
        w.evalWithin room bound (Tree.sequence first rest) =
          (Formula.ofSequence first rest).value (w.evalWithin room bound) := by
  refine ⟨Formula.flat_ofSequence first rest, Formula.ranked_ofSequence first rest, ?_⟩
  intro w room bound
  obtain ⟨apply, h⟩ := w.evalWithin_eq room bound
  rw [h]
  exact (Stands.sequence hfirst hrest).value

/-- A comparison binds tighter than a product, and that tighter than a sum. -/
theorem Workspace.evalWithin_sequence_compared :
    (Tree.var "A").isChain = false ∧
      (∀ p ∈ [(Op.plus, Tree.var "B"), (.times, .var "C"), (.less, .text "D"), (.plus, .number 1)],
        p.2.isChain = false) ∧
      ∀ (w : Workspace) (room : Nat) (bound : Bindings),
        w.evalWithin room bound (Tree.sequence (.var "A")
            [(.plus, .var "B"), (.times, .var "C"), (.less, .text "D"), (.plus, .number 1)]) =
          (Formula.node .plus
            (.node .plus (.operand (.var "A"))
              (.node .times (.operand (.var "B"))
                (.node .less (.operand (.var "C")) (.operand (.text "D")))))
            (.operand (.number 1))).value (w.evalWithin room bound) := by
  refine ⟨rfl, by simp [Tree.isChain], fun w room bound => ?_⟩
  rw [(Workspace.evalWithin_sequence rfl (by simp [Tree.isChain])).2.2]
  simp [Formula.ofSequence, Formula.loosest?, Op.rank]

end ClassicBasic
