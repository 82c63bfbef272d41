import ClassicBasic.Proofs.Expr.Chain

/-!
# Groups are opaque

A group is a chain that stood between parentheses. In a sequence of operands it counts as one operand:
`evalWithin_sequence_ungrouped` says that a leaf of the same value may take its place.

The root of a sequence is a chain of `+` and stays one (`push_plus`). A `+` that follows a group is
taken by the root and never reaches the group; any other operator takes a group of `+` as its left
operand, as it does a leaf. So groups of `+` are opaque without further conditions, and there are no
others in expressions that were read.

A group of another operator is not always opaque: an operator that follows joins a group of its own
kind, and the group then hides more than stood between its parentheses. A tighter operator tells the
difference (`evalWithin_sequence_joined_group`), and where none follows there is none (`StaysClosed`).

`Alike` relates the two trees as they grow: they differ in operands of equal value, and at the right
end by a group and a leaf, or by a group and a leaf to which the same operands were joined.
-/

namespace ClassicBasic

namespace Tree

/-- A chain of `+` that is no group stays one: nothing is looser than `+`. -/
theorem push_plus (ts : List Tree) (op : Op) (e : Tree) :
    ∃ us, (chain .plus false ts).push op e = .chain .plus false us := by
  rw [push]
  split
  · exact ⟨_, rfl⟩
  · rename_i hop
    simp [Op.rank_plus_lt hop]

/-- Induction along the last operands of chains, where `push` goes. -/
theorem last_induction {motive : Tree → Prop} (leaf : ∀ t, t.isChain = false → motive t)
    (empty : ∀ op group, motive (.chain op group []))
    (last : ∀ op group ts t, motive t → motive (.chain op group (ts ++ [t]))) :
    ∀ t, motive t
  | .chain op group ts => by
    rcases hts : ts.reverse with _ | ⟨t, us⟩
    · rw [List.reverse_eq_nil_iff.mp hts]
      exact empty op group
    · have hts' : ts = us.reverse ++ [t] := by
        rw [← List.reverse_reverse ts, hts, List.reverse_cons]
      have : sizeOf t < sizeOf ts := List.sizeOf_lt_of_mem (by simp [hts'])
      rw [hts']
      exact last op group us.reverse t (last_induction leaf empty last t)
  | .number _ => leaf _ rfl
  | .text _ => leaf _ rfl
  | .var _ => leaf _ rfl
  | .call _ _ => leaf _ rfl
  | .transform _ _ => leaf _ rfl

end Tree

/-! ## Replacing groups by leaves -/

/-- Behind `op`, however often it is repeated, no tighter operator comes next. -/
def Op.NoTighterBehind (op : Op) (ops : List Op) : Prop :=
  ∀ next ∈ (ops.dropWhile (· == op)).head?, next.rank ≤ op.rank

instance (op : Op) (ops : List Op) : Decidable (op.NoTighterBehind ops) :=
  inferInstanceAs (Decidable (∀ next ∈ (ops.dropWhile (· == op)).head?, next.rank ≤ op.rank))

theorem Op.noTighterBehind_self {op : Op} {ops : List Op} :
    op.NoTighterBehind (op :: ops) ↔ op.NoTighterBehind ops := by
  simp [NoTighterBehind]

theorem Op.NoTighterBehind.rank_le {op next : Op} {ops : List Op}
    (h : op.NoTighterBehind (next :: ops)) (hne : next ≠ op) : next.rank ≤ op.rank :=
  h next (by simp [hne])

/-- A group of `op` with these operands stays one operand in front of the operators `ops`. Its own
operator, unless it is `+`, joins the group; then there have to be operands that it joins, and no
tighter one may come behind. -/
def StaysClosed (op : Op) (operands : List Tree) (ops : List Op) : Prop :=
  op ≠ .plus → ops.head? = some op → operands ≠ [] ∧ op.NoTighterBehind ops

/-- Groups of `+` stay closed whatever follows them. -/
theorem staysClosed_plus (operands : List Tree) (ops : List Op) : StaysClosed .plus operands ops :=
  fun hop => absurd rfl hop

/-- `u` may replace the operand `t` in front of the operators `ops`, where operands have the values
`ev`: it is `t` itself or, for a group, a leaf of the same value. -/
inductive Replaces (ev : Tree → Evaluation Value) (ops : List Op) : Tree → Tree → Prop
  | self (t : Tree) : Replaces ev ops t t
  | leaf {op : Op} {operands : List Tree} {u : Tree} : StaysClosed op operands ops →
      u.isChain = false → ev u = ev (.chain op true operands) →
      Replaces ev ops (.chain op true operands) u

/-- `Ungrouped ev first rest first' rest'`: the operands of a sequence are replaced, each in front of
the operators that follow it. -/
inductive Ungrouped (ev : Tree → Evaluation Value) :
    Tree → List (Op × Tree) → Tree → List (Op × Tree) → Prop
  | last {t u : Tree} : Replaces ev [] t u → Ungrouped ev t [] u []
  | cons {t u d e : Tree} {op : Op} {rest rest' : List (Op × Tree)} :
      Replaces ev (op :: rest.map Prod.fst) t u → Ungrouped ev d rest e rest' →
      Ungrouped ev t ((op, d) :: rest) u ((op, e) :: rest')

theorem Ungrouped.first {ev : Tree → Evaluation Value} {t u : Tree} {rest rest' : List (Op × Tree)}
    (h : Ungrouped ev t rest u rest') : Replaces ev (rest.map Prod.fst) t u := by
  cases h with
  | last h => exact h
  | cons h _ => exact h

/-! ## Growing two trees alike -/

section
variable (w : Workspace) (bound : Bindings)
  (apply : String → Function → Args → EStateM CallError Random Value)

/-- Two trees in front of the operators `ops` that are the same but for operands of equal value and,
at the right end, a group and a leaf, or what became of them when the group's operator followed. -/
inductive Alike (ops : List Op) : Tree → Tree → Prop
  | refl (t : Tree) : Alike ops t t
  | leaf {op : Op} {ts : List Tree} {u : Tree} : StaysClosed op ts ops → u.isChain = false →
      Tree.evalWith w bound apply u = Tree.evalWith w bound apply (.chain op true ts) →
      Alike ops (.chain op true ts) u
  | joined {op : Op} {ts us : List Tree} : op.NoTighterBehind ops → ts ≠ [] → us ≠ [] →
      Tree.evalWith w bound apply (.chain op true ts) =
        Tree.evalWith w bound apply (.chain op false us) →
      Alike ops (.chain op true ts) (.chain op false us)
  | chain {op : Op} {group : Bool} {ts us : List Tree} {t u : Tree} :
      List.Forall₂ (fun t u => Tree.evalWith w bound apply t = Tree.evalWith w bound apply u)
        ts us →
      Alike ops t u → Alike ops (.chain op group (ts ++ [t])) (.chain op group (us ++ [u]))

variable {w bound apply} {op : Op} {ops : List Op}

theorem Replaces.alike {t u : Tree} (h : Replaces (Tree.evalWith w bound apply) ops t u) :
    Alike w bound apply ops t u := by
  cases h with
  | self t => exact .refl t
  | leaf hclosed hu hv => exact .leaf hclosed hu hv

namespace Alike

theorem forall₂_append {ts us : List Tree} {t u : Tree}
    (hs : List.Forall₂ (fun t u => Tree.evalWith w bound apply t = Tree.evalWith w bound apply u)
      ts us) (h : Tree.evalWith w bound apply t = Tree.evalWith w bound apply u) :
    List.Forall₂ (fun t u => Tree.evalWith w bound apply t = Tree.evalWith w bound apply u)
      (ts ++ [t]) (us ++ [u]) :=
  List.rel_append hs (.cons h .nil)

theorem value {t u : Tree} (h : Alike w bound apply ops t u) :
    Tree.evalWith w bound apply t = Tree.evalWith w bound apply u := by
  induction h with
  | refl _ => rfl
  | leaf _ _ h => exact h.symm
  | joined _ _ _ h => exact h
  | chain hs _ ih => exact Tree.evalWith_chain_congr w bound apply _ _ (forall₂_append hs ih)

theorem pair {t u d e : Tree}
    (h : Tree.evalWith w bound apply t = Tree.evalWith w bound apply u)
    (he : Alike w bound apply ops d e) :
    Alike w bound apply ops (.chain op false [t, d]) (.chain op false [u, e]) :=
  .chain (.cons h .nil) he

theorem append_last {group : Bool} (ts : List Tree) {d e : Tree}
    (he : Alike w bound apply ops d e) :
    Alike w bound apply ops (.chain op group (ts ++ [d])) (.chain op group (ts ++ [e])) :=
  .chain (List.forall₂_same.mpr fun _ _ => rfl) he

/-- Chains of one operator that have the same value keep it when the same is joined to them. -/
theorem join {group group' : Bool} {ts us : List Tree} {d e : Tree} (hts : ts ≠ []) (hus : us ≠ [])
    (h : Tree.evalWith w bound apply (.chain op group ts) =
      Tree.evalWith w bound apply (.chain op group' us)) (he : Alike w bound apply ops d e) :
    Tree.evalWith w bound apply (.chain op group (ts ++ [d])) =
      Tree.evalWith w bound apply (.chain op group' (us ++ [e])) := by
  rw [Tree.evalWith_chain_append w bound apply op group group hts,
    Tree.evalWith_chain_append w bound apply op group' group' hus, h, he.value]

/-- Pushing on chains that are alike, when pushing on their last operands keeps those alike. -/
theorem push_chain {op' : Op} {group : Bool} {ts us : List Tree} {t u d e : Tree}
    (hs : List.Forall₂ (fun t u => Tree.evalWith w bound apply t = Tree.evalWith w bound apply u)
      ts us) (h : Alike w bound apply (op :: ops) t u)
    (hpush : Alike w bound apply ops (t.push op d) (u.push op e))
    (he : Alike w bound apply ops d e) :
    Alike w bound apply ops ((Tree.chain op' group (ts ++ [t])).push op d)
      ((Tree.chain op' group (us ++ [u])).push op e) := by
  by_cases heq : op = op'
  · subst heq
    rw [Tree.push_chain_self, Tree.push_chain_self]
    exact .chain (forall₂_append hs h.value) he
  by_cases hin : op'.rank < op.rank ∧ group = false
  · obtain ⟨hlt, rfl⟩ := hin
    rw [Tree.push_chain_tighter hlt, Tree.push_chain_tighter hlt]
    exact .chain hs hpush
  · have hgroup : op'.rank < op.rank → group = true := fun hlt => by simpa [hlt] using hin
    rw [Tree.push_chain_other heq hgroup, Tree.push_chain_other heq hgroup]
    exact pair (chain hs h).value he

/-- Two operands pushed on one tree arrive at the same place. -/
theorem push_same {d e : Tree} (he : Alike w bound apply ops d e) (op : Op) (t : Tree) :
    Alike w bound apply ops (t.push op d) (t.push op e) := by
  induction t using Tree.last_induction with
  | leaf t ht =>
    rw [Tree.push_leaf ht, Tree.push_leaf ht]
    exact append_last [t] he
  | empty op' group =>
    by_cases heq : op = op'
    · subst heq
      rw [Tree.push_chain_self, Tree.push_chain_self]
      exact append_last [] he
    · simp only [Tree.push, heq, if_false, Tree.pushLast]
      split
      · exact append_last [] he
      · exact append_last [_] he
  | last op' group ts t ih =>
    exact push_chain (List.forall₂_same.mpr fun _ _ => rfl) (.refl t) ih he

/-- An operator that follows a group and a leaf. -/
theorem push_leaf {op' : Op} {ts : List Tree} {u d e : Tree}
    (hclosed : StaysClosed op' ts (op :: ops)) (hu : u.isChain = false)
    (hv : Tree.evalWith w bound apply u = Tree.evalWith w bound apply (.chain op' true ts))
    (he : Alike w bound apply ops d e) (hop : op ≠ .plus) :
    Alike w bound apply ops ((Tree.chain op' true ts).push op d) (u.push op e) := by
  rw [Tree.push_leaf hu]
  by_cases heq : op = op'
  · -- The group's own operator: it joins the group, and makes a chain of the leaf.
    subst heq
    obtain ⟨hts, hbehind⟩ := hclosed hop rfl
    have hleaf : Tree.evalWith w bound apply (.chain op true ts) =
        Tree.evalWith w bound apply (.chain op false [u]) := by
      rw [Tree.evalWith_chain_single, hv]
    rw [Tree.push_chain_self]
    exact .joined (Op.noTighterBehind_self.mp hbehind) (by simp) (by simp)
      (join hts (by simp) hleaf he)
  · rw [Tree.push_chain_other heq fun _ => rfl]
    exact pair hv.symm he

/-- An operator that follows a group and a leaf to which the same was joined. -/
theorem push_joined {op' : Op} {ts us : List Tree} {d e : Tree}
    (hbehind : op'.NoTighterBehind (op :: ops)) (hts : ts ≠ []) (hus : us ≠ [])
    (hv : Tree.evalWith w bound apply (.chain op' true ts) =
      Tree.evalWith w bound apply (.chain op' false us))
    (he : Alike w bound apply ops d e) :
    Alike w bound apply ops ((Tree.chain op' true ts).push op d)
      ((Tree.chain op' false us).push op e) := by
  by_cases heq : op = op'
  · subst heq
    rw [Tree.push_chain_self, Tree.push_chain_self]
    exact .joined (Op.noTighterBehind_self.mp hbehind) (by simp) (by simp) (join hts hus hv he)
  · have hle := hbehind.rank_le heq
    rw [Tree.push_chain_other heq fun _ => rfl, Tree.push_chain_other heq fun hlt => by omega]
    exact pair hv he

/-- Below the root, where no `+` arrives, pushing keeps trees alike. -/
theorem push {t u d e : Tree} (h : Alike w bound apply (op :: ops) t u)
    (he : Alike w bound apply ops d e) (hop : op ≠ .plus) :
    Alike w bound apply ops (t.push op d) (u.push op e) := by
  induction h with
  | refl t => exact push_same he op t
  | leaf hclosed hu hv => exact push_leaf hclosed hu hv he hop
  | joined hbehind hts hus hv => exact push_joined hbehind hts hus hv he
  | chain hs h ih => exact push_chain hs h ih he

/-- At the root every operator is taken as it comes. -/
theorem push_root {ts us : List Tree} {d e : Tree}
    (h : Alike w bound apply (op :: ops) (.chain .plus false ts) (.chain .plus false us))
    (he : Alike w bound apply ops d e) :
    Alike w bound apply ops ((Tree.chain .plus false ts).push op d)
      ((Tree.chain .plus false us).push op e) := by
  by_cases hop : op = .plus
  · subst hop
    rw [Tree.push_chain_self, Tree.push_chain_self]
    cases h with
    | refl _ => exact append_last ts he
    | chain hs h => exact .chain (forall₂_append hs h.value) he
  · exact h.push he hop

/-- Sequences whose operands are replaced one by one grow alike. -/
theorem foldl_value {d e : Tree} {rest rest' : List (Op × Tree)}
    (hrest : Ungrouped (Tree.evalWith w bound apply) d rest e rest') {ts us : List Tree}
    (h : Alike w bound apply (rest.map Prod.fst) (.chain .plus false ts) (.chain .plus false us)) :
    Tree.evalWith w bound apply
        (rest.foldl (fun tree p => tree.push p.1 p.2) (.chain .plus false ts)) =
      Tree.evalWith w bound apply
        (rest'.foldl (fun tree p => tree.push p.1 p.2) (.chain .plus false us)) := by
  induction hrest generalizing ts us with
  | last _ => exact h.value
  | @cons t u d e op rest rest' _ hrest ih =>
    have hpush := h.push_root hrest.first.alike
    obtain ⟨ts', hts⟩ := Tree.push_plus ts op d
    obtain ⟨us', hus⟩ := Tree.push_plus us op e
    rw [hts, hus] at hpush
    rw [List.foldl_cons, List.foldl_cons, hts, hus]
    exact ih hpush

end Alike

end

/-- **Parentheses are opaque.** In a sequence of operands, any groups may be replaced by leaves of
the same value: the tree of the sequence has the same value or the same fault. Groups of `+` may stand
anywhere. A group of another operator must not be followed by that operator and then, once this no
longer repeats, by a tighter one, nor by that operator at all if it is empty. -/
theorem Workspace.evalWithin_sequence_ungrouped (w : Workspace) (room : Nat) (bound : Bindings)
    {first first' : Tree} {rest rest' : List (Op × Tree)}
    (h : Ungrouped (w.evalWithin room bound) first rest first' rest') :
    w.evalWithin room bound (Tree.sequence first rest) =
      w.evalWithin room bound (Tree.sequence first' rest') := by
  obtain ⟨apply, heq⟩ := w.evalWithin_eq room bound
  rw [heq] at h ⊢
  exact Alike.foldl_value h (.chain .nil h.first.alike)

/-- The group `(1 AND 1)` as a chain of AND. -/
def pairOfAnd : Tree := .chain .and true [.number 1, .number 1]

/-- A group of AND that its own operator joins, with a looser one behind it; and a group of `+`
followed by its own operator and a tighter one. -/
theorem Workspace.evalWithin_sequence_ungrouped_pairOfAnd :
    Ungrouped (evalWithin {} 0 []) pairOfAnd
        [(.and, .number 1), (.plus, .chain .plus true [.number 1, .number 1]), (.plus, .number 1),
          (.less, .number 2)]
        (.number 1)
        [(.and, .number 1), (.plus, .number (1 + 1)), (.plus, .number 1), (.less, .number 2)] ∧
      evalWithin {} 0 [] (Tree.sequence pairOfAnd
          [(.and, .number 1), (.plus, .chain .plus true [.number 1, .number 1]), (.plus, .number 1),
            (.less, .number 2)]) =
        evalWithin {} 0 [] (Tree.sequence (.number 1)
          [(.and, .number 1), (.plus, .number (1 + 1)), (.plus, .number 1), (.less, .number 2)]) := by
  have hand : StaysClosed .and [.number 1, .number 1] [.and, .plus, .plus, .less] :=
    fun _ _ => ⟨by simp, by decide⟩
  have h : Ungrouped (evalWithin {} 0 []) pairOfAnd
      [(.and, .number 1), (.plus, .chain .plus true [.number 1, .number 1]), (.plus, .number 1),
        (.less, .number 2)]
      (.number 1)
      [(.and, .number 1), (.plus, .number (1 + 1)), (.plus, .number 1), (.less, .number 2)] :=
    .cons (.leaf hand rfl rfl) <| .cons (.self _) <| .cons (.leaf (staysClosed_plus _ _) rfl rfl) <|
      .cons (.self _) <| .last (.self _)
  exact ⟨h, evalWithin_sequence_ungrouped {} 0 [] h⟩

/-- **Not every group is opaque.** In `(1 AND 1) AND "A" < "B"` the second AND joins a group that is a
chain of AND, so that the comparison takes the group for its left operand and not the text; with the
value of the group in its place the texts are compared. What joins an empty group takes the place of
the operand that it lacks. A group of `+` is joined too where it is itself the root. -/
theorem Workspace.evalWithin_sequence_joined_group :
    (evalWithin {} 0 [] pairOfAnd = evalWithin {} 0 [] (.number 1) ∧
      evalWithin {} 0 [] (Tree.sequence pairOfAnd [(.and, .text "A"), (.less, .text "B")]) ≠
        evalWithin {} 0 [] (Tree.sequence (.number 1) [(.and, .text "A"), (.less, .text "B")])) ∧
    (evalWithin {} 0 [] (.chain .and true []) =
        evalWithin {} 0 [] (.transform .negate (.chain .plus false [])) ∧
      evalWithin {} 0 [] (Tree.sequence (.chain .and true []) [(.and, .number 1)]) ≠
        evalWithin {} 0 [] (Tree.sequence (.transform .negate (.chain .plus false []))
          [(.and, .number 1)])) ∧
    (evalWithin {} 0 [] (.chain .plus true [.text "A", .text "B"]) =
        evalWithin {} 0 [] (.text "AB") ∧
      evalWithin {} 0 [] (((Tree.chain .plus true [.text "A", .text "B"]).push .plus
          (.text "C")).push .less (.text "D")) ≠
        evalWithin {} 0 [] (((Tree.text "AB").push .plus (.text "C")).push .less (.text "D"))) := by
  have hdiffer {x y : Evaluation Value} (h : x (.ofSeed 0) ≠ y (.ofSeed 0)) : x ≠ y :=
    fun heq => h (congrFun heq _)
  refine ⟨⟨rfl, hdiffer ?_⟩, ⟨rfl, hdiffer ?_⟩, rfl, hdiffer ?_⟩
  · rintro ⟨⟩
  · rintro ⟨⟩
  · rintro ⟨⟩

end ClassicBasic
