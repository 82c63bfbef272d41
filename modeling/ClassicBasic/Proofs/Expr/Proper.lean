import ClassicBasic.Proofs.Expr.Blanks
import ClassicBasic.Proofs.Expr.Groups

/-!
# Well-formed trees

The tree of an expression that was read is well-formed (`Expr.wellFormed_of_parse`): what stands for
a variable or a function is a name, no transform is left around a constant, each chain has an
operand, and only a chain of `+` may have no more than one or be a group. Trees are made with
`single`, `push`, `grouped` and `transformed`, each of which keeps this; what is grouped is the tree
of an expression, whose root is a chain of `+` (`Derives.root`). So every group in an expression is one
of those that are opaque (`Expr.group_of_parse`).

Of a `Proper` tree no more is said than of its chains: evaluation never meets the empty chain in it,
and the value of a chain of any operator but `+` is what that operator gives.
-/

namespace ClassicBasic

namespace Tree

def isConstant : Tree → Bool
  | .number _ | .text _ => true
  | _ => false

inductive WellFormed : Tree → Prop
  | number {x : Float} : WellFormed (.number x)
  | text {s : String} : WellFormed (.text s)
  | var {name : String} : Text.isName name.toList = true → WellFormed (.var name)
  | call {name : String} {args : List Tree} : Text.isName name.toList = true →
      (∀ t ∈ args, WellFormed t) → WellFormed (.call name args)
  | transform {t : Transform} {operand : Tree} : operand.isConstant = false →
      WellFormed operand → WellFormed (.transform t operand)
  | chain {op : Op} {group : Bool} {operands : List Tree} : operands ≠ [] →
      (op ≠ .plus → 2 ≤ operands.length) → (group = true → op = .plus) →
      (∀ t ∈ operands, WellFormed t) → WellFormed (.chain op group operands)

inductive Proper : Tree → Prop
  | number {x : Float} : Proper (.number x)
  | text {s : String} : Proper (.text s)
  | var {name : String} : Proper (.var name)
  | call {name : String} {args : List Tree} : (∀ t ∈ args, Proper t) → Proper (.call name args)
  | transform {t : Transform} {operand : Tree} : Proper operand → Proper (.transform t operand)
  | chain {op : Op} {group : Bool} {operands : List Tree} : operands ≠ [] →
      (op ≠ .plus → 2 ≤ operands.length) → (∀ t ∈ operands, Proper t) →
      Proper (.chain op group operands)

namespace WellFormed

variable {t e u : Tree}

theorem proper (h : t.WellFormed) : t.Proper := by
  induction h with
  | number => exact .number
  | text => exact .text
  | var _ => exact .var
  | call _ _ ih => exact .call ih
  | transform _ _ ih => exact .transform ih
  | chain hne hlength _ _ ih => exact .chain hne hlength ih

theorem pair (ht : t.WellFormed) (he : e.WellFormed) (op : Op) :
    (Tree.chain op false [t, e]).WellFormed :=
  .chain (by simp) (by simp) (by simp) (by simp [ht, he])

/-- The last operand of a chain may become another, and more may follow it. -/
theorem extend {op : Op} {group : Bool} {ts us : List Tree}
    (h : (Tree.chain op group (ts ++ [t])).WellFormed) (hne : us ≠ [])
    (hus : ∀ u ∈ us, u.WellFormed) : (Tree.chain op group (ts ++ us)).WellFormed := by
  cases h with
  | chain _ hlength hgroup hts =>
    refine .chain (by simp [hne]) (fun hop => ?_) hgroup fun u hu => ?_
    · have hold := hlength hop
      have hnew := List.length_pos_iff.mpr hne
      simp only [List.length_append, List.length_singleton] at hold ⊢
      omega
    · rcases List.mem_append.mp hu with hu | hu
      · exact hts u (by simp [hu])
      · exact hus u hu

theorem last {op : Op} {group : Bool} {ts : List Tree}
    (h : (Tree.chain op group (ts ++ [t])).WellFormed) : t.WellFormed := by
  cases h with
  | chain _ _ _ hts => exact hts t (by simp)

theorem push (ht : t.WellFormed) (he : e.WellFormed) (op : Op) : (t.push op e).WellFormed := by
  -- Along the last operands, which is where `push` goes.
  induction t using last_induction with
  | leaf t hleaf =>
    rw [push_leaf hleaf]
    exact ht.pair he op
  | empty op' group =>
    cases ht with
    | chain hne _ _ _ => exact absurd rfl hne
  | last op' group ts t ih =>
    by_cases heq : op = op'
    · subst heq
      rw [push_chain_self, List.append_assoc]
      exact ht.extend (by simp) (by simp [ht.last, he])
    by_cases hin : op'.rank < op.rank ∧ group = false
    · obtain ⟨hlt, rfl⟩ := hin
      rw [push_chain_tighter hlt]
      exact ht.extend (by simp) (by simp [ih ht.last])
    · rw [push_chain_other heq (by simpa using hin)]
      exact ht.pair he op

theorem single (ht : t.WellFormed) : t.single.WellFormed :=
  .chain (by simp) (by simp) (by simp) (by simp [ht])

theorem grouped {ts : List Tree} (h : (Tree.chain .plus false ts).WellFormed) :
    (Tree.chain .plus false ts).grouped.WellFormed := by
  cases h with
  | chain hne hlength _ hts => exact .chain hne hlength (fun _ => rfl) hts

/-- A transform of a number is computed and that of a text is refused, so that none is left. -/
theorem transformed (ht : t.WellFormed) {k : Transform} (h : t.transformed k = .ok u) :
    u.WellFormed := by
  cases t with
  | number =>
    cases h
    exact .number
  | text => cases h
  | var | call | transform | chain =>
    cases h
    exact .transform rfl ht

end WellFormed

/-- `Contains t u`: `u` is `t` or stands somewhere in it. -/
inductive Contains : Tree → Tree → Prop
  | self (t : Tree) : Contains t t
  | arg {name : String} {args : List Tree} {t u : Tree} : t ∈ args → Contains t u →
      Contains (.call name args) u
  | operand {k : Transform} {t u : Tree} : Contains t u → Contains (.transform k t) u
  | link {op : Op} {group : Bool} {operands : List Tree} {t u : Tree} : t ∈ operands →
      Contains t u → Contains (.chain op group operands) u

/-- What stands in a well-formed tree is well-formed. -/
theorem Contains.wellFormed {t u : Tree} (h : t.Contains u) (ht : t.WellFormed) : u.WellFormed := by
  induction h with
  | self _ => exact ht
  | arg hmem _ ih =>
    cases ht with
    | call _ hargs => exact ih (hargs _ hmem)
  | operand _ ih =>
    cases ht with
    | transform _ hoperand => exact ih hoperand
  | link hmem _ ih =>
    cases ht with
    | chain _ _ _ hoperands => exact ih (hoperands _ hmem)

end Tree

/-- The tokens that a text is spelled by are valid. -/
theorem Spelled.valid {before : Option Char} {ts : List Token} {cs : List Char}
    (h : Spelled before ts cs) : ∀ t ∈ ts, t.Valid := by
  induction h with
  | nil => simp
  | blank _ _ ih => exact ih
  | token hv _ _ ih => exact List.forall_mem_cons.mpr ⟨hv, ih⟩

/-- The root of an expression is a chain of `+` that is no group. -/
theorem Derives.root {ts : List Token} {tree : Tree} (h : Derives .expression ts tree) :
    ∃ operands, tree = .chain .plus false operands := by
  generalize hp : Phrase.expression = p at h
  induction h with
  | number | text | name | call | group | signed => cases hp
  | first _ _ => exact ⟨_, rfl⟩
  | @join _ _ s _ _ _ _ _ hjoined ihleft _ =>
    obtain ⟨operands, rfl⟩ := ihleft rfl
    cases s with
    | operator op =>
      rw [hjoined]
      exact Tree.push_plus operands op _
    | minus | slash =>
      obtain ⟨u, -, rfl⟩ := hjoined
      exact Tree.push_plus operands _ u

/-- Every phrase of the grammar stands for a well-formed tree. -/
theorem Derives.wellFormed {p : Phrase} {ts : List Token} {tree : Tree} (h : Derives p ts tree)
    (hv : ∀ t ∈ ts, t.Valid) : tree.WellFormed := by
  have hname {cs : List Char} (h : (Token.name cs).Valid) :
      Text.isName (String.ofList cs).toList = true := by
    rw [String.toList_ofList]
    exact h.1
  induction h with
  | number _ => exact .number
  | text => exact .text
  | name => exact .var (hname (hv _ (by simp)))
  | @call cs args _ ih =>
    refine .call (hname (hv _ (by simp))) fun t ht => ?_
    obtain ⟨a, ha, rfl⟩ := List.mem_map.mp ht
    refine ih a ha fun t ht => hv t ?_
    have hinner : t ∈ [Token.comma].intercalate (args.map (·.1)) :=
      (Text.infix_intercalate (List.mem_map_of_mem ha)).subset ht
    simp [hinner]
  | group hinner ih =>
    have hwellFormed := ih fun t ht => hv t (by simp [ht])
    obtain ⟨operands, rfl⟩ := hinner.root
    exact hwellFormed.grouped
  | signed _ _ hsigned ih =>
    have hatom := ih fun t ht => hv t (by simp [ht])
    unfold Tree.Signed at hsigned
    split at hsigned
    · exact hatom.transformed hsigned
    · exact hsigned ▸ hatom
  | first _ ih => exact (ih hv).single
  | @join _ _ s _ _ _ _ _ hjoined ihleft ihoperand =>
    have hleft := ihleft fun t ht => hv t (by simp [ht])
    have hoperand := ihoperand fun t ht => hv t (by simp [ht])
    cases s with
    | operator op => exact hjoined ▸ hleft.push hoperand op
    | minus | slash =>
      obtain ⟨u, hu, rfl⟩ := hjoined
      exact hleft.push (hoperand.transformed hu) _

theorem Expr.wellFormed_of_parse {cs : List Char} {e : Expr} (h : Expr.parse cs = .ok e) :
    e.tree.WellFormed := by
  obtain ⟨ts, hspelled, hts, -⟩ := exists_spelled h
  exact hts.wellFormed hspelled.valid

/-- **Every group in an expression is a chain of `+`.** -/
theorem Expr.group_of_parse {cs : List Char} {e : Expr} (h : Expr.parse cs = .ok e) {op : Op}
    {operands : List Tree} (hgroup : e.tree.Contains (.chain op true operands)) : op = .plus := by
  cases hgroup.wellFormed (wellFormed_of_parse h) with
  | chain _ _ hplus _ => exact hplus rfl

theorem Expr.parse_proper {cs : List Char} {e : Expr} (h : Expr.parse cs = .ok e) :
    e.tree.Proper :=
  (wellFormed_of_parse h).proper

end ClassicBasic
