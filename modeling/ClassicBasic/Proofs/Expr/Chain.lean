import ClassicBasic.Expr.Eval
import Mathlib.Data.List.Forall2

/-!
# Sequences of operands and the value of a chain

`Tree.sequence` is the tree of a first operand and the operators and operands that follow it. The
value of a chain is that of its operands joined one after the other from the left
(`evalWith_chain_append`), so it depends on the values of its operands alone
(`evalWith_chain_congr`).
-/

namespace ClassicBasic

/-- Two evaluations joined by an operator, the left one first. -/
def Op.join (op : Op) (x y : Evaluation Value) : Evaluation Value := do
  let a ← x
  let b ← y
  op.apply a b

/-- Every operator but `+` binds tighter than `+`. -/
theorem Op.rank_plus_lt {op : Op} (h : op ≠ .plus) : Op.plus.rank < op.rank := by
  cases op with
  | plus => exact absurd rfl h
  | _ => decide

namespace Tree

/-! ## Sequences -/

/-- The tree of a first operand, followed by operators with their right operands. -/
def sequence (first : Tree) (rest : List (Op × Tree)) : Tree :=
  rest.foldl (fun tree p => tree.push p.1 p.2) (single first)

theorem sequence_append (first : Tree) (rest : List (Op × Tree)) (p : Op × Tree) :
    sequence first (rest ++ [p]) = (sequence first rest).push p.1 p.2 := by
  simp [sequence]

/-- Whether a tree is a chain, of whatever operator. -/
def isChain : Tree → Bool
  | .chain .. => true
  | _ => false

theorem push_leaf {t : Tree} (h : t.isChain = false) (op : Op) (e : Tree) :
    t.push op e = .chain op false [t, e] := by
  cases t with
  | chain _ _ _ => simp [isChain] at h
  | _ => rfl

theorem push_chain_self (op : Op) (group : Bool) (ts : List Tree) (e : Tree) :
    (chain op group ts).push op e = .chain op group (ts ++ [e]) := by
  simp [push]

theorem pushLast_append (ts : List Tree) (t : Tree) (op : Op) (e : Tree) :
    pushLast (ts ++ [t]) op e = ts ++ [t.push op e] := by
  induction ts with
  | nil => simp [pushLast]
  | cons u ts ih => cases ts <;> simp_all [pushLast]

/-- A tighter operator goes into the last operand of a chain that is no group. -/
theorem push_chain_tighter {op op' : Op} (h : op'.rank < op.rank) (ts : List Tree) (t e : Tree) :
    (chain op' false (ts ++ [t])).push op e = .chain op' false (ts ++ [t.push op e]) := by
  have hne : op ≠ op' := fun he => by simp [he] at h
  simp [push, hne, h, pushLast_append]

/-- Any other operator takes the whole chain as its left operand, and so does a tighter one if the
chain is a group. -/
theorem push_chain_other {op op' : Op} (hne : op ≠ op') {group : Bool}
    (h : op'.rank < op.rank → group = true) (ts : List Tree) (e : Tree) :
    (chain op' group ts).push op e = .chain op false [.chain op' group ts, e] := by
  have hcond : (decide (op'.rank < op.rank) && !group) = false := by
    by_cases hr : op'.rank < op.rank <;> simp [hr, h]
  simp [push, hne, hcond]

/-! ## Values -/

section
variable (w : Workspace) (bound : Bindings)
  (apply : String → Function → Args → EStateM CallError Random Value)

theorem evalRest_append (op : Op) (v : Value) (ts : List Tree) (t : Tree) :
    evalRest w bound apply op v (ts ++ [t]) =
      op.join (evalRest w bound apply op v ts) (evalWith w bound apply t) := by
  induction ts generalizing v with
  | nil => simp [evalRest, Op.join]
  | cons u ts ih => simp [evalRest, Op.join, ih]

theorem evalWith_chain_single (op : Op) (group : Bool) (t : Tree) :
    evalWith w bound apply (.chain op group [t]) = evalWith w bound apply t := by
  simp [evalWith, evalRest]

/-- The last operand of a chain is joined to the value of those before it. -/
theorem evalWith_chain_append (op : Op) (group group' : Bool) {ts : List Tree} (hts : ts ≠ [])
    (t : Tree) :
    evalWith w bound apply (.chain op group (ts ++ [t])) =
      op.join (evalWith w bound apply (.chain op group' ts)) (evalWith w bound apply t) := by
  cases ts with
  | nil => exact absurd rfl hts
  | cons u ts =>
    simp only [List.cons_append, evalWith, evalRest_append]
    simp [Op.join]

/-- The value of a chain depends on the values of its operands alone. -/
theorem evalWith_chain_congr (op : Op) (group : Bool) {ts us : List Tree}
    (h : List.Forall₂ (fun t u => evalWith w bound apply t = evalWith w bound apply u) ts us) :
    evalWith w bound apply (.chain op group ts) = evalWith w bound apply (.chain op group us) := by
  have hrest : ∀ {ts us : List Tree} (v : Value),
      List.Forall₂ (fun t u => evalWith w bound apply t = evalWith w bound apply u) ts us →
      evalRest w bound apply op v ts = evalRest w bound apply op v us := by
    intro ts us v h
    induction h generalizing v with
    | nil => rfl
    | cons h _ ih => simp only [evalRest, h, ih]
  cases h with
  | nil => simp [evalWith]
  | cons h hs => simp only [evalWith, h, hrest _ hs]

end

end Tree

/-- An evaluation that lets calls nest is `Tree.evalWith` for some meaning of calls. -/
theorem Workspace.evalWithin_eq (w : Workspace) (room : Nat) (bound : Bindings) :
    ∃ apply, w.evalWithin room bound = Tree.evalWith w bound apply := by
  cases room with
  | zero => exact ⟨_, rfl⟩
  | succ room => exact ⟨_, funext fun _ => by rw [evalWithin]⟩

end ClassicBasic
