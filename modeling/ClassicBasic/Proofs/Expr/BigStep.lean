import ClassicBasic.Expr.Eval
import ClassicBasic.Proofs.Except

/-!
# Evaluation as a relation

`Evaluates w depth bound tree random result`: with `depth` calls of defined functions under way, the
value of `tree` is computed in finitely many steps and comes to `result`. There is one rule for each
thing that can happen, and nothing in the rules says that evaluation ends: a derivation is a finite
tree, so a function that called itself for ever would have none. `evaluates_iff` says that there
always is one, and that its result is the one that `Workspace.evalWithin` gives. What makes it end
is that a call begins only while fewer than `maxCallDepth` are under way, whatever functions there
are and however they call each other.
-/

namespace ClassicBasic

/-- What a call comes to, as a fault of the expression that holds it. -/
def inCall (name : String) :
    EStateM.Result CallError Random Value → EStateM.Result EvalError Random Value
  | .ok v random => .ok v random
  | .error e random => .error (.call name e) random

/-- What the body of a function comes to, as a fault of its call. -/
def inBody : EStateM.Result EvalError Random Value → EStateM.Result CallError Random Value
  | .ok v random => .ok v random
  | .error e random => .error (.body e) random

theorem adaptExcept_inCall (name : String) (x : EStateM CallError Random Value) (r : Random) :
    EStateM.adaptExcept (EvalError.call name) x r = inCall name (x r) := by
  unfold EStateM.adaptExcept
  cases x r <;> rfl

theorem adaptExcept_inBody (x : Evaluation Value) (r : Random) :
    EStateM.adaptExcept CallError.body x r = inBody (x r) := by
  unfold EStateM.adaptExcept
  cases x r <;> rfl

mutual

/-- The value of a tree. -/
inductive Evaluates (w : Workspace) :
    Nat → Bindings → Tree → Random → EStateM.Result EvalError Random Value → Prop
  | number {depth bound x r} : Evaluates w depth bound (.number x) r (.ok (.number x) r)
  | text {depth bound s r} : Evaluates w depth bound (.text s) r (.ok (.text s) r)
  | var {depth bound name v r} : w.lookup? bound name = some v →
      Evaluates w depth bound (.var name) r (.ok v r)
  | unknownVar {depth bound name r} : w.lookup? bound name = none →
      Evaluates w depth bound (.var name) r (.error (.unknownVariable name) r)
  | call {depth bound name args f values r r' result} : w.functions.get? name = some f →
      EvaluatesAll w depth bound args r (.ok values r') →
      Calls w depth bound name values f r' result →
      Evaluates w depth bound (.call name args) r (inCall name result)
  | badArgument {depth bound name args f e r r'} : w.functions.get? name = some f →
      EvaluatesAll w depth bound args r (.error e r') →
      Evaluates w depth bound (.call name args) r (.error e r')
  | unknownCall {depth bound name args r} : w.functions.get? name = none →
      Evaluates w depth bound (.call name args) r (.error (.unknownFunction name) r)
  | transform {depth bound t operand x r r'} :
      Evaluates w depth bound operand r (.ok (.number x) r') →
      Evaluates w depth bound (.transform t operand) r (.ok (.number (t.apply x)) r')
  | transformText {depth bound t operand s r r'} :
      Evaluates w depth bound operand r (.ok (.text s) r') →
      Evaluates w depth bound (.transform t operand) r (.error (.notNumber .text) r')
  | badOperand {depth bound t operand e r r'} : Evaluates w depth bound operand r (.error e r') →
      Evaluates w depth bound (.transform t operand) r (.error e r')
  | chain {depth bound op group first rest v r r' result} :
      Evaluates w depth bound first r (.ok v r') →
      EvaluatesRest w depth bound op v rest r' result →
      Evaluates w depth bound (.chain op group (first :: rest)) r result
  | badFirst {depth bound op group first rest e r r'} :
      Evaluates w depth bound first r (.error e r') →
      Evaluates w depth bound (.chain op group (first :: rest)) r (.error e r')
  | emptyChain {depth bound op group r} :
      Evaluates w depth bound (.chain op group []) r (.error .empty r)

/-- The values of some trees, from left to right. -/
inductive EvaluatesAll (w : Workspace) :
    Nat → Bindings → List Tree → Random → EStateM.Result EvalError Random (List Value) → Prop
  | nil {depth bound r} : EvaluatesAll w depth bound [] r (.ok [] r)
  | cons {depth bound t rest v vs r r' r''} : Evaluates w depth bound t r (.ok v r') →
      EvaluatesAll w depth bound rest r' (.ok vs r'') →
      EvaluatesAll w depth bound (t :: rest) r (.ok (v :: vs) r'')
  | badHead {depth bound t rest e r r'} : Evaluates w depth bound t r (.error e r') →
      EvaluatesAll w depth bound (t :: rest) r (.error e r')
  | badTail {depth bound t rest v e r r' r''} : Evaluates w depth bound t r (.ok v r') →
      EvaluatesAll w depth bound rest r' (.error e r'') →
      EvaluatesAll w depth bound (t :: rest) r (.error e r'')

/-- The value of a chain whose operands so far gave a value. -/
inductive EvaluatesRest (w : Workspace) : Nat → Bindings → Op → Value → List Tree → Random →
    EStateM.Result EvalError Random Value → Prop
  | nil {depth bound op v r} : EvaluatesRest w depth bound op v [] r (.ok v r)
  | cons {depth bound op v x y t rest r r' result} : Evaluates w depth bound t r (.ok x r') →
      op.apply v x = .ok y → EvaluatesRest w depth bound op y rest r' result →
      EvaluatesRest w depth bound op v (t :: rest) r result
  | badOperand {depth bound op v e t rest r r'} : Evaluates w depth bound t r (.error e r') →
      EvaluatesRest w depth bound op v (t :: rest) r (.error e r')
  | mismatch {depth bound op v x e t rest r r'} : Evaluates w depth bound t r (.ok x r') →
      op.apply v x = .error e → EvaluatesRest w depth bound op v (t :: rest) r (.error e r')

/-- The value of a call with the values of its arguments. -/
inductive Calls (w : Workspace) : Nat → Bindings → String → Args → Function → Random →
    EStateM.Result CallError Random Value → Prop
  | builtin {depth bound name args b r} :
      Calls w depth bound name args (.builtin b) r (b.apply args r)
  | array {depth bound name args g v r} : w.arrays.get? name = some g →
      Workspace.readElement g args = .ok v → Calls w depth bound name args .array r (.ok v r)
  | badSubscript {depth bound name args g e r} : w.arrays.get? name = some g →
      Workspace.readElement g args = .error e → Calls w depth bound name args .array r (.error e r)
  | noArray {depth bound name args r} : w.arrays.get? name = none →
      Calls w depth bound name args .array r (.error (.body (.unknownFunction name)) r)
  | argumentCount {depth bound name args params body e r} : args.expect params.length = .error e →
      Calls w depth bound name args (.defined params body) r (.error e r)
  | tooDeep {depth bound name args params body r} : args.expect params.length = .ok () →
      maxCallDepth ≤ depth →
      Calls w depth bound name args (.defined params body) r (.error .tooDeep r)
  | body {depth bound name args params body r result} : args.expect params.length = .ok () →
      depth < maxCallDepth →
      Evaluates w (depth + 1) (params.zip args ++ bound) body.tree r result →
      Calls w depth bound name args (.defined params body) r (inBody result)

end

/-! ## What calls give -/

namespace Workspace

/-- The value of a call when `room` more calls may nest. -/
def applyWithin (w : Workspace) (bound : Bindings) :
    (room : Nat) → String → Function → Args → EStateM CallError Random Value
  | 0, name, f, args => w.applyFunction (fun _ _ => throw .tooDeep) name args f
  | room + 1, name, f, args =>
    w.applyFunction
      (fun params body => EStateM.adaptExcept .body (w.evalWithin room (params ++ bound) body))
      name args f

theorem evalWithin_applyWithin (w : Workspace) (room : Nat) (bound : Bindings) (t : Tree) :
    w.evalWithin room bound t = t.evalWith w bound (w.applyWithin bound room) := by
  cases room <;> rw [evalWithin] <;> rfl

section
variable {w : Workspace} {bound : Bindings} {name : String} {args : Args} {params : List String}
  {body : Expr} {depth : Nat}

theorem applyWithin_builtin (room : Nat) (b : Builtin) :
    w.applyWithin bound room name (.builtin b) args = b.apply args := by
  cases room <;> rfl

theorem applyWithin_array (room : Nat) :
    w.applyWithin bound room name .array args =
      match w.arrays.get? name with
      | some g => liftM (readElement g args)
      | none => throw (.body (.unknownFunction name)) := by
  cases room <;> rfl

theorem applyWithin_argumentCount {e : CallError} (h : args.expect params.length = .error e)
    (room : Nat) (r : Random) :
    w.applyWithin bound room name (.defined params body) args r = .error e r := by
  cases room <;> simp only [applyWithin, applyFunction, h] <;> rfl

theorem applyWithin_tooDeep (h : args.expect params.length = .ok ()) (hdepth : maxCallDepth ≤ depth)
    (r : Random) :
    w.applyWithin bound (maxCallDepth - depth) name (.defined params body) args r =
      .error .tooDeep r := by
  rw [Nat.sub_eq_zero_of_le hdepth]
  simp only [applyWithin, applyFunction, h]
  rfl

/-- The body of a function is evaluated one call deeper. -/
theorem applyWithin_body (h : args.expect params.length = .ok ()) (hdepth : depth < maxCallDepth)
    (r : Random) :
    w.applyWithin bound (maxCallDepth - depth) name (.defined params body) args r =
      inBody
        (w.evalWithin (maxCallDepth - (depth + 1)) (params.zip args ++ bound) body.tree r) := by
  have hroom : maxCallDepth - depth = maxCallDepth - (depth + 1) + 1 := by omega
  rw [hroom]
  simp only [applyWithin, applyFunction, h]
  exact adaptExcept_inBody _ r

end

end Workspace

/-! ## At most one result -/

section
variable {w : Workspace}

mutual

theorem Evaluates.eq {depth : Nat} {bound : Bindings} {t : Tree} {r : Random}
    {result : EStateM.Result EvalError Random Value} (h : Evaluates w depth bound t r result) :
    t.evalWith w bound (w.applyWithin bound (maxCallDepth - depth)) r = result :=
  match h with
  | .number | .text | .emptyChain => by rw [Tree.evalWith]; rfl
  | .var h | .unknownVar h | .unknownCall h => by rw [Tree.evalWith, h]; rfl
  | .call hf hargs hcall => by
    rw [Tree.evalWith, hf]
    simp only
    rw [bind_of_ok hargs.eq, adaptExcept_inCall, hcall.eq]
  | .badArgument hf hargs => by
    rw [Tree.evalWith, hf]
    exact bind_of_error hargs.eq
  | .transform h | .transformText h => by
    rw [Tree.evalWith, bind_of_ok h.eq]
    rfl
  | .badOperand h | .badFirst h => by rw [Tree.evalWith, bind_of_error h.eq]
  | .chain hfirst hrest => by
    rw [Tree.evalWith, bind_of_ok hfirst.eq]
    exact hrest.eq

theorem EvaluatesAll.eq {depth : Nat} {bound : Bindings} {ts : List Tree} {r : Random}
    {result : EStateM.Result EvalError Random (List Value)}
    (h : EvaluatesAll w depth bound ts r result) :
    Tree.evalAll w bound (w.applyWithin bound (maxCallDepth - depth)) ts r = result :=
  match h with
  | .nil => by rw [Tree.evalAll]; rfl
  | .cons ht hrest => by
    rw [Tree.evalAll, bind_of_ok ht.eq, bind_of_ok hrest.eq]
    rfl
  | .badHead ht => by rw [Tree.evalAll, bind_of_error ht.eq]
  | .badTail ht hrest => by rw [Tree.evalAll, bind_of_ok ht.eq, bind_of_error hrest.eq]

theorem EvaluatesRest.eq {depth : Nat} {bound : Bindings} {op : Op} {v : Value} {ts : List Tree}
    {r : Random} {result : EStateM.Result EvalError Random Value}
    (h : EvaluatesRest w depth bound op v ts r result) :
    Tree.evalRest w bound (w.applyWithin bound (maxCallDepth - depth)) op v ts r = result :=
  match h with
  | .nil => by rw [Tree.evalRest]; rfl
  | .cons ht hop hrest => by
    rw [Tree.evalRest, bind_of_ok ht.eq, hop]
    exact hrest.eq
  | .badOperand ht => by rw [Tree.evalRest, bind_of_error ht.eq]
  | .mismatch ht hop => by
    rw [Tree.evalRest, bind_of_ok ht.eq, hop]
    rfl

theorem Calls.eq {depth : Nat} {bound : Bindings} {name : String} {args : Args} {f : Function}
    {r : Random} {result : EStateM.Result CallError Random Value}
    (h : Calls w depth bound name args f r result) :
    w.applyWithin bound (maxCallDepth - depth) name f args r = result :=
  match h with
  | .builtin => by rw [Workspace.applyWithin_builtin]
  | .array hg hv | .badSubscript hg hv => by
    rw [Workspace.applyWithin_array, hg]
    simp only [hv]
    rfl
  | .noArray hg => by
    rw [Workspace.applyWithin_array, hg]
    rfl
  | .argumentCount h => Workspace.applyWithin_argumentCount h _ r
  | .tooDeep h hdepth => Workspace.applyWithin_tooDeep h hdepth r
  | .body h hdepth hbody => by
    rw [Workspace.applyWithin_body h hdepth, Workspace.evalWithin_applyWithin, hbody.eq]

end

end

/-! ## There is a result -/

section
variable {w : Workspace} {depth : Nat} {bound : Bindings}
  {apply : String → Function → Args → EStateM CallError Random Value}

mutual

/-- If all calls end, so does the evaluation of a tree. -/
theorem Tree.evalWith_evaluates
    (happly : ∀ name f args r, Calls w depth bound name args f r (apply name f args r)) :
    ∀ (t : Tree) (r : Random), Evaluates w depth bound t r (t.evalWith w bound apply r)
  | .number x, r => .number
  | .text s, r => .text
  | .var name, r => by
    rw [evalWith]
    cases h : w.lookup? bound name with
    | none => exact .unknownVar h
    | some v => exact .var h
  | .call name args, r => by
    rw [evalWith]
    cases hf : w.functions.get? name with
    | none => exact .unknownCall hf
    | some f =>
      have hargs := evalAll_evaluates happly args r
      simp only [bind, EStateM.bind]
      cases hvalues : evalAll w bound apply args r with
      | error e r' => exact .badArgument hf (hvalues ▸ hargs)
      | ok values r' =>
        simp only [adaptExcept_inCall]
        exact .call hf (hvalues ▸ hargs) (happly name f values r')
  | .transform t operand, r => by
    rw [evalWith]
    have hoperand := evalWith_evaluates happly operand r
    simp only [bind, EStateM.bind]
    cases hv : operand.evalWith w bound apply r with
    | error e r' => exact .badOperand (hv ▸ hoperand)
    | ok v r' =>
      rw [hv] at hoperand
      cases v with
      | number x => exact .transform hoperand
      | text s => exact .transformText hoperand
  | .chain op group [], r => by
    rw [evalWith]
    exact .emptyChain
  | .chain op group (first :: rest), r => by
    rw [evalWith]
    have hfirst := evalWith_evaluates happly first r
    simp only [bind, EStateM.bind]
    cases hv : first.evalWith w bound apply r with
    | error e r' => exact .badFirst (hv ▸ hfirst)
    | ok v r' => exact .chain (hv ▸ hfirst) (evalRest_evaluates happly op v rest r')

theorem Tree.evalAll_evaluates
    (happly : ∀ name f args r, Calls w depth bound name args f r (apply name f args r)) :
    ∀ (ts : List Tree) (r : Random), EvaluatesAll w depth bound ts r (evalAll w bound apply ts r)
  | [], r => by
    rw [evalAll]
    exact .nil
  | t :: rest, r => by
    rw [evalAll]
    have ht := evalWith_evaluates happly t r
    simp only [bind, EStateM.bind]
    cases hv : t.evalWith w bound apply r with
    | error e r' => exact .badHead (hv ▸ ht)
    | ok v r' =>
      have hrest := evalAll_evaluates happly rest r'
      simp only
      cases hvs : evalAll w bound apply rest r' with
      | error e r'' => exact .badTail (hv ▸ ht) (hvs ▸ hrest)
      | ok vs r'' => exact .cons (hv ▸ ht) (hvs ▸ hrest)

theorem Tree.evalRest_evaluates
    (happly : ∀ name f args r, Calls w depth bound name args f r (apply name f args r)) (op : Op) :
    ∀ (v : Value) (ts : List Tree) (r : Random),
      EvaluatesRest w depth bound op v ts r (evalRest w bound apply op v ts r)
  | v, [], r => by
    rw [evalRest]
    exact .nil
  | v, t :: rest, r => by
    rw [evalRest]
    have ht := evalWith_evaluates happly t r
    simp only [bind, EStateM.bind]
    cases hx : t.evalWith w bound apply r with
    | error e r' => exact .badOperand (hx ▸ ht)
    | ok x r' =>
      rw [hx] at ht
      simp only
      cases hy : op.apply v x with
      | error e => exact .mismatch ht hy
      | ok y => exact .cons ht hy (evalRest_evaluates happly op y rest r')

end

/-- All calls end, if the bodies of functions do one call deeper. -/
theorem Workspace.applyWithin_calls
    (hbody : depth < maxCallDepth → ∀ bound body r, Evaluates w (depth + 1) bound body r
      (w.evalWithin (maxCallDepth - (depth + 1)) bound body r))
    (name : String) (f : Function) (args : Args) (r : Random) :
    Calls w depth bound name args f r
      (w.applyWithin bound (maxCallDepth - depth) name f args r) := by
  cases f with
  | builtin b =>
    rw [applyWithin_builtin]
    exact .builtin
  | array =>
    rw [applyWithin_array]
    cases hg : w.arrays.get? name with
    | none => exact .noArray hg
    | some g =>
      simp only
      cases hv : readElement g args with
      | ok v => exact .array hg hv
      | error e => exact .badSubscript hg hv
  | defined params body =>
    cases hcount : args.expect params.length with
    | error e =>
      rw [applyWithin_argumentCount hcount]
      exact .argumentCount hcount
    | ok u =>
      by_cases hdepth : depth < maxCallDepth
      · rw [applyWithin_body hcount hdepth]
        exact .body hcount hdepth (hbody hdepth _ _ _)
      · rw [applyWithin_tooDeep hcount (by omega)]
        exact .tooDeep hcount (by omega)

end

/-- **Evaluation ends, in the result that the evaluator gives and no other**, with any number of
calls under way. -/
theorem Workspace.evaluates_iff (w : Workspace) (depth : Nat) (bound : Bindings) (tree : Tree)
    (r : Random) (result : EStateM.Result EvalError Random Value) :
    Evaluates w depth bound tree r result ↔
      w.evalWithin (maxCallDepth - depth) bound tree r = result := by
  have hends : Evaluates w depth bound tree r
      (w.evalWithin (maxCallDepth - depth) bound tree r) := by
    -- The induction is on the number of calls that may still nest.
    induction hroom : maxCallDepth - depth generalizing depth bound tree r with
    | zero =>
      rw [evalWithin_applyWithin, ← hroom]
      exact Tree.evalWith_evaluates (applyWithin_calls fun h => by omega) tree r
    | succ room ih =>
      rw [evalWithin_applyWithin, ← hroom]
      refine Tree.evalWith_evaluates (applyWithin_calls fun _ bound body r => ?_) tree r
      have hnext : maxCallDepth - (depth + 1) = room := by omega
      rw [hnext]
      exact ih (depth + 1) bound body r hnext
  constructor
  · intro h
    rw [evalWithin_applyWithin]
    exact h.eq
  · intro h
    rw [← h]
    exact hends

end ClassicBasic
