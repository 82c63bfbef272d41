import ClassicBasic.Proofs.Expr.BigStep
import Mathlib.Logic.Relation

/-!
# How deep calls nest

A defined function may call others in its body, and calls under way are counted. Which functions an
expression can come to call is seen from the texts: a chain of calls starts with a function that is
called somewhere in the expression, and each function of it is called somewhere in the body of the
one before (`Workspace.CallChain`). Nothing that is written is left out in an evaluation that
succeeds, so it goes down every chain, and none is longer than the limit. If none is, the limit is
never met, and evaluation comes to what it comes to without one.

Evaluation without a limit is `Unlimited.Evaluates`, which has the rules of `Evaluates` but for the
count. Along derivations of the two, the chains of a tree become those of its parts, and shorter by
one in the body of a function.
-/

namespace ClassicBasic

/-! ## Evaluation without a limit -/

namespace Unlimited

mutual

/-- The value of a tree, with any number of calls under way. -/
inductive Evaluates (w : Workspace) :
    Bindings → Tree → Random → EStateM.Result EvalError Random Value → Prop
  | number {bound x r} : Evaluates w bound (.number x) r (.ok (.number x) r)
  | text {bound s r} : Evaluates w bound (.text s) r (.ok (.text s) r)
  | var {bound name v r} : w.lookup? bound name = some v → Evaluates w bound (.var name) r (.ok v r)
  | unknownVar {bound name r} : w.lookup? bound name = none →
      Evaluates w bound (.var name) r (.error (.unknownVariable name) r)
  | call {bound name args f values r r' result} : w.functions.get? name = some f →
      EvaluatesAll w bound args r (.ok values r') → Calls w bound name values f r' result →
      Evaluates w bound (.call name args) r (inCall name result)
  | badArgument {bound name args f e r r'} : w.functions.get? name = some f →
      EvaluatesAll w bound args r (.error e r') →
      Evaluates w bound (.call name args) r (.error e r')
  | unknownCall {bound name args r} : w.functions.get? name = none →
      Evaluates w bound (.call name args) r (.error (.unknownFunction name) r)
  | transform {bound t operand x r r'} : Evaluates w bound operand r (.ok (.number x) r') →
      Evaluates w bound (.transform t operand) r (.ok (.number (t.apply x)) r')
  | transformText {bound t operand s r r'} : Evaluates w bound operand r (.ok (.text s) r') →
      Evaluates w bound (.transform t operand) r (.error (.notNumber .text) r')
  | badOperand {bound t operand e r r'} : Evaluates w bound operand r (.error e r') →
      Evaluates w bound (.transform t operand) r (.error e r')
  | chain {bound op group first rest v r r' result} : Evaluates w bound first r (.ok v r') →
      EvaluatesRest w bound op v rest r' result →
      Evaluates w bound (.chain op group (first :: rest)) r result
  | badFirst {bound op group first rest e r r'} : Evaluates w bound first r (.error e r') →
      Evaluates w bound (.chain op group (first :: rest)) r (.error e r')
  | emptyChain {bound op group r} : Evaluates w bound (.chain op group []) r (.error .empty r)

/-- The values of some trees, from left to right. -/
inductive EvaluatesAll (w : Workspace) :
    Bindings → List Tree → Random → EStateM.Result EvalError Random (List Value) → Prop
  | nil {bound r} : EvaluatesAll w bound [] r (.ok [] r)
  | cons {bound t rest v vs r r' r''} : Evaluates w bound t r (.ok v r') →
      EvaluatesAll w bound rest r' (.ok vs r'') →
      EvaluatesAll w bound (t :: rest) r (.ok (v :: vs) r'')
  | badHead {bound t rest e r r'} : Evaluates w bound t r (.error e r') →
      EvaluatesAll w bound (t :: rest) r (.error e r')
  | badTail {bound t rest v e r r' r''} : Evaluates w bound t r (.ok v r') →
      EvaluatesAll w bound rest r' (.error e r'') →
      EvaluatesAll w bound (t :: rest) r (.error e r'')

/-- The value of a chain whose operands so far gave a value. -/
inductive EvaluatesRest (w : Workspace) : Bindings → Op → Value → List Tree → Random →
    EStateM.Result EvalError Random Value → Prop
  | nil {bound op v r} : EvaluatesRest w bound op v [] r (.ok v r)
  | cons {bound op v x y t rest r r' result} : Evaluates w bound t r (.ok x r') →
      op.apply v x = .ok y → EvaluatesRest w bound op y rest r' result →
      EvaluatesRest w bound op v (t :: rest) r result
  | badOperand {bound op v e t rest r r'} : Evaluates w bound t r (.error e r') →
      EvaluatesRest w bound op v (t :: rest) r (.error e r')
  | mismatch {bound op v x e t rest r r'} : Evaluates w bound t r (.ok x r') →
      op.apply v x = .error e → EvaluatesRest w bound op v (t :: rest) r (.error e r')

/-- The value of a call with the values of its arguments. A body is evaluated however many calls are
under way. -/
inductive Calls (w : Workspace) : Bindings → String → Args → Function → Random →
    EStateM.Result CallError Random Value → Prop
  | builtin {bound name args b r} : Calls w bound name args (.builtin b) r (b.apply args r)
  | array {bound name args g v r} : w.arrays.get? name = some g →
      Workspace.readElement g args = .ok v → Calls w bound name args .array r (.ok v r)
  | badSubscript {bound name args g e r} : w.arrays.get? name = some g →
      Workspace.readElement g args = .error e → Calls w bound name args .array r (.error e r)
  | noArray {bound name args r} : w.arrays.get? name = none →
      Calls w bound name args .array r (.error (.body (.unknownFunction name)) r)
  | argumentCount {bound name args params body e r} : args.expect params.length = .error e →
      Calls w bound name args (.defined params body) r (.error e r)
  | body {bound name args params body r result} : args.expect params.length = .ok () →
      Evaluates w (params.zip args ++ bound) body.tree r result →
      Calls w bound name args (.defined params body) r (inBody result)

end

end Unlimited

/-! ## Chains of calls -/

/-- A function of this name is called somewhere in the tree. -/
inductive Tree.HasCall (name : String) : Tree → Prop
  | here {args : List Tree} : HasCall name (.call name args)
  | argument {f : String} {args : List Tree} {t : Tree} : t ∈ args → HasCall name t →
      HasCall name (.call f args)
  | operand {k : Transform} {t : Tree} : HasCall name t → HasCall name (.transform k t)
  | link {op : Op} {group : Bool} {ts : List Tree} {t : Tree} : t ∈ ts → HasCall name t →
      HasCall name (.chain op group ts)

namespace Workspace

/-- The first function of the chain is called in the tree, and each of the others in the body of the
one before it. All of them are defined functions. -/
inductive CallChain (w : Workspace) : Tree → List String → Prop
  | nil {t : Tree} : CallChain w t []
  | cons {t : Tree} {name : String} {params : List String} {body : Expr} {chain : List String} :
      t.HasCall name → w.functions.get? name = some (.defined params body) →
      CallChain w body.tree chain → CallChain w t (name :: chain)

/-- No chain of calls from the tree is longer than `n`. -/
def ChainsWithin (w : Workspace) (n : Nat) (t : Tree) : Prop :=
  ∀ chain, w.CallChain t chain → chain.length ≤ n

/-- The body of the defined function `f` has a call of the defined function `g`. -/
def Invokes (w : Workspace) (f g : String) : Prop :=
  ∃ params body, w.functions.get? f = some (.defined params body) ∧ w.CallChain body.tree [g]

section
variable {w : Workspace} {n : Nat} {t t' : Tree} {name : String} {args ts : List Tree}

theorem ChainsWithin.mono (h : w.ChainsWithin n t)
    (hsub : ∀ name, t'.HasCall name → t.HasCall name) : w.ChainsWithin n t' := by
  intro chain hchain
  cases hchain with
  | nil => exact Nat.zero_le n
  | cons hcall hf hbody => exact h _ (.cons (hsub _ hcall) hf hbody)

/-- The chains from the body of a function that is called are shorter by one. -/
theorem ChainsWithin.called (h : w.ChainsWithin n t) (hcall : t.HasCall name)
    {params : List String} {body : Expr}
    (hf : w.functions.get? name = some (.defined params body)) :
    ∃ k, n = k + 1 ∧ w.ChainsWithin k body.tree := by
  have hone : 1 ≤ n := h [name] (.cons hcall hf .nil)
  refine ⟨n - 1, by omega, fun chain hchain => ?_⟩
  have hlength := h (name :: chain) (.cons hcall hf hchain)
  rw [List.length_cons] at hlength
  omega

theorem chainsWithin_leaf (h : ∀ name, ¬ t.HasCall name) : w.ChainsWithin n t := by
  intro chain hchain
  cases hchain with
  | nil => exact Nat.zero_le n
  | cons hcall => exact absurd hcall (h _)

/-- A call has the chains of its arguments, and those that go on in the body of its function. That
the arguments have calls in them makes none of these longer. -/
theorem chainsWithin_call : w.ChainsWithin n (.call name args) ↔
    (∀ a ∈ args, w.ChainsWithin n a) ∧
      ∀ params body, w.functions.get? name = some (.defined params body) →
        ∃ k, n = k + 1 ∧ w.ChainsWithin k body.tree := by
  constructor
  · intro h
    exact ⟨fun a ha => h.mono fun _ => .argument ha, fun params body hf => h.called .here hf⟩
  · rintro ⟨hargs, hown⟩ chain hchain
    cases hchain with
    | nil => exact Nat.zero_le n
    | cons hcall hf hbody =>
      cases hcall with
      | here =>
        obtain ⟨k, rfl, hk⟩ := hown _ _ hf
        exact Nat.succ_le_succ (hk _ hbody)
      | argument ha hcall => exact hargs _ ha _ (.cons hcall hf hbody)

theorem chainsWithin_transform {k : Transform} :
    w.ChainsWithin n (.transform k t) ↔ w.ChainsWithin n t := by
  constructor
  · exact fun h => h.mono fun _ => .operand
  · refine fun h => h.mono fun _ hcall => ?_
    cases hcall with
    | operand hcall => exact hcall

theorem chainsWithin_chain {op : Op} {group : Bool} :
    w.ChainsWithin n (.chain op group ts) ↔ ∀ a ∈ ts, w.ChainsWithin n a := by
  constructor
  · exact fun h a ha => h.mono fun _ => .link ha
  · rintro h chain hchain
    cases hchain with
    | nil => exact Nat.zero_le n
    | cons hcall hf hbody =>
      cases hcall with
      | link ha hcall => exact h _ ha _ (.cons hcall hf hbody)

end

/-! ## Recursion -/

section
variable {w : Workspace} {n : Nat} {t : Tree} {f g : String} {params : List String} {body : Expr}

/-- Along calls of calls the chains get shorter. -/
theorem ChainsWithin.transGen (h : w.ChainsWithin n body.tree)
    (hf : w.functions.get? f = some (.defined params body))
    (hfg : Relation.TransGen w.Invokes f g) :
    ∃ params' body' k, w.functions.get? g = some (.defined params' body') ∧ k < n ∧
      w.ChainsWithin k body'.tree := by
  have hstep {f g : String} {params : List String} {body : Expr} {n : Nat}
      (h : w.ChainsWithin n body.tree) (hf : w.functions.get? f = some (.defined params body))
      (hfg : w.Invokes f g) :
      ∃ params' body' k, w.functions.get? g = some (.defined params' body') ∧ k < n ∧
        w.ChainsWithin k body'.tree := by
    obtain ⟨_, _, hf', hchain⟩ := hfg
    cases hf.symm.trans hf'
    cases hchain with
    | cons hcall hg _ =>
      obtain ⟨k, rfl, hk⟩ := h.called hcall hg
      exact ⟨_, _, k, hg, k.lt_succ_self, hk⟩
  induction hfg with
  | single hfg => exact hstep h hf hfg
  | tail _ hgh ih =>
    obtain ⟨_, _, k, hg, hlt, hk⟩ := ih
    obtain ⟨params', body', k', hh, hlt', hk'⟩ := hstep hk hg hgh
    exact ⟨params', body', k', hh, Nat.lt_trans hlt' hlt, hk'⟩

/-- A function whose chains have a bound does not come to call itself. -/
theorem ChainsWithin.not_recursive (h : w.ChainsWithin n body.tree)
    (hf : w.functions.get? f = some (.defined params body)) :
    ¬ Relation.TransGen w.Invokes f f := by
  -- Going round once more, the same body would have a smaller bound.
  induction n using Nat.strongRecOn with
  | ind n ih =>
    intro hcycle
    obtain ⟨_, _, k, hf', hlt, hk⟩ := h.transGen hf hcycle
    cases hf.symm.trans hf'
    exact ih k hlt hk hcycle

theorem ChainsWithin.no_recursion (h : w.ChainsWithin n t) {chain : List String}
    (hchain : w.CallChain t chain) (hmem : f ∈ chain) : ¬ Relation.TransGen w.Invokes f f := by
  induction hchain generalizing n with
  | nil => cases hmem
  | cons hcall hf _ ih =>
    obtain ⟨k, -, hk⟩ := h.called hcall hf
    rcases List.mem_cons.mp hmem with rfl | hmem
    · exact hk.not_recursive hf
    · exact ih hk hmem

end

end Workspace

/-! ## Along evaluations -/

section
variable {w : Workspace}

/-- What it takes for all chains from a call to be within the limit when `depth` calls are under
way. -/
theorem Workspace.chainsWithin_call_depth {depth : Nat} {name : String} {args : List Tree} :
    w.ChainsWithin (maxCallDepth - depth) (.call name args) ↔
      (∀ a ∈ args, w.ChainsWithin (maxCallDepth - depth) a) ∧
        ∀ params body, w.functions.get? name = some (.defined params body) →
          depth < maxCallDepth ∧ w.ChainsWithin (maxCallDepth - (depth + 1)) body.tree := by
  rw [chainsWithin_call]
  refine and_congr_right fun _ => forall₂_congr fun params body => imp_congr_right fun _ => ?_
  constructor
  · rintro ⟨k, hk, hchains⟩
    obtain rfl : k = maxCallDepth - (depth + 1) := by omega
    exact ⟨by omega, hchains⟩
  · rintro ⟨hdepth, hchains⟩
    exact ⟨_, by omega, hchains⟩

theorem inCall_eq_ok {name : String} {result : EStateM.Result CallError Random Value} {v : Value}
    {r : Random} : inCall name result = .ok v r ↔ result = .ok v r := by
  cases result <;> simp [inCall]

theorem inBody_eq_ok {result : EStateM.Result EvalError Random Value} {v : Value} {r : Random} :
    inBody result = .ok v r ↔ result = .ok v r := by
  cases result <;> simp [inBody]

mutual

/-- An evaluation that succeeds goes down every chain. -/
theorem Evaluates.chainsWithin {depth : Nat} {bound : Bindings} {t : Tree} {r r' : Random}
    {v : Value} {result : EStateM.Result EvalError Random Value}
    (h : Evaluates w depth bound t r result) (hok : result = .ok v r') :
    w.ChainsWithin (maxCallDepth - depth) t :=
  match h with
  | .number | .text | .var _ => Workspace.chainsWithin_leaf (by rintro _ ⟨⟩)
  | .call hf hargs hcall =>
    Workspace.chainsWithin_call_depth.mpr ⟨hargs.chainsWithin rfl, fun _ _ hf' =>
      hcall.chainsWithin (inCall_eq_ok.mp hok) (Option.some.inj (hf.symm.trans hf'))⟩
  | .transform h => Workspace.chainsWithin_transform.mpr (h.chainsWithin rfl)
  | .chain hfirst hrest => Workspace.chainsWithin_chain.mpr
      (List.forall_mem_cons.mpr ⟨hfirst.chainsWithin rfl, hrest.chainsWithin hok⟩)
  | .unknownVar _ | .badArgument _ _ | .unknownCall _ | .transformText _ | .badOperand _
  | .badFirst _ | .emptyChain => by cases hok

theorem EvaluatesAll.chainsWithin {depth : Nat} {bound : Bindings} {ts : List Tree} {r r' : Random}
    {vs : List Value} {result : EStateM.Result EvalError Random (List Value)}
    (h : EvaluatesAll w depth bound ts r result) (hok : result = .ok vs r') :
    ∀ t ∈ ts, w.ChainsWithin (maxCallDepth - depth) t :=
  match h with
  | .nil => by simp
  | .cons ht hrest => List.forall_mem_cons.mpr ⟨ht.chainsWithin rfl, hrest.chainsWithin rfl⟩
  | .badHead _ | .badTail _ _ => by cases hok

theorem EvaluatesRest.chainsWithin {depth : Nat} {bound : Bindings} {op : Op} {u v : Value}
    {ts : List Tree} {r r' : Random} {result : EStateM.Result EvalError Random Value}
    (h : EvaluatesRest w depth bound op u ts r result) (hok : result = .ok v r') :
    ∀ t ∈ ts, w.ChainsWithin (maxCallDepth - depth) t :=
  match h with
  | .nil => by simp
  | .cons ht _ hrest => List.forall_mem_cons.mpr ⟨ht.chainsWithin rfl, hrest.chainsWithin hok⟩
  | .badOperand _ | .mismatch _ _ => by cases hok

theorem Calls.chainsWithin {depth : Nat} {bound : Bindings} {name : String} {args : Args}
    {f : Function} {params : List String} {body : Expr} {r r' : Random} {v : Value}
    {result : EStateM.Result CallError Random Value}
    (h : Calls w depth bound name args f r result) (hok : result = .ok v r')
    (hf : f = .defined params body) :
    depth < maxCallDepth ∧ w.ChainsWithin (maxCallDepth - (depth + 1)) body.tree :=
  match h with
  | .body _ hdepth hbody =>
    have hchains := hbody.chainsWithin (inBody_eq_ok.mp hok)
    ⟨hdepth, (Function.defined.inj hf).2 ▸ hchains⟩
  | .argumentCount _ | .tooDeep _ _ => by cases hok
  | .builtin | .array _ _ | .badSubscript _ _ | .noArray _ => by cases hf

end

mutual

/-- The limit is not met where no chain is longer than it. -/
theorem Evaluates.unlimited {depth : Nat} {bound : Bindings} {t : Tree} {r : Random}
    {result : EStateM.Result EvalError Random Value} (h : Evaluates w depth bound t r result)
    (hchains : w.ChainsWithin (maxCallDepth - depth) t) : Unlimited.Evaluates w bound t r result :=
  match h with
  | .number => .number
  | .text => .text
  | .var h => .var h
  | .unknownVar h => .unknownVar h
  | .call hf hargs hcall =>
    have hparts := Workspace.chainsWithin_call_depth.mp hchains
    .call hf (hargs.unlimited hparts.1) (hcall.unlimited fun _ _ hd => hparts.2 _ _ (hd ▸ hf))
  | .badArgument hf hargs =>
    .badArgument hf (hargs.unlimited (Workspace.chainsWithin_call_depth.mp hchains).1)
  | .unknownCall h => .unknownCall h
  | .transform h => .transform (h.unlimited (Workspace.chainsWithin_transform.mp hchains))
  | .transformText h => .transformText (h.unlimited (Workspace.chainsWithin_transform.mp hchains))
  | .badOperand h => .badOperand (h.unlimited (Workspace.chainsWithin_transform.mp hchains))
  | .chain hfirst hrest =>
    have hparts := List.forall_mem_cons.mp (Workspace.chainsWithin_chain.mp hchains)
    .chain (hfirst.unlimited hparts.1) (hrest.unlimited hparts.2)
  | .badFirst h =>
    have hparts := List.forall_mem_cons.mp (Workspace.chainsWithin_chain.mp hchains)
    .badFirst (h.unlimited hparts.1)
  | .emptyChain => .emptyChain

theorem EvaluatesAll.unlimited {depth : Nat} {bound : Bindings} {ts : List Tree} {r : Random}
    {result : EStateM.Result EvalError Random (List Value)}
    (h : EvaluatesAll w depth bound ts r result)
    (hchains : ∀ t ∈ ts, w.ChainsWithin (maxCallDepth - depth) t) :
    Unlimited.EvaluatesAll w bound ts r result :=
  match h with
  | .nil => .nil
  | .cons ht hrest =>
    have hparts := List.forall_mem_cons.mp hchains
    .cons (ht.unlimited hparts.1) (hrest.unlimited hparts.2)
  | .badHead ht => .badHead (ht.unlimited (List.forall_mem_cons.mp hchains).1)
  | .badTail ht hrest =>
    have hparts := List.forall_mem_cons.mp hchains
    .badTail (ht.unlimited hparts.1) (hrest.unlimited hparts.2)

theorem EvaluatesRest.unlimited {depth : Nat} {bound : Bindings} {op : Op} {v : Value}
    {ts : List Tree} {r : Random} {result : EStateM.Result EvalError Random Value}
    (h : EvaluatesRest w depth bound op v ts r result)
    (hchains : ∀ t ∈ ts, w.ChainsWithin (maxCallDepth - depth) t) :
    Unlimited.EvaluatesRest w bound op v ts r result :=
  match h with
  | .nil => .nil
  | .cons ht hop hrest =>
    have hparts := List.forall_mem_cons.mp hchains
    .cons (ht.unlimited hparts.1) hop (hrest.unlimited hparts.2)
  | .badOperand ht => .badOperand (ht.unlimited (List.forall_mem_cons.mp hchains).1)
  | .mismatch ht hop => .mismatch (ht.unlimited (List.forall_mem_cons.mp hchains).1) hop

theorem Calls.unlimited {depth : Nat} {bound : Bindings} {name : String} {args : Args}
    {f : Function} {r : Random} {result : EStateM.Result CallError Random Value}
    (h : Calls w depth bound name args f r result)
    (hchains : ∀ params body, f = .defined params body →
      depth < maxCallDepth ∧ w.ChainsWithin (maxCallDepth - (depth + 1)) body.tree) :
    Unlimited.Calls w bound name args f r result :=
  match h with
  | .builtin => .builtin
  | .array hg hv => .array hg hv
  | .badSubscript hg hv => .badSubscript hg hv
  | .noArray hg => .noArray hg
  | .argumentCount h => .argumentCount h
  | .tooDeep _ hdepth => absurd (hchains _ _ rfl).1 (Nat.not_lt.mpr hdepth)
  | .body h _ hbody => .body h (hbody.unlimited (hchains _ _ rfl).2)

end

mutual

/-- What is evaluated without a limit is evaluated so with it, where no chain is longer. -/
theorem Unlimited.Evaluates.limited {bound : Bindings} {t : Tree} {r : Random}
    {result : EStateM.Result EvalError Random Value} (h : Unlimited.Evaluates w bound t r result)
    {depth : Nat} (hchains : w.ChainsWithin (maxCallDepth - depth) t) :
    ClassicBasic.Evaluates w depth bound t r result :=
  match h with
  | .number => .number
  | .text => .text
  | .var h => .var h
  | .unknownVar h => .unknownVar h
  | .call hf hargs hcall =>
    have hparts := Workspace.chainsWithin_call_depth.mp hchains
    .call hf (hargs.limited hparts.1) (hcall.limited fun _ _ hd => hparts.2 _ _ (hd ▸ hf))
  | .badArgument hf hargs =>
    .badArgument hf (hargs.limited (Workspace.chainsWithin_call_depth.mp hchains).1)
  | .unknownCall h => .unknownCall h
  | .transform h => .transform (h.limited (Workspace.chainsWithin_transform.mp hchains))
  | .transformText h => .transformText (h.limited (Workspace.chainsWithin_transform.mp hchains))
  | .badOperand h => .badOperand (h.limited (Workspace.chainsWithin_transform.mp hchains))
  | .chain hfirst hrest =>
    have hparts := List.forall_mem_cons.mp (Workspace.chainsWithin_chain.mp hchains)
    .chain (hfirst.limited hparts.1) (hrest.limited hparts.2)
  | .badFirst h =>
    have hparts := List.forall_mem_cons.mp (Workspace.chainsWithin_chain.mp hchains)
    .badFirst (h.limited hparts.1)
  | .emptyChain => .emptyChain

theorem Unlimited.EvaluatesAll.limited {bound : Bindings} {ts : List Tree} {r : Random}
    {result : EStateM.Result EvalError Random (List Value)}
    (h : Unlimited.EvaluatesAll w bound ts r result) {depth : Nat}
    (hchains : ∀ t ∈ ts, w.ChainsWithin (maxCallDepth - depth) t) :
    ClassicBasic.EvaluatesAll w depth bound ts r result :=
  match h with
  | .nil => .nil
  | .cons ht hrest =>
    have hparts := List.forall_mem_cons.mp hchains
    .cons (ht.limited hparts.1) (hrest.limited hparts.2)
  | .badHead ht => .badHead (ht.limited (List.forall_mem_cons.mp hchains).1)
  | .badTail ht hrest =>
    have hparts := List.forall_mem_cons.mp hchains
    .badTail (ht.limited hparts.1) (hrest.limited hparts.2)

theorem Unlimited.EvaluatesRest.limited {bound : Bindings} {op : Op} {v : Value} {ts : List Tree}
    {r : Random} {result : EStateM.Result EvalError Random Value}
    (h : Unlimited.EvaluatesRest w bound op v ts r result) {depth : Nat}
    (hchains : ∀ t ∈ ts, w.ChainsWithin (maxCallDepth - depth) t) :
    ClassicBasic.EvaluatesRest w depth bound op v ts r result :=
  match h with
  | .nil => .nil
  | .cons ht hop hrest =>
    have hparts := List.forall_mem_cons.mp hchains
    .cons (ht.limited hparts.1) hop (hrest.limited hparts.2)
  | .badOperand ht => .badOperand (ht.limited (List.forall_mem_cons.mp hchains).1)
  | .mismatch ht hop => .mismatch (ht.limited (List.forall_mem_cons.mp hchains).1) hop

theorem Unlimited.Calls.limited {bound : Bindings} {name : String} {args : Args} {f : Function}
    {r : Random} {result : EStateM.Result CallError Random Value}
    (h : Unlimited.Calls w bound name args f r result) {depth : Nat}
    (hchains : ∀ params body, f = .defined params body →
      depth < maxCallDepth ∧ w.ChainsWithin (maxCallDepth - (depth + 1)) body.tree) :
    ClassicBasic.Calls w depth bound name args f r result :=
  match h with
  | .builtin => .builtin
  | .array hg hv => .array hg hv
  | .badSubscript hg hv => .badSubscript hg hv
  | .noArray hg => .noArray hg
  | .argumentCount h => .argumentCount h
  | .body h hbody =>
    .body h (hchains _ _ rfl).1 (hbody.limited (hchains _ _ rfl).2)

end

end

/-! ## Calls in arguments -/

/-- A call with other arguments around the one that is left open. -/
structure Tree.Frame where
  name : String
  before : List Tree
  after : List Tree

namespace Tree.Frame

def fill (c : Frame) (t : Tree) : Tree := .call c.name (c.before ++ t :: c.after)

/-- The call without the open argument. -/
def alone (c : Frame) : Tree := .call c.name (c.before ++ c.after)

end Tree.Frame

/-- `t` inside calls of calls, the outermost first. -/
def Tree.nest (frames : List Tree.Frame) (t : Tree) : Tree := frames.foldr Tree.Frame.fill t

namespace Workspace

variable {w : Workspace} {n : Nat}

theorem chainsWithin_fill {c : Tree.Frame} {t : Tree} :
    w.ChainsWithin n (c.fill t) ↔ w.ChainsWithin n c.alone ∧ w.ChainsWithin n t := by
  rw [Tree.Frame.fill, Tree.Frame.alone, chainsWithin_call, chainsWithin_call]
  simp only [List.forall_mem_append, List.forall_mem_cons]
  tauto

theorem chainsWithin_nest {frames : List Tree.Frame} {t : Tree} :
    w.ChainsWithin n (Tree.nest frames t) ↔
      (∀ c ∈ frames, w.ChainsWithin n c.alone) ∧ w.ChainsWithin n t := by
  induction frames with
  | nil => simp [Tree.nest]
  | cons c frames ih =>
    rw [Tree.nest, List.foldr_cons, ← Tree.nest, chainsWithin_fill, ih, List.forall_mem_cons,
      and_assoc]

theorem eval_eq_iff_unlimited {t : Tree} (h : w.ChainsWithin maxCallDepth t) {bound : Bindings}
    {r : Random} {result : EStateM.Result EvalError Random Value} :
    w.eval bound t r = result ↔ Unlimited.Evaluates w bound t r result := by
  rw [eval]
  constructor
  · exact fun heval => ((w.evaluates_iff 0 bound t r result).mpr heval).unlimited h
  · exact fun hruns => (w.evaluates_iff 0 bound t r result).mp (hruns.limited h)

/-- **The limit on calls under way refuses long chains and nothing else.** If an expression has a
value, no chain of calls that starts in it is longer than 64, so that no function in any of them
comes to call itself. If no chain is longer than 64, the expression comes to the value or the fault
that it comes to without a limit. So does an expression inside the arguments of calls, however many
there are around it, if no chain is longer that starts in it or in one of these calls alone. -/
theorem depth_limit_by_chains (w : Workspace) (bound : Bindings) (t : Tree) (r : Random) :
    (∀ v r', w.eval bound t r = .ok v r' →
      w.ChainsWithin 64 t ∧
        ∀ chain, w.CallChain t chain → ∀ f ∈ chain, ¬ Relation.TransGen w.Invokes f f) ∧
      (w.ChainsWithin 64 t → ∀ result,
        w.eval bound t r = result ↔ Unlimited.Evaluates w bound t r result) ∧
      ∀ frames, (∀ c ∈ frames, w.ChainsWithin 64 c.alone) → w.ChainsWithin 64 t → ∀ result,
        w.eval bound (Tree.nest frames t) r = result ↔
          Unlimited.Evaluates w bound (Tree.nest frames t) r result := by
  refine ⟨fun v r' heval => ?_, fun h result => eval_eq_iff_unlimited h,
    fun frames hframes ht result => eval_eq_iff_unlimited (chainsWithin_nest.mpr ⟨hframes, ht⟩)⟩
  have hruns : Evaluates w 0 bound t r (.ok v r') := (w.evaluates_iff 0 bound t r _).mpr heval
  have hchains : w.ChainsWithin 64 t := hruns.chainsWithin rfl
  exact ⟨hchains, fun chain hchain f hf => hchains.no_recursion hchain hf⟩

/-- One function gives its argument back, the other one calls itself. -/
def echoAndRunaway : Workspace where
  functions := (({} : Table Function).insert "FNE" (.defined ["X"] ⟨"X", .var "X"⟩)).insert "FNR"
    (.defined ["X"] ⟨"FNR(X)", .call "FNR" [.var "X"]⟩)

theorem echo_get? : echoAndRunaway.functions.get? "FNE" = some (.defined ["X"] ⟨"X", .var "X"⟩) := rfl

theorem echo_unlimited (n : Nat) (r : Random) :
    Unlimited.Evaluates echoAndRunaway [] (Tree.nest (List.replicate n ⟨"FNE", [], []⟩) (.text "T")) r
      (.ok (.text "T") r) := by
  induction n with
  | zero => exact .text
  | succ n ih =>
    have hcall : Unlimited.Calls echoAndRunaway [] "FNE" [.text "T"]
        (.defined ["X"] ⟨"X", .var "X"⟩) r (inBody (.ok (.text "T") r)) := .body rfl (.var rfl)
    exact Unlimited.Evaluates.call echo_get? (.cons ih .nil) hcall

/-- A hundred calls in each other's arguments are not too many; a call of the function that calls
itself has no value. -/
theorem depth_limit_by_chains_echo :
    echoAndRunaway.eval [] (Tree.nest (List.replicate 100 ⟨"FNE", [], []⟩) (.text "T"))
        (Random.ofSeed 0) = .ok (.text "T") (Random.ofSeed 0) ∧
      ∀ v r', echoAndRunaway.eval [] (.call "FNR" [.text "T"]) (Random.ofSeed 0) ≠ .ok v r' := by
  constructor
  · have hframe : echoAndRunaway.ChainsWithin 64 (Tree.Frame.alone ⟨"FNE", [], []⟩) := by
      refine chainsWithin_call.mpr ⟨by simp, fun params body hf => ?_⟩
      cases echo_get?.symm.trans hf
      exact ⟨63, rfl, chainsWithin_leaf (by rintro _ ⟨⟩)⟩
    have hframes : ∀ c ∈ List.replicate 100 (⟨"FNE", [], []⟩ : Tree.Frame),
        echoAndRunaway.ChainsWithin 64 c.alone := by
      intro c hc
      rw [List.eq_of_mem_replicate hc]
      exact hframe
    exact ((depth_limit_by_chains echoAndRunaway [] (.text "T") (Random.ofSeed 0)).2.2 _ hframes
      (chainsWithin_leaf (by rintro _ ⟨⟩)) _).mpr (echo_unlimited 100 _)
  · intro v r' heval
    have hself : echoAndRunaway.Invokes "FNR" "FNR" := ⟨_, _, rfl, .cons .here rfl .nil⟩
    obtain ⟨-, hrecursion⟩ := (depth_limit_by_chains echoAndRunaway [] _ _).1 v r' heval
    exact hrecursion ["FNR"] (.cons .here rfl .nil) "FNR" (by simp) (.single hself)

end Workspace

end ClassicBasic
