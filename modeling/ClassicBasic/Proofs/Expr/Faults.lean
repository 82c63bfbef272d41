import ClassicBasic.Machine.Error
import ClassicBasic.Proofs.Expr.BigStep
import ClassicBasic.Proofs.Expr.Builtins
import ClassicBasic.Proofs.Expr.Proper

/-!
# Why evaluation fails

A fault of evaluation has a code of the runtime category, unless it is that of the empty chain,
which has no value. A proper tree has no empty chain, and if the bodies of all functions are proper
then evaluation never comes to one, however deep the calls nest. The induction is on the derivation
of the result: each of its rules names the fault that it ends with.
-/

namespace ClassicBasic

/-- Whether a code is one of the faults of running programs. -/
def Code.IsRuntime (c : Code) : Prop := 400 ≤ c.number ∧ c.number ≤ 499

instance (c : Code) : Decidable c.IsRuntime := inferInstanceAs (Decidable (_ ∧ _))

theorem Code.IsRuntime.category {c : Code} (h : c.IsRuntime) : c.category = .runtime := by
  obtain ⟨hlow, -⟩ := h
  unfold Code.category
  rw [if_neg (by simp; omega), if_neg (by simp; omega), if_neg (by simp; omega)]

/-- The functions that a program has defined have proper bodies. -/
def Workspace.Proper (w : Workspace) : Prop :=
  ∀ name params body, w.functions.get? name = some (.defined params body) → body.tree.Proper

/-- A result that is a fault has a code of the runtime category. -/
def RuntimeFault {ε σ α : Type} (code : ε → Code) : EStateM.Result ε σ α → Prop
  | .ok _ _ => True
  | .error e _ => (code e).IsRuntime

namespace RuntimeFault

theorem inCall {name : String} {result : EStateM.Result CallError Random Value}
    (h : RuntimeFault CallError.code result) :
    RuntimeFault EvalError.code (inCall name result) := by
  cases result with
  | ok => trivial
  | error e r => exact h

theorem inBody {result : EStateM.Result EvalError Random Value}
    (h : RuntimeFault EvalError.code result) : RuntimeFault CallError.code (inBody result) := by
  cases result with
  | ok => trivial
  | error e r => exact h

end RuntimeFault

theorem CallError.isRuntime_of_isOwn {e : CallError} (h : e.isOwn = true) : e.code.IsRuntime := by
  cases e with
  | argumentCount | unreadable | tooDeep => exact (by decide : Code.functionFailed.IsRuntime)
  | argumentKind => exact (by decide : Code.typeMismatch.IsRuntime)
  | range => exact (by decide : Code.indexOutOfRange.IsRuntime)
  | body cause => cases h

theorem Op.apply_isRuntime {op : Op} {v x : Value} {e : EvalError} (h : op.apply v x = .error e) :
    e.code.IsRuntime := by
  have hmismatch : Code.typeMismatch.IsRuntime := by decide
  unfold Op.apply at h
  split at h
  · cases h
  · split at h
    · cases h
    · cases h
      exact hmismatch
  · cases h
    exact hmismatch

namespace Workspace

theorem coordinatesFrom_faults (args : Args) (position : Nat) :
    FaultsAre (·.isOwn = true) (coordinatesFrom position args) := by
  induction args generalizing position with
  | nil => exact .ok []
  | cons v rest ih =>
    cases v with
    | text s => exact .error rfl
    | number x =>
      rw [coordinatesFrom]
      split
      · exact .bind (ih (position + 1)) fun _ => .ok _
      · exact .error rfl

theorem readElement_faults (g : Grid) (args : Args) :
    FaultsAre (·.isOwn = true) (readElement g args) := by
  refine .bind (coordinatesFrom_faults args 1) fun coordinates => ?_
  split
  · exact .ok _
  · exact .error rfl

end Workspace

/-! ## Along a derivation -/

section
variable {w : Workspace}

mutual

theorem Evaluates.runtimeFault (hw : w.Proper) {depth : Nat} {bound : Bindings} {t : Tree}
    {r : Random} {result : EStateM.Result EvalError Random Value}
    (h : Evaluates w depth bound t r result) (ht : t.Proper) :
    RuntimeFault EvalError.code result :=
  match h, ht with
  | .number, _ | .text, _ | .var _, _ | .transform _, _ => trivial
  | .unknownVar _, _ | .unknownCall _, _ => (by decide : Code.undefinedName.IsRuntime)
  | .transformText _, _ => (by decide : Code.typeMismatch.IsRuntime)
  | .call hf _ hcall, _ => (hcall.runtimeFault hw hf).inCall
  | .badArgument _ hargs, .call hproper => hargs.runtimeFault hw hproper
  | .badOperand h, .transform hproper => h.runtimeFault hw hproper
  | .chain _ hrest, .chain _ _ hproper => hrest.runtimeFault hw (List.forall_mem_cons.mp hproper).2
  | .badFirst h, .chain _ _ hproper => h.runtimeFault hw (List.forall_mem_cons.mp hproper).1
  | .emptyChain, .chain hne _ _ => absurd rfl hne

theorem EvaluatesAll.runtimeFault (hw : w.Proper) {depth : Nat} {bound : Bindings} {ts : List Tree}
    {r : Random} {result : EStateM.Result EvalError Random (List Value)}
    (h : EvaluatesAll w depth bound ts r result) (hts : ∀ t ∈ ts, t.Proper) :
    RuntimeFault EvalError.code result :=
  match h with
  | .nil | .cons _ _ => trivial
  | .badHead h => h.runtimeFault hw (List.forall_mem_cons.mp hts).1
  | .badTail _ hrest => hrest.runtimeFault hw (List.forall_mem_cons.mp hts).2

theorem EvaluatesRest.runtimeFault (hw : w.Proper) {depth : Nat} {bound : Bindings} {op : Op}
    {v : Value} {ts : List Tree} {r : Random} {result : EStateM.Result EvalError Random Value}
    (h : EvaluatesRest w depth bound op v ts r result) (hts : ∀ t ∈ ts, t.Proper) :
    RuntimeFault EvalError.code result :=
  match h with
  | .nil => trivial
  | .cons _ _ hrest => hrest.runtimeFault hw (List.forall_mem_cons.mp hts).2
  | .badOperand h => h.runtimeFault hw (List.forall_mem_cons.mp hts).1
  | .mismatch _ hop => Op.apply_isRuntime hop

theorem Calls.runtimeFault (hw : w.Proper) {depth : Nat} {bound : Bindings} {name : String}
    {args : Args} {f : Function} {r : Random} {result : EStateM.Result CallError Random Value}
    (h : Calls w depth bound name args f r result) (hf : w.functions.get? name = some f) :
    RuntimeFault CallError.code result :=
  match h with
  | @Calls.builtin _ _ _ _ args b r => by
    cases hresult : b.apply args r with
    | ok => trivial
    | error e r' =>
      exact CallError.isRuntime_of_isOwn ((b.apply_gives args).error trivial hresult).2
  | .array _ _ => trivial
  | .badSubscript _ he => CallError.isRuntime_of_isOwn (Workspace.readElement_faults _ _ _ he)
  | .noArray _ => (by decide : Code.undefinedName.IsRuntime)
  | .argumentCount he => CallError.isRuntime_of_isOwn (Args.expect_faults _ _ _ he)
  | .tooDeep _ _ => (by decide : Code.functionFailed.IsRuntime)
  | .body _ _ hbody => (hbody.runtimeFault hw (hw _ _ _ hf)).inBody

end

/-- The value of a proper tree: what faults there are have codes of the runtime category. -/
theorem Workspace.eval_meets (hw : w.Proper) {t : Tree} (ht : t.Proper) (bound : Bindings) :
    Meets (fun _ => True) (fun _ => True) (·.code.IsRuntime) (w.eval bound t) where
  ok _ _ := ⟨trivial, trivial⟩
  error {r e r'} _ h := by
    have hruns : Evaluates w 0 bound t r (.error e r') := (w.evaluates_iff 0 bound t r _).mpr h
    exact ⟨trivial, hruns.runtimeFault hw ht⟩

theorem Workspace.evalNumber_meets (hw : w.Proper) {t : Tree} (ht : t.Proper) :
    Meets (fun _ => True) (fun _ => True) (·.code.IsRuntime) (w.evalNumber t) := by
  refine .bind (w.eval_meets hw ht []) fun v _ => ?_
  split
  · exact .pure trivial
  · exact .throw (by decide : Code.typeMismatch.IsRuntime)

end

end ClassicBasic
