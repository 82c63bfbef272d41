import ClassicBasic.Proofs.Expr.Faults
import ClassicBasic.Proofs.Machine.Addresses
import ClassicBasic.Proofs.Statement.Expressions
import ClassicBasic.Proofs.Workspace

/-!
# Runs fail with runtime faults only

Of all faults of a run only that of an empty chain has a code outside the runtime category. The
expressions of a program were read, so they have none (`Statement.IsRead`, `Expr.parse_proper`), and
neither have the bodies of the functions that the program has defined so far, which is an invariant
of its machines (`Reachable.proper`). `Safe` says of an execution that it keeps this invariant and
fails with runtime faults only; each statement is safe if its expressions were read.
-/

namespace ClassicBasic

theorem Expr.IsRead.proper {e : Expr} (h : e.IsRead) : e.tree.Proper := by
  obtain ⟨cs, hparse⟩ := h
  exact Expr.parse_proper hparse

/-- The codes of all faults but those of expressions are of the runtime category. -/
theorem RuntimeError.isRuntime {e : RuntimeError}
    (h : ∀ cause, e = .expression cause → cause.code.IsRuntime) : e.code.IsRuntime := by
  cases e with
  | expression cause => exact h cause rfl
  | array name cause =>
    cases cause with
    | wrongKind => exact (by decide : Code.typeMismatch.IsRuntime)
    | _ => exact (by decide : Code.indexOutOfRange.IsRuntime)
  | undefinedLine => exact (by decide : Code.undefinedLine.IsRuntime)
  | nextWithoutFor => exact (by decide : Code.nextWithoutFor.IsRuntime)
  | returnWithoutGosub => exact (by decide : Code.returnWithoutGosub.IsRuntime)
  | outOfData => exact (by decide : Code.outOfData.IsRuntime)
  | onIndex => exact (by decide : Code.indexOutOfRange.IsRuntime)
  | unknownArray => exact (by decide : Code.undefinedName.IsRuntime)
  | notNumeric => exact (by decide : Code.typeMismatch.IsRuntime)
  | loopVariable => exact (by decide : Code.typeMismatch.IsRuntime)
  | stepLimit => exact (by decide : Code.stepLimit.IsRuntime)
  | inputClosed => exact (by decide : Code.inputClosed.IsRuntime)
  | console => exact (by decide : Code.consoleFailed.IsRuntime)

namespace Workspace

theorem withBuiltins_proper : ({} : Workspace).withBuiltins.Proper := by
  intro name params body h
  obtain ⟨b, hb, -⟩ | hold := withBuiltins_get? h
  · cases hb
  · cases hold

theorem Proper.insert {w : Workspace} (hw : w.Proper) (name : String) {f : Function}
    (hf : ∀ params body, f = .defined params body → body.tree.Proper) :
    ({ w with functions := w.functions.insert name f } : Workspace).Proper := by
  intro name' params body h
  rw [Table.get?_insert] at h
  split at h
  · exact hf params body (Option.some.inj h)
  · exact hw name' params body h

end Workspace

/-- The blocks of the lines of a program are its blocks. -/
theorem Line.HasBlock.program {p : Program} {line : Line} {b : Block}
    (h : line.HasBlock b) (hline : line ∈ p.lines) : p.HasBlock b := by
  induction h with
  | statements => exact .line hline
  | branch _ hst hb ih => exact .branch ih hst hb

namespace Machine

variable {α : Type}

/-- `x` keeps the bodies of functions proper and fails with runtime faults only. -/
abbrev Safe (x : Execution α) : Prop :=
  Meets (fun m => m.workspace.Proper) (fun _ => True) (·.code.IsRuntime) x

/-! ## Evaluating and storing -/

theorem throw_safe {e : RuntimeError}
    (h : ∀ cause, e ≠ .expression cause) : Safe (throw e : Execution α) :=
  .throw (RuntimeError.isRuntime fun cause he => absurd he (h cause))

theorem evaluate_safe {x : Workspace → Evaluation α}
    (h : ∀ w, w.Proper → Meets (fun _ => True) (fun _ => True) (·.code.IsRuntime) (x w)) :
    Safe (evaluate x) where
  ok {m a m'} hm hrun := by
    unfold evaluate at hrun
    split at hrun
    · cases hrun
      exact ⟨hm, trivial⟩
    · cases hrun
  error {m e m'} hm hrun := by
    unfold evaluate at hrun
    split at hrun
    · cases hrun
    · rename_i cause random hcause
      cases hrun
      exact ⟨hm, ((h m.workspace hm).error trivial hcause).2⟩

theorem value_safe {e : Expr} (he : e.IsRead) : Safe (value e) :=
  evaluate_safe fun _ hw => Workspace.eval_meets hw he.proper []

theorem number_safe {e : Expr} (he : e.IsRead) : Safe (number e) :=
  evaluate_safe fun _ hw => Workspace.evalNumber_meets hw he.proper

theorem setVariable_safe (name : String) (v : Value) : Safe (setVariable name v) :=
  .modify fun _ hm => hm

theorem setArray_safe (name : String) (g : Grid) : Safe (setArray name g) :=
  .modify fun _ hm => hm

theorem setFunction_safe (name : String) {f : Function}
    (hf : ∀ params body, f = .defined params body → body.tree.Proper) :
    Safe (setFunction name f) :=
  .modify fun _ hm => hm.insert name hf

theorem onArray_safe (name : String) (x : Except GridError α) : Safe (onArray name x) := by
  cases x with
  | ok a => exact .pure trivial
  | error e => exact throw_safe nofun

/-- The coordinates of an element, or the sizes of an array. -/
theorem subscripts_safe {a : Element} (ha : a.IsRead) (f : Float → Except GridError Nat) :
    Safe (a.subscripts.mapM fun s => do onArray a.name (f (← number s))) := by
  have hone : ∀ s ∈ a.subscripts, Safe (do onArray a.name (f (← number s))) :=
    fun s hs => .bind (number_safe (ha s hs)) fun x _ => onArray_safe a.name (f x)
  exact (Meets.mapM hone).imp fun _ _ => trivial

theorem storeElement_safe {a : Element} (ha : a.IsRead) (v : Value) : Safe (storeElement a v) := by
  refine .bind (subscripts_safe ha Grid.coordinate) fun coordinates _ => .bind .get fun m _ => ?_
  split
  · exact .bind (onArray_safe a.name _) fun g _ => setArray_safe a.name g
  · exact throw_safe nofun

theorem store_safe {t : Target} (ht : t.IsRead) (v : Value) : Safe (store v t) := by
  cases t with
  | scalar name => exact setVariable_safe name v
  | element a => exact storeElement_safe ht v

theorem dimension_safe {a : Element} (ha : a.IsRead) : Safe (dimension a) := by
  refine .bind (subscripts_safe ha Grid.sizeOf) fun sizes _ => ?_
  refine .bind (onArray_safe a.name _) fun g _ => ?_
  exact .bind (setFunction_safe a.name nofun) fun _ _ => setArray_safe a.name g

theorem convertFor_faults (name : String) (v : Value) :
    FaultsAre (·.code.IsRuntime) (convertFor name v) := by
  unfold convertFor
  split
  · split <;> exact .ok _
  · split
    · exact .ok _
    · split
      · exact .ok _
      · exact .error (RuntimeError.isRuntime nofun)

theorem readInto_safe {t : Target} (ht : t.IsRead) : Safe (readInto t) := by
  refine .bind .get fun m _ => ?_
  split
  · refine .bind (.modify fun _ hm => hm) fun _ _ => ?_
    exact .bind (.lift (convertFor_faults t.name _)) fun v _ => store_safe ht v
  · exact throw_safe nofun

/-! ## Jumps and loops -/

theorem lineNumbered_safe (p : Program) (number : Nat) : Safe (lineNumbered p number) := by
  unfold lineNumbered
  split
  · exact .pure trivial
  · exact throw_safe nofun

theorem gosub_safe (p : Program) (here : Position) (number : Nat) : Safe (gosub p here number) :=
  .bind (lineNumbered_safe p number) fun _ _ => .bind (.modify fun _ hm => hm) fun _ _ =>
    .pure trivial

theorem pick_safe (index : Int) (lines : List Nat) : Safe (pick index lines) := by
  unfold pick
  split
  · exact .pure trivial
  · exact throw_safe nofun

theorem beginLoop_safe (here : Position) (var : String) {first limit step : Expr}
    (hfirst : first.IsRead) (hlimit : limit.IsRead) (hstep : step.IsRead) :
    Safe (beginLoop here var first limit step) := by
  refine .bind (number_safe hfirst) fun x _ => .bind (number_safe hlimit) fun y _ => ?_
  refine .bind (number_safe hstep) fun z _ => .bind (setVariable_safe var _) fun _ _ => ?_
  exact .bind (.modify fun _ hm => hm) fun _ _ => .pure trivial

theorem nextLoop_safe (var : Option String) : Safe (nextLoop var) := by
  refine .bind .get fun m _ => ?_
  split
  · exact throw_safe nofun
  · split
    · split
      · refine .bind (setVariable_safe _ _) fun _ _ => ?_
        exact .bind (.modify fun _ hm => hm) fun _ _ => .pure trivial
      · exact .bind (.modify fun _ hm => hm) fun _ _ => .pure trivial
    · exact throw_safe nofun

theorem nextLoops_safe (vars : List String) : Safe (nextLoops vars) := by
  induction vars with
  | nil => exact .pure trivial
  | cons var rest ih =>
    refine .bind (nextLoop_safe (some var)) fun flow _ => ?_
    split
    · exact ih
    · exact .pure trivial

/-! ## Talking -/

theorem write_safe (s : String) : Safe (write s) := by
  refine .bind (.modify fun _ hm => hm) fun _ _ => .bind .get fun m _ => ?_
  split
  · exact .modify fun _ hm => hm
  · exact throw_safe nofun

theorem readLine_safe : Safe readLine := by
  refine .bind .get fun m _ => ?_
  split
  · refine .bind (.modify fun _ hm => hm) fun _ _ => ?_
    split
    · exact .bind (.modify fun _ hm => hm) fun _ _ => .pure trivial
    · exact throw_safe nofun
  · exact throw_safe nofun

theorem print_safe (s : Settings) {items : List PrintItem}
    (hitems : ∀ item ∈ items, ∀ e ∈ item.exprs, e.IsRead) : Safe (print s items) := by
  refine .bind (.forM fun item hitem => ?_) fun _ _ => ?_
  · cases item with
    | expr e =>
      have he : e.IsRead := hitems _ hitem e (by simp [PrintItem.exprs])
      exact .bind (value_safe he) fun v _ => write_safe v.display
    | comma => exact .bind .get fun m _ => write_safe _
    | semicolon => exact .pure trivial
  · split
    · exact .pure trivial
    · exact write_safe "\n"

theorem ask_safe (prompt : String) (targets : List Target) (attempts : Nat) :
    Safe (ask prompt targets attempts) := by
  induction attempts with
  | zero => exact throw_safe nofun
  | succ attempts ih =>
    refine .bind (write_safe _) fun _ _ => .bind readLine_safe fun line _ => ?_
    split
    · exact .pure trivial
    · exact .bind (write_safe _) fun _ _ => ih

theorem input_safe (prompt : Option String) {targets : List Target}
    (htargets : ∀ t ∈ targets, t.IsRead) : Safe (input prompt targets) := by
  refine .bind .get fun m _ => .bind (ask_safe _ targets _) fun values _ => ?_
  refine .forM fun tv htv => store_safe ?_ tv.2
  exact htargets tv.1 (List.of_mem_zip htv).1

/-! ## Statements -/

/-- A statement whose expressions were read is safe. -/
theorem execute_safe (p : Program) (s : Settings) (line : Line) (here : Position) {st : Statement}
    (hst : st.IsRead) : Safe (execute p s line here st) := by
  cases st with
  | data | remark | finish | stop => exact .pure trivial
  | define name params body =>
    have hbody : body.IsRead := hst body (by simp [Statement.exprs])
    refine .bind (setFunction_safe name ?_) fun _ _ => .pure trivial
    rintro params' body' ⟨⟩
    exact hbody.proper
  | dim arrays =>
    refine .bind (.forM fun a ha => dimension_safe fun e he => ?_) fun _ _ => .pure trivial
    exact hst e (List.mem_flatMap.mpr ⟨a, ha, he⟩)
  | forLoop var first limit step =>
    exact beginLoop_safe here var (hst _ (by simp [Statement.exprs]))
      (hst _ (by simp [Statement.exprs])) (hst _ (by simp [Statement.exprs]))
  | next vars =>
    cases vars with
    | nil => exact nextLoop_safe none
    | cons var rest => exact nextLoops_safe (var :: rest)
  | goto number => exact .bind (lineNumbered_safe p number) fun _ _ => .pure trivial
  | gosub number => exact gosub_safe p here number
  | returnFrom =>
    refine .bind .get fun m _ => ?_
    split
    · exact .bind (.modify fun _ hm => hm) fun _ _ => .pure trivial
    · exact throw_safe (by simp)
  | ifLine condition number =>
    refine .bind (value_safe (hst _ (by simp [Statement.exprs]))) fun v _ => ?_
    split
    · exact .bind (lineNumbered_safe p number) fun _ _ => .pure trivial
    · exact .pure trivial
  | ifElseLine condition number elseNumber =>
    refine .bind (value_safe (hst _ (by simp [Statement.exprs]))) fun v _ => ?_
    exact .bind (lineNumbered_safe p _) fun _ _ => .pure trivial
  | ifThen condition | ifElse condition =>
    refine .bind (value_safe (hst _ (by simp [Statement.exprs]))) fun v _ => ?_
    split <;> exact .pure trivial
  | input prompt targets =>
    refine .bind (input_safe prompt fun t ht e he => ?_) fun _ _ => .pure trivial
    exact hst e (List.mem_flatMap.mpr ⟨t, ht, he⟩)
  | letTo target e =>
    obtain ⟨he, htarget⟩ := List.forall_mem_cons.mp hst
    exact .bind (value_safe he) fun v _ => .bind (store_safe htarget v) fun _ _ => .pure trivial
  | assign var e =>
    refine .bind (value_safe (hst _ (by simp [Statement.exprs]))) fun v _ => ?_
    exact .bind (setVariable_safe var v) fun _ _ => .pure trivial
  | assignElement target e =>
    obtain ⟨he, htarget⟩ := List.forall_mem_cons.mp hst
    exact .bind (value_safe he) fun v _ => .bind (storeElement_safe htarget v) fun _ _ =>
      .pure trivial
  | onGoto index lines =>
    refine .bind (number_safe (hst _ (by simp [Statement.exprs]))) fun x _ => ?_
    refine .bind (pick_safe _ lines) fun number _ => ?_
    exact .bind (lineNumbered_safe p number) fun _ _ => .pure trivial
  | onGosub index lines =>
    refine .bind (number_safe (hst _ (by simp [Statement.exprs]))) fun x _ => ?_
    exact .bind (pick_safe _ lines) fun number _ => gosub_safe p here number
  | print items =>
    refine .bind (print_safe s fun item hitem e he => ?_) fun _ _ => .pure trivial
    exact hst e (List.mem_flatMap.mpr ⟨item, hitem, he⟩)
  | read targets =>
    refine .bind (.forM fun t ht => readInto_safe fun e he => ?_) fun _ _ => .pure trivial
    exact hst e (List.mem_flatMap.mpr ⟨t, ht, he⟩)
  | restore => exact .bind (.modify fun _ hm => hm) fun _ _ => .pure trivial

/-! ## Runs -/

section
variable {source : List Char} {p : Program} {s : Settings} {m m' final : Machine} {f : Failure}
  {fuel : Nat}

/-- The next statement of a machine was read. -/
theorem Addressed.pending_isRead (hp : Program.parse source = .ok p) (h : m.Addressed p)
    {line : Line} {st : Statement} (hnext : m.pending? p = some (line, st)) : st.IsRead := by
  obtain ⟨-, hst⟩ := pending?_eq_some.mp hnext
  obtain ⟨line', hline, hblock⟩ := (h.hasPlace hst).block
  have hprogram := hblock.program (List.mem_of_getElem? hline)
  exact hprogram.isRead hp (List.mem_of_getElem? hst)

/-- What a step leaves, and why it fails, if the next statement was read. -/
theorem step_safe (hm : m.workspace.Proper)
    (hread : ∀ line st, m.pending? p = some (line, st) → st.IsRead) :
    (m.step p s).machine.workspace.Proper ∧
      ∀ f m', m.step p s = .ended (.failed f) m' → f.cause.code.IsRuntime := by
  cases hnext : m.pending? p with
  | none =>
    rw [step_fellOff hnext]
    exact ⟨hm, nofun⟩
  | some next =>
    obtain ⟨line, st⟩ := next
    have hsafe := execute_safe p s line (p.settle m.position) (hread line st hnext)
    by_cases hs : s.allows (m.steps + 1) = true
    · rw [step_allowed hnext hs]
      cases hexec : execute p s line (p.settle m.position) st (m.begun p) with
      | ok flow m' =>
        have hm' : m'.workspace.Proper := (hsafe.ok (s := m.begun p) hm hexec).1
        cases flow with
        | next | jump | halt => exact ⟨hm', nofun⟩
      | error cause m' =>
        obtain ⟨hm', hcause⟩ := hsafe.error (s := m.begun p) hm hexec
        refine ⟨hm', ?_⟩
        rintro f m'' ⟨⟩
        exact hcause
    · obtain ⟨limit, hmax, hlimit⟩ := Settings.exists_limit hs
      rw [step_refused hnext hmax hlimit]
      refine ⟨hm, ?_⟩
      rintro f m' ⟨⟩
      exact RuntimeError.isRuntime nofun

theorem Reachable.proper (hp : Program.parse source = .ok p) (h : Reachable p s m) :
    m.workspace.Proper := by
  induction h with
  | start => exact Workspace.withBuiltins_proper
  | step hm ih => exact (step_safe ih fun _ _ => hm.addressed.pending_isRead hp).1
  | restart _ ih => exact ih
  | console _ _ ih => exact ih

/-- **Runs fail with runtime faults only.** Whenever a run of a program that was read ends in a
failure, whatever ran before it, the settings and the console, the failure is reported with a code
from 400 to 499, which is of the runtime category and not that of a malformed expression. -/
theorem Reachable.failure_isRuntime (hp : Program.parse source = .ok p) (hm : Reachable p s m)
    (h : m.run p s fuel = some (.failed f, final)) :
    (400 ≤ f.toDiagnostic.code.number ∧ f.toDiagnostic.code.number ≤ 499) ∧
      f.toDiagnostic.code.category = .runtime ∧ f.toDiagnostic.code ≠ .badExpression := by
  have hcode : f.cause.code.IsRuntime := by
    induction fuel generalizing m with
    | zero => cases h
    | succ fuel ih =>
      rw [Machine.run] at h
      cases hstep : m.step p s with
      | running m' =>
        rw [hstep] at h
        have hm' : Reachable p s (m.step p s).machine := .step hm
        rw [hstep] at hm'
        exact ih hm' h
      | ended ending m' =>
        rw [hstep] at h
        cases h
        exact (step_safe (hm.proper hp) fun _ _ => hm.addressed.pending_isRead hp).2 f _ hstep
  refine ⟨hcode, hcode.category, fun hbad => ?_⟩
  have hlow : 400 ≤ f.toDiagnostic.code.number := hcode.1
  rw [hbad] at hlow
  exact absurd hlow (by decide)

end

/-- A function whose body calls another, which calls one that there is not. -/
def nestedFault : Program :=
  ⟨[⟨10, 1, "DEF FNA(X)=FNB(X)", [.define "FNA" ["X"] ⟨"FNB(X)",
      .single (.call "FNB" [.single (.var "X")])⟩]⟩,
    ⟨20, 2, "DEF FNB(X)=FNC(X)", [.define "FNB" ["X"] ⟨"FNC(X)",
      .single (.call "FNC" [.single (.var "X")])⟩]⟩,
    ⟨30, 3, "Y=FNA(1)", [.assign "Y" ⟨"FNA(1)",
      .single (.call "FNA" [.single (.number 1)])⟩]⟩]⟩

/-- The machine that has failed and is about to run the program again. -/
def nestedFaultAgain : Machine :=
  ((((start nestedFault (.ofSeed 0) {}).step nestedFault {}).machine.step nestedFault {}).machine.step
    nestedFault {}).machine.restart nestedFault

/-- The fault of the innermost body is that of the run. -/
theorem failure_isRuntime_nestedFault :
    Program.parse "10 DEF FNA(X)=FNB(X)\n20 DEF FNB(X)=FNC(X)\n30 Y=FNA(1)".toList =
        .ok nestedFault ∧
      Reachable nestedFault {} nestedFaultAgain ∧
      ∃ f final, nestedFaultAgain.run nestedFault {} 3 = some (.failed f, final) ∧
        f.toDiagnostic.code = .undefinedName ∧ f.toDiagnostic.code.category = .runtime := by
  have hparse : Program.parse "10 DEF FNA(X)=FNB(X)\n20 DEF FNB(X)=FNC(X)\n30 Y=FNA(1)".toList =
      .ok nestedFault := rfl
  have hm : Reachable nestedFault {} nestedFaultAgain :=
    .restart (.step (.step (.step (.start (.ofSeed 0) {}))))
  have hrun : ∃ f final, nestedFaultAgain.run nestedFault {} 3 = some (.failed f, final) ∧
      f.toDiagnostic.code = .undefinedName := ⟨_, _, rfl, rfl⟩
  obtain ⟨f, final, hrun, hcode⟩ := hrun
  exact ⟨hparse, hm, f, final, hrun, hcode, (hm.failure_isRuntime hparse hrun).2.1⟩

end Machine

end ClassicBasic
