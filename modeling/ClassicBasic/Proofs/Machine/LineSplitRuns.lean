import ClassicBasic.Proofs.Machine.Budget
import ClassicBasic.Proofs.Machine.LineSplit
import ClassicBasic.Proofs.Machine.Placeless

/-!
# Where lines end

Lines have numbers, and otherwise it means nothing where one ends and the next begins:
`LineSplit.runs_alike` says that a program and the same program with a line cut in two do the same.
Both run side by side, statement by statement. Their machines are `Alike`: they keep corresponding
places and are otherwise equal. `Simulates` says of two executions that they keep machines alike;
what knows of no places is such a pair with itself, so only jumps, loops and calls are looked at.
-/

namespace ClassicBasic

namespace LineSplit

open Machine

variable {d : LineSplit} {q q' : Position}

/-! ## Machines that correspond -/

/-- The loops of the whole and of the parts that correspond: they only resume at other places. -/
def LoopAlike (d : LineSplit) (l l' : Loop) : Prop :=
  l' = { l with resume := l'.resume } ∧ d.At l.resume l'.resume

/-- The machines of the whole and of the parts that correspond: they keep corresponding places and
are otherwise the same. -/
structure Alike (d : LineSplit) (m m' : Machine) : Prop where
  position : d.At m.position m'.position
  loops : List.Forall₂ d.LoopAlike m.loops m'.loops
  returns : List.Forall₂ d.At m.returns m'.returns
  workspace : m'.workspace = m.workspace
  random : m'.random = m.random
  data : m'.data = m.data
  console : m'.console = m.console
  column : m'.column = m.column
  steps : m'.steps = m.steps

section
variable {m m' : Machine}

theorem Alike.eq_moved (h : d.Alike m m') : m' = m.moved m'.position m'.loops m'.returns := by
  cases m'
  cases h
  simp only at *
  subst_vars
  rfl

theorem Alike.of_moved {q : Position} {ls : List Loop} {rs : List Position}
    (hq : d.At m.position q) (hls : List.Forall₂ d.LoopAlike m.loops ls)
    (hrs : List.Forall₂ d.At m.returns rs) : d.Alike m (m.moved q ls rs) :=
  ⟨hq, hls, hrs, rfl, rfl, rfl, rfl, rfl, rfl⟩

end

/-! ## Executions that correspond -/

/-- On machines that correspond, `x` and `x'` both succeed, with results that `Q` relates, or both
fail in the same way, and leave machines that correspond. -/
structure Simulates {α β : Type} (d : LineSplit) (Q : α → β → Prop) (x : Execution α)
    (x' : Execution β) : Prop where
  ok : ∀ {m m' a m₁}, d.Alike m m' → x m = .ok a m₁ →
    ∃ b m₁', x' m' = .ok b m₁' ∧ Q a b ∧ d.Alike m₁ m₁'
  error : ∀ {m m' e m₁}, d.Alike m m' → x m = .error e m₁ →
    ∃ m₁', x' m' = .error e m₁' ∧ d.Alike m₁ m₁'

namespace Simulates

variable {α β α' β' : Type} {Q : α → β → Prop} {Q' : α' → β' → Prop} {x : Execution α}
  {x' : Execution β}

theorem pure {a : α} {b : β} (h : Q a b) : d.Simulates Q (Pure.pure a) (Pure.pure b) where
  ok hm hrun := by
    cases hrun
    exact ⟨b, _, rfl, h, hm⟩
  error _ hrun := by cases hrun

theorem throw (e : RuntimeError) :
    d.Simulates Q (throw e : Execution α) (throw e : Execution β) where
  ok _ hrun := by cases hrun
  error hm hrun := by
    cases hrun
    exact ⟨_, rfl, hm⟩

theorem get : d.Simulates d.Alike get get where
  ok hm hrun := by
    cases hrun
    exact ⟨_, _, rfl, hm, hm⟩
  error _ hrun := by cases hrun

theorem modify {f f' : Machine → Machine} (h : ∀ m m', d.Alike m m' → d.Alike (f m) (f' m')) :
    d.Simulates Eq (modify f : Execution Unit) (modify f' : Execution Unit) where
  ok hm hrun := by
    cases hrun
    exact ⟨(), _, rfl, rfl, h _ _ hm⟩
  error _ hrun := by cases hrun

theorem bind {f : α → Execution α'} {f' : β → Execution β'} (hx : d.Simulates Q x x')
    (hf : ∀ a b, Q a b → d.Simulates Q' (f a) (f' b)) :
    d.Simulates Q' (x >>= f) (x' >>= f') where
  ok hm hrun := by
    obtain ⟨a, m₁, hfirst, hrest⟩ := bind_ok hrun
    obtain ⟨b, m₁', hfirst', hab, hm₁⟩ := hx.ok hm hfirst
    rw [bind_of_ok hfirst']
    exact (hf a b hab).ok hm₁ hrest
  error hm hrun := by
    rcases bind_error hrun with hfirst | ⟨a, m₁, hfirst, hrest⟩
    · obtain ⟨m₁', hfirst', hm₁⟩ := hx.error hm hfirst
      exact ⟨m₁', bind_of_error hfirst', hm₁⟩
    · obtain ⟨b, m₁', hfirst', hab, hm₁⟩ := hx.ok hm hfirst
      rw [bind_of_ok hfirst']
      exact (hf a b hab).error hm₁ hrest

/-- What knows of no places does the same. -/
theorem of_placeless {E : RuntimeError → Prop} (hx : Placeless E x) : d.Simulates Eq x x where
  ok {m m' a m₁} hm hrun := by
    obtain ⟨hq, hls, hrs⟩ := hx.places_ok hrun
    rw [hm.eq_moved]
    refine ⟨a, _, hx.ok hrun _ _ _, rfl, .of_moved ?_ ?_ ?_⟩
    · exact hq ▸ hm.position
    · exact hls ▸ hm.loops
    · exact hrs ▸ hm.returns
  error {m m' e m₁} hm hrun := by
    obtain ⟨hq, hls, hrs⟩ := hx.places_error hrun
    rw [hm.eq_moved]
    refine ⟨_, (hx.error hrun).2 _ _ _, .of_moved ?_ ?_ ?_⟩
    · exact hq ▸ hm.position
    · exact hls ▸ hm.loops
    · exact hrs ▸ hm.returns

/-- After what knows of no places, both go on with the same result. -/
theorem after {E : RuntimeError → Prop} {f : α → Execution α'} {f' : α → Execution β'}
    (hx : Placeless E x) (hf : ∀ a, d.Simulates Q' (f a) (f' a)) :
    d.Simulates Q' (x >>= f) (x >>= f') :=
  .bind (.of_placeless hx) fun a _ hab => hab ▸ hf a

end Simulates

/-- Ways to go on that correspond, from a statement in `line` of the whole and `line'` of the
parts. -/
inductive FlowAlike (d : LineSplit) (line line' : Line) : Flow → Flow → Prop
  | next : FlowAlike d line line' .next .next
  | jump {q q' : Position} : d.At q q' → FlowAlike d line line' (.jump q) (.jump q')
  | ended : FlowAlike d line line' (.halt .ended) (.halt .ended)
  | stopped : FlowAlike d line line' (.halt (.stopped line.number)) (.halt (.stopped line'.number))

section
variable {line line' : Line} {here here' : Position}

/-! ## Jumps -/

theorem lineNumbered_simulates {number : Nat} (h : number ≠ d.second.number) :
    d.Simulates d.At (lineNumbered d.whole number) (lineNumbered d.parts number) := by
  unfold lineNumbered
  rw [d.findLine?_parts h]
  cases d.whole.findLine? number with
  | none => exact .throw (.undefinedLine number)
  | some i => exact .pure (.lineStart i)

theorem jump_simulates {number : Nat} (h : number ≠ d.second.number) :
    d.Simulates (d.FlowAlike line line')
      (do return Flow.jump (← lineNumbered d.whole number) : Execution Flow)
      (do return Flow.jump (← lineNumbered d.parts number) : Execution Flow) :=
  .bind (lineNumbered_simulates h) fun _ _ hat => .pure (.jump hat)

theorem gosub_simulates {number : Nat} (h : number ≠ d.second.number)
    (hnext : d.At here.next here'.next) :
    d.Simulates (d.FlowAlike line line') (gosub d.whole here number)
      (gosub d.parts here' number) := by
  refine .bind (lineNumbered_simulates h) fun target target' hat => ?_
  refine .bind (.modify fun m m' hm => ?_) fun _ _ _ => .pure (.jump hat)
  exact { hm with returns := .cons hnext hm.returns }

/-- A line that an index picks is one of those of the statement. -/
theorem pick_simulates {index : Int} {lines : List Nat} :
    d.Simulates (fun a b => a = b ∧ a ∈ lines) (pick index lines) (pick index lines) := by
  unfold pick
  cases hline : if 1 ≤ index then lines[(index - 1).toNat]? else none with
  | none => exact .throw (.onIndex index lines.length)
  | some number =>
    refine .pure ⟨rfl, ?_⟩
    split at hline
    · exact List.mem_of_getElem? hline
    · cases hline

/-! ## Loops -/

theorem dropWhile_alike {ls ls' : List Loop} (name : String) (h : List.Forall₂ d.LoopAlike ls ls') :
    List.Forall₂ d.LoopAlike (ls.dropWhile fun l => l.var != name)
      (ls'.dropWhile fun l => l.var != name) := by
  induction h with
  | nil => exact .nil
  | @cons l l' ls ls' hl hls ih =>
    have hvar : l'.var = l.var := by rw [hl.1]
    simp only [List.dropWhile_cons, hvar]
    split
    · exact ih
    · exact .cons hl hls

theorem outsideLoop_alike {ls ls' : List Loop} (name : String)
    (h : List.Forall₂ d.LoopAlike ls ls') :
    List.Forall₂ d.LoopAlike (outsideLoop name ls) (outsideLoop name ls') := by
  have hdrop := dropWhile_alike name h
  unfold outsideLoop
  cases hdrop' : ls.dropWhile fun l => l.var != name with
  | nil =>
    rw [hdrop', List.forall₂_nil_left_iff] at hdrop
    rw [hdrop]
    exact h
  | cons l outer =>
    rw [hdrop', List.forall₂_cons_left_iff] at hdrop
    obtain ⟨l', outer', -, houter, hls'⟩ := hdrop
    rw [hls']
    exact houter

theorem beginLoop_simulates (hnext : d.At here.next here'.next) (var : String)
    (first limit step : Expr) :
    d.Simulates (d.FlowAlike line line') (beginLoop here var first limit step)
      (beginLoop here' var first limit step) := by
  refine .after (number_placeless everyday first) fun x => ?_
  refine .after (number_placeless everyday limit) fun y => ?_
  refine .after (number_placeless everyday step) fun z => ?_
  refine .after (setVariable_placeless (E := fun _ => True) var (.number x)) fun _ => ?_
  refine .bind (.modify fun m m' hm => ?_) fun _ _ _ => .pure .next
  exact { hm with loops := .cons ⟨rfl, hnext⟩ (outsideLoop_alike var hm.loops) }

theorem nextLoop_simulates (var : Option String) :
    d.Simulates (d.FlowAlike line line') (nextLoop var) (nextLoop var) := by
  refine .bind .get fun m m' hm => ?_
  have hfrom : List.Forall₂ d.LoopAlike (fromLoop var m.loops) (fromLoop var m'.loops) := by
    cases var with
    | none => exact hm.loops
    | some name => exact dropWhile_alike name hm.loops
  cases hloops : fromLoop var m.loops with
  | nil =>
    rw [hloops, List.forall₂_nil_left_iff] at hfrom
    rw [hfrom]
    exact .throw (.nextWithoutFor var)
  | cons l outer =>
    rw [hloops, List.forall₂_cons_left_iff] at hfrom
    obtain ⟨l', outer', ⟨hl', hresume⟩, houter, hloops'⟩ := hfrom
    rw [hloops', hl', hm.workspace]
    simp only
    cases m.workspace.vars.get? l.var with
    | none => exact .throw (.loopVariable l.var)
    | some v =>
      cases v with
      | text t => exact .throw (.loopVariable l.var)
      | number x =>
        have hgo : Loop.goesOn { l with resume := l'.resume } (x + l.step) =
            l.goesOn (x + l.step) := rfl
        simp only [hgo]
        split
        · refine .after (setVariable_placeless (E := fun _ => True) l.var _) fun _ => ?_
          refine .bind (.modify fun m₁ m₁' hm₁ => ?_) fun _ _ _ => .pure (.jump hresume)
          exact { hm₁ with loops := .cons ⟨rfl, hresume⟩ houter }
        · refine .bind (.modify fun m₁ m₁' hm₁ => ?_) fun _ _ _ => .pure .next
          exact { hm₁ with loops := houter }

theorem nextLoops_simulates (vars : List String) :
    d.Simulates (d.FlowAlike line line') (nextLoops vars) (nextLoops vars) := by
  induction vars with
  | nil => exact .pure .next
  | cons var rest ih =>
    have hone : d.Simulates (d.FlowAlike line line') (nextLoop (some var)) (nextLoop (some var)) :=
      nextLoop_simulates (some var)
    refine .bind hone fun flow flow' hflow => ?_
    cases hflow with
    | next => exact ih
    | jump hat => exact .pure (.jump hat)
    | ended => exact .pure .ended
    | stopped => exact .pure .stopped

/-! ## Statements -/

theorem execute_simulates (s : Settings) {st : Statement} (h : d.At here here')
    (hst : here.block[here.index]? = some st) (hst' : here'.block[here'.index]? = some st) :
    d.Simulates (d.FlowAlike line line') (execute d.whole s line here st)
      (execute d.parts s line' here' st) := by
  have hnext : d.At here.next here'.next := h.next hst'
  have hne {number : Nat} (hnumber : number ∈ st.lineNumbers) : number ≠ d.second.number :=
    fun heq => h.not_mem (List.mem_of_getElem? hst) (heq ▸ hnumber)
  have hplain {x : Execution Unit} (hx : Placeless (fun _ => True) x) :
      d.Simulates (d.FlowAlike line line') (do x; return Flow.next) (do x; return Flow.next) :=
    .after hx fun _ => .pure .next
  cases st with
  | data | remark => exact .pure .next
  | finish => exact .pure .ended
  | stop => exact .pure .stopped
  | define name params body => exact hplain (setFunction_placeless name _)
  | dim arrays => exact hplain (.forM (dimension_placeless everyday) arrays)
  | forLoop var first limit step => exact beginLoop_simulates hnext var first limit step
  | next vars =>
    cases vars with
    | nil => exact nextLoop_simulates none
    | cons var rest => exact nextLoops_simulates (var :: rest)
  | goto number => exact jump_simulates (hne (by simp [Statement.lineNumbers]))
  | gosub number => exact gosub_simulates (hne (by simp [Statement.lineNumbers])) hnext
  | returnFrom =>
    refine .bind .get fun m m' hm => ?_
    have hreturns := hm.returns
    cases hrs : m.returns with
    | nil =>
      rw [hrs, List.forall₂_nil_left_iff] at hreturns
      rw [hreturns]
      exact .throw .returnWithoutGosub
    | cons target returns =>
      rw [hrs, List.forall₂_cons_left_iff] at hreturns
      obtain ⟨target', returns', htarget, hreturns, hrs'⟩ := hreturns
      rw [hrs']
      refine .bind (.modify fun m₁ m₁' hm₁ => ?_) fun _ _ _ => .pure (.jump htarget)
      exact { hm₁ with returns := hreturns }
  | ifLine condition number =>
    refine .after (value_placeless everyday condition) fun v => ?_
    split
    · exact jump_simulates (hne (by simp [Statement.lineNumbers]))
    · exact .pure .next
  | ifElseLine condition number elseNumber =>
    refine .after (value_placeless everyday condition) fun v => ?_
    refine jump_simulates (hne ?_)
    split <;> simp [Statement.lineNumbers]
  | ifThen condition block =>
    refine .after (value_placeless everyday condition) fun v => ?_
    split
    · exact .pure (.jump (h.enter hst' (by simp [Statement.branches])))
    · exact .pure .next
  | ifElse condition block elseBlock =>
    refine .after (value_placeless everyday condition) fun v => ?_
    split
    · exact .pure (.jump (h.enter hst' (by simp [Statement.branches])))
    · exact .pure (.jump (h.enter hst' (by simp [Statement.branches])))
  | input prompt targets => exact hplain (input_placeless everyday prompt targets)
  | letTo target e =>
    exact .after (value_placeless everyday e) fun v => hplain (store_placeless everyday v target)
  | assign var e =>
    exact .after (value_placeless everyday e) fun v => hplain (setVariable_placeless var v)
  | assignElement target e =>
    exact .after (value_placeless everyday e) fun v =>
      hplain (storeElement_placeless everyday target v)
  | onGoto index lines =>
    refine .after (number_placeless everyday index) fun x => ?_
    refine .bind pick_simulates fun number number' hnumber => ?_
    obtain ⟨rfl, hmem⟩ := hnumber
    exact jump_simulates (hne hmem)
  | onGosub index lines =>
    refine .after (number_placeless everyday index) fun x => ?_
    refine .bind pick_simulates fun number number' hnumber => ?_
    obtain ⟨rfl, hmem⟩ := hnumber
    exact gosub_simulates (hne hmem) hnext
  | print items => exact hplain (print_placeless everyday s items)
  | read targets => exact hplain (.forM (readInto_placeless everyday trivial) targets)
  | restore => exact hplain (.modify fun _ _ _ _ => rfl)

end

/-! ## Steps and runs -/

/-- How runs of the whole and of the parts end when the whole stands at `q`: in the same way, with
the same cause of a fault, and STOP and faults name the line that the statement is in. -/
inductive SameEnding (d : LineSplit) (q : Position) : Ending → Ending → Prop
  | ended : SameEnding d q (.finished .ended) (.finished .ended)
  | fellOff : SameEnding d q (.finished .fellOff) (.finished .fellOff)
  | stopped {line line' : Line} : d.Holds q line line' →
      SameEnding d q (.finished (.stopped line.number)) (.finished (.stopped line'.number))
  | failed {line line' : Line} {cause : RuntimeError} : d.Holds q line line' →
      SameEnding d q (.failed ⟨line.location, line.text, cause⟩)
        (.failed ⟨line'.location, line'.text, cause⟩)

/-- Ends of runs that correspond. -/
structure EndsAlike (d : LineSplit) (r r' : Ending × Machine) : Prop where
  ending : d.SameEnding r.2.position r.1 r'.1
  machine : d.Alike r.2 r'.2

inductive StepAlike (d : LineSplit) : Step → Step → Prop
  | running {m m' : Machine} : d.Alike m m' → StepAlike d (.running m) (.running m')
  | ended {e e' : Ending} {m m' : Machine} : d.SameEnding m.position e e' → d.Alike m m' →
      StepAlike d (.ended e m) (.ended e' m')

section
variable {m m' : Machine}

theorem blockConstants_append (b b' : Block) :
    blockConstants (b ++ b') = blockConstants b ++ blockConstants b' := by
  induction b with
  | nil => rfl
  | cons st rest ih => rw [List.cons_append, blockConstants, ih, blockConstants, List.append_assoc]

theorem constants_parts (d : LineSplit) : d.parts.constants = d.whole.constants := by
  simp [Program.constants, parts, whole, d.block, blockConstants_append]

theorem At.start : d.At (d.whole.lineStart 0) (d.parts.lineStart 0) := by
  have h := At.lineStart (d := d) 0
  rwa [d.shift_of_le (Nat.zero_le _)] at h

theorem start_alike (d : LineSplit) (random : Random) (console : Console) :
    d.Alike (start d.whole random console) (start d.parts random console) where
  position := .start
  loops := .nil
  returns := .nil
  workspace := rfl
  random := rfl
  data := by simp only [start, d.constants_parts]
  console := rfl
  column := rfl
  steps := rfl

theorem Alike.restart (h : d.Alike m m') : d.Alike (m.restart d.whole) (m'.restart d.parts) :=
  { h with position := .start }

theorem Alike.stands (h : d.Alike m m') :
    d.Stands (d.whole.settle m.position) (d.parts.settle m'.position) :=
  h.position.settle

theorem Alike.begun (h : d.Alike m m') : d.Alike (m.begun d.whole) (m'.begun d.parts) :=
  { h with
    position := h.stands.places
    steps := congrArg (· + 1) h.steps }

/-- The same statement is executed next, if any. -/
theorem Alike.pending (h : d.Alike m m') :
    m.pending? d.whole = none ∧ m'.pending? d.parts = none ∨
    ∃ line line' st, m.pending? d.whole = some (line, st) ∧
      m'.pending? d.parts = some (line', st) ∧
      d.Holds (d.whole.settle m.position) line line' := by
  have hlines := h.stands.lines
  have hst := h.stands.statement_eq
  unfold pending?
  simp only
  rw [hst]
  cases hwhole : d.whole.lines[(d.whole.settle m.position).line]? with
  | none =>
    rw [hwhole] at hlines
    cases hparts : d.parts.lines[(d.parts.settle m'.position).line]? with
    | none => exact .inl ⟨rfl, rfl⟩
    | some line' =>
      rw [hparts] at hlines
      cases hlines
  | some line =>
    rw [hwhole] at hlines
    cases hparts : d.parts.lines[(d.parts.settle m'.position).line]? with
    | none =>
      rw [hparts] at hlines
      cases hlines
    | some line' =>
      rw [hparts] at hlines
      cases hlines with
      | some hholds =>
        cases (d.whole.settle m.position).block[(d.whole.settle m.position).index]? with
        | none => exact .inl ⟨rfl, rfl⟩
        | some st => exact .inr ⟨line, line', st, rfl, rfl, hholds⟩

theorem Alike.step (s : Settings) (h : d.Alike m m') :
    d.StepAlike (m.step d.whole s) (m'.step d.parts s) := by
  rcases h.pending with ⟨hnone, hnone'⟩ | ⟨line, line', st, hnext, hnext', hholds⟩
  · rw [step_fellOff hnone, step_fellOff hnone']
    exact .ended .fellOff { h with position := h.stands.places }
  have hst := (pending?_eq_some.mp hnext).2
  have hst' := (pending?_eq_some.mp hnext').2
  by_cases hs : s.allows (m.steps + 1) = true
  · have hs' : s.allows (m'.steps + 1) = true := by rwa [h.steps]
    have hsim : d.Simulates (d.FlowAlike line line') _ _ :=
      execute_simulates s h.stands.places hst hst'
    rw [step_allowed hnext hs, step_allowed hnext' hs']
    cases hexec : execute d.whole s line (d.whole.settle m.position) st (m.begun d.whole) with
    | ok flow m₁ =>
      obtain ⟨flow', m₁', hexec', hflow, hm₁⟩ := hsim.ok h.begun hexec
      have hposition : m₁.position = d.whole.settle m.position := (execute_effect hexec).position
      rw [hexec']
      cases hflow with
      | next => exact .running { hm₁ with position := h.stands.places.next hst' }
      | jump hat => exact .running { hm₁ with position := hat }
      | ended => exact .ended .ended hm₁
      | stopped => exact .ended (.stopped (hposition ▸ hholds)) hm₁
    | error cause m₁ =>
      obtain ⟨m₁', hexec', hm₁⟩ := hsim.error h.begun hexec
      have hposition : m₁.position = d.whole.settle m.position := (execute_error hexec).position
      rw [hexec']
      exact .ended (.failed (hposition ▸ hholds)) hm₁
  · obtain ⟨limit, hmax, hlimit⟩ := Settings.exists_limit hs
    rw [step_refused hnext hmax hlimit, step_refused hnext' hmax (h.steps ▸ hlimit)]
    exact .ended (.failed hholds) h.begun

theorem Alike.advance? (s : Settings) (n : Nat) (h : d.Alike m m') :
    Option.Rel d.Alike (m.advance? d.whole s n) (m'.advance? d.parts s n) := by
  induction n generalizing m m' with
  | zero => exact .some h
  | succ n ih =>
    have hstep := h.step s
    rw [Machine.advance?, Machine.advance?]
    generalize m.step d.whole s = next at hstep
    generalize m'.step d.parts s = next' at hstep
    cases hstep with
    | running hm => exact ih hm
    | ended _ _ => exact .none

theorem Alike.run (s : Settings) (fuel : Nat) (h : d.Alike m m') :
    Option.Rel d.EndsAlike (m.run d.whole s fuel) (m'.run d.parts s fuel) := by
  induction fuel generalizing m m' with
  | zero => exact .none
  | succ fuel ih =>
    have hstep := h.step s
    rw [Machine.run, Machine.run]
    generalize m.step d.whole s = next at hstep
    generalize m'.step d.parts s = next' at hstep
    cases hstep with
    | running hm => exact ih hm
    | ended hending hm => exact .some ⟨hending, hm⟩

end

/-- **Where a line ends means nothing.** Cut a line of a program in two as `LineSplit` says. Under
all settings, streams and consoles the two programs start alike, and from machines that are alike they
do the same, in a first run and in all later ones. After any number of statements both have come to
machines with the same variables, functions and arrays, the same place in the DATA, the same console
with all that was written and read, and the same count of statements. One run ends when the other
does, and in the same way, except that STOP and faults in the second part name the new line. -/
theorem runs_alike (d : LineSplit) (s : Settings) (random : Random) (console : Console) :
    d.Alike (start d.whole random console) (start d.parts random console) ∧
      ∀ m m', d.Alike m m' → d.Alike (m.restart d.whole) (m'.restart d.parts) ∧
        (∀ n, Option.Rel d.Alike (m.advance? d.whole s n) (m'.advance? d.parts s n)) ∧
        ∀ fuel, Option.Rel d.EndsAlike (m.run d.whole s fuel) (m'.run d.parts s fuel) :=
  ⟨d.start_alike random console,
    fun _ _ h => ⟨h.restart, fun n => h.advance? s n, fun fuel => h.run s fuel⟩⟩

/-- A call is the last statement of the first part, and the second part has no other. -/
def callThenStop : LineSplit where
  before := [⟨5, 1, "GOTO 10", [.goto 10]⟩]
  line := ⟨10, 2, "GOSUB 30:STOP", [.gosub 30, .stop]⟩
  after := [⟨30, 3, "RETURN", [.returnFrom]⟩]
  first := ⟨10, 2, "GOSUB 30", [.gosub 30]⟩
  second := ⟨20, 2, "STOP", [.stop]⟩
  block := rfl
  number := rfl
  first_ne_nil := by simp
  second_ne_nil := by simp
  no_inlineIf := by simp [Statement.isInlineIf]
  no_line := by simp
  no_jump := by simp [blockLineNumbers, Statement.lineNumbers]

/-- The subroutine returns to the end of the first part, and the run stops in the second. -/
theorem runs_alike_callThenStop :
    ((start callThenStop.whole (.ofSeed 0) {}).run callThenStop.whole {} 4).map Prod.fst =
        some (.finished (.stopped 10)) ∧
      ((start callThenStop.parts (.ofSeed 0) {}).run callThenStop.parts {} 4).map Prod.fst =
        some (.finished (.stopped 20)) ∧
      Option.Rel callThenStop.EndsAlike
        ((start callThenStop.whole (.ofSeed 0) {}).run callThenStop.whole {} 4)
        ((start callThenStop.parts (.ofSeed 0) {}).run callThenStop.parts {} 4) := by
  obtain ⟨hstart, hruns⟩ := runs_alike callThenStop {} (.ofSeed 0) {}
  exact ⟨rfl, rfl, (hruns _ _ hstart).2.2 4⟩

end LineSplit

end ClassicBasic
