import ClassicBasic.Proofs.Machine.Effect

/-!
# What a step does

A step counts the next statement and executes it, if the budget allows; past the last line there is
none. `step_cases` says what can come of it, and what is proved of all runs starts from there.
`Reachable` are the machines that runs of a program come to, one run after another.
-/

namespace ClassicBasic

namespace Machine

/-- The line and the statement that `m` executes next; nothing past the last line. -/
def pending? (p : Program) (m : Machine) : Option (Line × Statement) :=
  let here := p.settle m.position
  match p.lines[here.line]?, here.block[here.index]? with
  | some line, some st => some (line, st)
  | _, _ => none

/-- The machine with its next statement counted. -/
def begun (p : Program) (m : Machine) : Machine :=
  { m with position := p.settle m.position, steps := m.steps + 1 }

end Machine

/-- Whether the `n`-th statement may be executed. -/
def Settings.allows (s : Settings) (n : Nat) : Bool :=
  match s.maxSteps with
  | some limit => n ≤ limit
  | none => true

theorem Settings.allows_unlimited {s : Settings} (h : s.maxSteps = none) (n : Nat) :
    s.allows n = true := by
  simp [Settings.allows, h]

theorem Settings.exists_limit {s : Settings} {n : Nat} (h : ¬ s.allows (n + 1) = true) :
    ∃ limit, s.maxSteps = some limit ∧ limit ≤ n := by
  unfold Settings.allows at h
  cases hmax : s.maxSteps with
  | none => simp [hmax] at h
  | some limit =>
    simp only [hmax, decide_eq_true_eq] at h
    exact ⟨limit, rfl, by omega⟩

/-- The machine that a step leaves. -/
def Step.machine : Step → Machine
  | .running m => m
  | .ended _ m => m

namespace Flow

/-- The result of a step that came to `flow` at `here`. -/
def toStep (here : Position) (m : Machine) : Flow → Step
  | .next => .running { m with position := here.next }
  | .jump target => .running { m with position := target }
  | .halt outcome => .ended (.finished outcome) m

/-- The place where a run goes on that came to `flow` at `here`; one that ends stays. -/
def target (here : Position) : Flow → Position
  | .next => here.next
  | .jump target => target
  | .halt _ => here

/-- A flow only moves the machine. -/
theorem toStep_machine (here : Position) {m : Machine} (h : m.position = here) (flow : Flow) :
    (flow.toStep here m).machine = { m with position := flow.target here } := by
  subst h
  cases flow <;> rfl

end Flow

namespace Machine

section
variable {p : Program} {s : Settings} {m m' : Machine} {line : Line} {st : Statement}

theorem pending?_eq_some : m.pending? p = some (line, st) ↔
    p.lines[(p.settle m.position).line]? = some line ∧
      (p.settle m.position).block[(p.settle m.position).index]? = some st := by
  unfold pending?
  simp only
  split <;> simp_all

theorem step_fellOff (h : m.pending? p = none) :
    m.step p s = .ended (.finished .fellOff) { m with position := p.settle m.position } := by
  unfold step
  cases hline : p.lines[(p.settle m.position).line]? with
  | none => simp only [hline]
  | some line =>
    cases hst : (p.settle m.position).block[(p.settle m.position).index]? with
    | none => simp only [hline, hst]
    | some st =>
      rw [pending?_eq_some.mpr ⟨hline, hst⟩] at h
      cases h

theorem tick_allowed (h : s.allows (m.steps + 1) = true) :
    tick s m = .ok () { m with steps := m.steps + 1 } := by
  unfold tick
  simp only [modify_bind]
  unfold Settings.allows at h
  cases hs : s.maxSteps with
  | none => rfl
  | some limit =>
    simp only [hs, decide_eq_true_eq] at h
    simp only [get_bind]
    rw [if_neg (by omega)]
    rfl

theorem tick_refused {limit : Nat} (hs : s.maxSteps = some limit) (h : limit ≤ m.steps) :
    tick s m = .error (.stepLimit limit) { m with steps := m.steps + 1 } := by
  unfold tick
  simp only [modify_bind, hs, get_bind]
  rw [if_pos (by omega)]
  rfl

/-- A step within the budget is the execution of the next statement. -/
theorem step_allowed (h : m.pending? p = some (line, st)) (hs : s.allows (m.steps + 1) = true) :
    m.step p s = match execute p s line (p.settle m.position) st (m.begun p) with
      | .ok flow m' => flow.toStep (p.settle m.position) m'
      | .error cause m' => .ended (.failed ⟨line.location, line.text, cause⟩) m' := by
  obtain ⟨hline, hst⟩ := pending?_eq_some.mp h
  unfold step
  simp only [hline, hst]
  rw [bind_of_ok (tick_allowed (m := { m with position := p.settle m.position }) hs)]
  simp only [begun]
  generalize execute p s line (p.settle m.position) st _ = result
  cases result with
  | ok flow m' => cases flow <;> rfl
  | error cause m' => rfl

theorem step_refused {limit : Nat} (h : m.pending? p = some (line, st))
    (hs : s.maxSteps = some limit) (hsteps : limit ≤ m.steps) :
    m.step p s = .ended (.failed ⟨line.location, line.text, .stepLimit limit⟩) (m.begun p) := by
  obtain ⟨hline, hst⟩ := pending?_eq_some.mp h
  unfold step
  simp only [hline, hst]
  rw [bind_of_error (tick_refused (m := { m with position := p.settle m.position }) hs hsteps)]
  rfl

/-- A failure names the line of the statement that failed, and its cause is that statement's. -/
theorem step_failed {f : Failure} (h : m.step p s = .ended (.failed f) m') :
    ∃ line st, m.pending? p = some (line, st) ∧
      (do tick s; execute p s line (p.settle m.position) st : Execution Flow)
        { m with position := p.settle m.position } = .error f.cause m' ∧
      f.location = line.location ∧ f.text = line.text := by
  cases hnext : m.pending? p with
  | none =>
    rw [step_fellOff hnext] at h
    cases h
  | some next =>
    obtain ⟨line, st⟩ := next
    obtain ⟨hline, hst⟩ := pending?_eq_some.mp hnext
    refine ⟨line, st, rfl, ?_⟩
    unfold step at h
    simp only [hline, hst] at h
    split at h
    · cases h
    · cases h
    · cases h
    · cases h
      exact ⟨‹_›, rfl, rfl⟩

/-- What fails is the next statement, or it is one too many. -/
theorem step_failed_cases {f : Failure} (h : m.step p s = .ended (.failed f) m') :
    ∃ line st, m.pending? p = some (line, st) ∧
      (s.allows (m.steps + 1) = true ∧
          execute p s line (p.settle m.position) st (m.begun p) = .error f.cause m' ∨
        ∃ limit, f.cause = .stepLimit limit) := by
  obtain ⟨line, st, hnext, hrun, -⟩ := step_failed h
  refine ⟨line, st, hnext, ?_⟩
  by_cases hs : s.allows (m.steps + 1) = true
  · rw [bind_of_ok (tick_allowed (m := { m with position := p.settle m.position }) hs)] at hrun
    exact .inl ⟨hs, hrun⟩
  · obtain ⟨limit, hmax, hlimit⟩ := Settings.exists_limit hs
    rw [bind_of_error
      (tick_refused (m := { m with position := p.settle m.position }) hmax hlimit)] at hrun
    exact .inr ⟨limit, (EStateM.Result.error.inj hrun).1.symm⟩

/-- What a step can do, whatever comes of it. -/
theorem step_cases (p : Program) (s : Settings) (m : Machine) :
    (m.pending? p = none ∧
      m.step p s = .ended (.finished .fellOff) { m with position := p.settle m.position }) ∨
    ∃ line st, m.pending? p = some (line, st) ∧
      ((∃ flow m', Effect p line (p.settle m.position) st (m.begun p) flow m' ∧
          m.step p s = flow.toStep (p.settle m.position) m') ∨
        ∃ cause m', Unwinds (m.begun p) m' ∧
          m.step p s = .ended (.failed ⟨line.location, line.text, cause⟩) m') := by
  cases hnext : m.pending? p with
  | none => exact .inl ⟨rfl, step_fellOff hnext⟩
  | some next =>
    obtain ⟨line, st⟩ := next
    refine .inr ⟨line, st, rfl, ?_⟩
    by_cases hs : s.allows (m.steps + 1) = true
    · have hstep := step_allowed hnext hs
      cases hexec : execute p s line (p.settle m.position) st (m.begun p) with
      | ok flow m' =>
        rw [hexec] at hstep
        exact .inl ⟨flow, m', execute_effect hexec, hstep⟩
      | error cause m' =>
        rw [hexec] at hstep
        exact .inr ⟨cause, m', execute_error hexec, hstep⟩
    · obtain ⟨limit, hmax, hlimit⟩ := Settings.exists_limit hs
      exact .inr ⟨_, _, .refl _, step_refused hnext hmax hlimit⟩

/-- What a step leaves: the machine after an effect, moved to where the run goes on, or after a
fault; past the last line, the machine as it was. -/
theorem step_machine (p : Program) (s : Settings) (m : Machine) :
    (m.pending? p = none ∧ (m.step p s).machine = { m with position := p.settle m.position }) ∨
    ∃ line st, m.pending? p = some (line, st) ∧
      ((∃ flow m', Effect p line (p.settle m.position) st (m.begun p) flow m' ∧
          (m.step p s).machine = { m' with position := flow.target (p.settle m.position) }) ∨
        Unwinds (m.begun p) (m.step p s).machine) := by
  obtain ⟨hnone, hstep⟩ | ⟨line, st, hnext, ⟨flow, m', heffect, hstep⟩ | ⟨cause, m', hm, hstep⟩⟩ :=
    step_cases p s m
  · exact .inl ⟨hnone, hstep ▸ rfl⟩
  · refine .inr ⟨line, st, hnext, .inl ⟨flow, m', heffect, ?_⟩⟩
    rw [hstep]
    exact flow.toStep_machine _ heffect.position
  · refine .inr ⟨line, st, hnext, .inr ?_⟩
    rw [hstep]
    exact hm

/-- A step that executes a statement leaves what the statement does, at the place where the run goes
on. -/
theorem step_executed (h : m.pending? p = some (line, st)) (hs : s.allows (m.steps + 1) = true)
    {R : Machine → Machine → Prop} (hR : Keeps R (execute p s line (p.settle m.position) st)) :
    ∃ m' position, R (m.begun p) m' ∧ (m.step p s).machine = { m' with position } := by
  rw [step_allowed h hs]
  cases hrun : execute p s line (p.settle m.position) st (m.begun p) with
  | ok flow m' =>
    exact ⟨m', _, hR.ok hrun, flow.toStep_machine _ (execute_effect hrun).position⟩
  | error cause m' => exact ⟨m', m'.position, hR.error hrun, rfl⟩

/-- A step that executes no statement, since none is left or none is allowed, at most counts it. -/
theorem step_idle (h : m.pending? p = none ∨ ¬ s.allows (m.steps + 1) = true) :
    ∃ position steps, (m.step p s).machine = { m with position, steps } := by
  cases hnext : m.pending? p with
  | none => exact ⟨_, _, by rw [step_fellOff hnext]; rfl⟩
  | some next =>
    obtain ⟨line, st⟩ := next
    have hs : ¬ s.allows (m.steps + 1) = true := by simpa [hnext] using h
    obtain ⟨limit, hmax, hlimit⟩ := Settings.exists_limit hs
    exact ⟨_, _, by rw [step_refused hnext hmax hlimit]; rfl⟩

/-- What the next statement keeps, the step does, if it does not hang on the place and the count of
statements. -/
theorem step_keeps {R : Machine → Machine → Prop} (hR : Mild R)
    (hposition : ∀ m position, R m { m with position })
    (hsteps : ∀ m steps, R m { m with steps })
    (hexec : ∀ line st, m.pending? p = some (line, st) →
      Keeps R (execute p s line (p.settle m.position) st)) : R m (m.step p s).machine := by
  by_cases h : m.pending? p = none ∨ ¬ s.allows (m.steps + 1) = true
  · obtain ⟨position, steps, hstep⟩ := step_idle h
    rw [hstep]
    exact hR.trans (hposition m position) (hsteps _ steps)
  · rw [not_or, Classical.not_not] at h
    obtain ⟨⟨line, st⟩, hnext⟩ := Option.ne_none_iff_exists'.mp h.1
    obtain ⟨m', position, hm', hstep⟩ := step_executed hnext h.2 (hexec line st hnext)
    have hbegun : R m (m.begun p) := hR.trans (hposition m _) (hsteps _ _)
    rw [hstep]
    exact hR.trans (hR.trans hbegun hm') (hposition m' position)

theorem step_steps (p : Program) (s : Settings) (m : Machine) :
    (m.step p s).machine.steps = m.steps + if (m.pending? p).isSome then 1 else 0 := by
  obtain ⟨hnone, hm⟩ | ⟨line, st, hnext, ⟨flow, m', heffect, hm⟩ | hm⟩ := step_machine p s m
  · simp [hnone, hm]
  · simp only [hnext, hm, heffect.steps, begun, Option.isSome_some, if_true]
  · simp only [hnext, hm.steps, begun, Option.isSome_some, if_true]

/-- Nothing that has happened on the console is undone. -/
theorem step_log (p : Program) (s : Settings) (m : Machine) :
    m.console.log <:+ (m.step p s).machine.console.log := by
  obtain ⟨-, hm⟩ | ⟨line, st, -, ⟨flow, m', heffect, hm⟩ | hm⟩ := step_machine p s m
  · simp only [hm, List.suffix_rfl]
  · rw [hm]
    exact heffect.log
  · exact hm.log

theorem step_loops (p : Program) (s : Settings) (m : Machine) :
    (m.step p s).machine.loops <:+ m.loops ∨
      ∃ l, (m.step p s).machine.loops = l :: outsideLoop l.var m.loops := by
  obtain ⟨-, hm⟩ | ⟨line, st, -, ⟨flow, m', heffect, hm⟩ | hm⟩ := step_machine p s m
  · rw [hm]
    exact .inl List.suffix_rfl
  · rw [hm]
    exact heffect.loops.imp_right fun ⟨l, _, _, _, _, _, hl⟩ => ⟨l, hl⟩
  · exact .inl hm.loops

theorem step_returns (p : Program) (s : Settings) (m : Machine) :
    (m.step p s).machine.returns = m.returns ∨
      (∃ q, (m.step p s).machine.returns = q :: m.returns) ∨
      ∃ q, m.returns = q :: (m.step p s).machine.returns := by
  obtain ⟨-, hm⟩ | ⟨line, st, -, ⟨flow, m', heffect, hm⟩ | hm⟩ := step_machine p s m
  · rw [hm]
    exact .inl rfl
  · rw [hm]
    exact heffect.returns.imp_right (Or.imp_left fun hcall => ⟨_, hcall.2⟩)
  · exact .inl hm.returns

end

/-! ## Reachable machines -/

/-- The machines that runs of `p` come to: any number of runs, each of any number of steps. A run
may begin at any time, not only when the one before has ended, and the console may be another one
before any statement, since what it gives and when it fails is not up to the program; both only add
machines. -/
inductive Reachable (p : Program) (s : Settings) : Machine → Prop
  | start (random : Random) (console : Console) : Reachable p s (start p random console)
  | step {m : Machine} : Reachable p s m → Reachable p s (m.step p s).machine
  | restart {m : Machine} : Reachable p s m → Reachable p s (m.restart p)
  | console {m : Machine} (console : Console) : Reachable p s m → Reachable p s { m with console }

end Machine

end ClassicBasic
