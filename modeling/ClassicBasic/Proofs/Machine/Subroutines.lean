import ClassicBasic.Proofs.Machine.Stepping

/-!
# Subroutines and their returns

GOSUB pushes the place behind it and RETURN pops it; no other statement touches the stack of places
to return to. So while a run stays inside a subroutine, what was on the stack when it was called
stays where it is (`Inside.suffix`), and the RETURN that leaves the subroutine goes back behind its
call, whatever was called and jumped to in between.
-/

namespace ClassicBasic

/-- When `m` executes this statement, it calls the subroutine in the line `number`. -/
def Statement.Calls (m : Machine) (number : Nat) : Statement → Prop
  | .gosub line => line = number
  | .onGosub index lines =>
    ∃ x m', Machine.number index m = .ok x m' ∧ 1 ≤ Double.truncate x ∧
      lines[(Double.truncate x - 1).toNat]? = some number
  | _ => False

namespace Machine

/-- A run from `m` to `m'` in which always at least `depth` subroutines are under way. -/
inductive Inside (p : Program) (s : Settings) (depth : Nat) : Machine → Machine → Prop
  | stay {m : Machine} : depth ≤ m.returns.length → Inside p s depth m m
  | step {m m₁ m' : Machine} : depth ≤ m.returns.length → m.step p s = .running m₁ →
      Inside p s depth m₁ m' → Inside p s depth m m'

section
variable {p : Program} {s : Settings} {m m' m₁ m₂ : Machine} {line : Line} {here : Position}
  {st : Statement}

/-! ## Inside a subroutine -/

theorem Inside.depth_le {depth : Nat} (h : Inside p s depth m m') : depth ≤ m.returns.length := by
  cases h with
  | stay hdepth => exact hdepth
  | step hdepth _ _ => exact hdepth

/-- A step that leaves at least as many subroutines as `stack` holds leaves `stack` alone. -/
theorem step_suffix {stack : List Position} (hstack : stack <:+ m.returns)
    (hdepth : stack.length ≤ (m.step p s).machine.returns.length) :
    stack <:+ (m.step p s).machine.returns := by
  obtain hsame | ⟨q, hpush⟩ | ⟨q, hpop⟩ := step_returns p s m
  · rw [hsame]
    exact hstack
  · rw [hpush]
    exact hstack.trans (List.suffix_cons q _)
  · rw [hpop, List.suffix_cons_iff] at hstack
    obtain rfl | hsuffix := hstack
    · simp only [List.length_cons] at hdepth
      omega
    · exact hsuffix

theorem Inside.suffix {stack : List Position} (h : Inside p s stack.length m m')
    (hstack : stack <:+ m.returns) : stack <:+ m'.returns := by
  induction h with
  | stay _ => exact hstack
  | step _ hstep hinside ih =>
    apply ih
    have hsuffix := step_suffix (p := p) (s := s) hstack
    rw [hstep] at hsuffix
    exact hsuffix hinside.depth_le

/-! ## Calls and returns -/

theorem Effect.call_returns {flow : Flow} (h : Effect p line here st m flow m')
    (hcall : st.isCall = true) : m'.returns = here.next :: m.returns := by
  have hplain : ¬ st.isPlain = true := by
    cases st <;> simp_all [Statement.isCall, Statement.isPlain]
  cases h with
  | pass hst _ | goto hst _ _ | enter hst _ _ => exact absurd hst hplain
  | finish | stop | beginLoop _ _ _ | endLoops _ | repeatLoop _ _ | returnFrom _ => cases hcall
  | call _ _ _ => rfl

/-- A call that succeeds pushes the place behind it. -/
theorem step_call (hnext : m.pending? p = some (line, st)) (hcall : st.isCall = true)
    (hstep : m.step p s = .running m₁) : m₁.returns = (p.settle m.position).next :: m.returns := by
  obtain ⟨hnone, -⟩ | ⟨line', st', hnext', ⟨flow, m', heffect, hflow⟩ | ⟨cause, m', -, hfail⟩⟩ :=
    step_cases p s m
  · rw [hnext] at hnone
    cases hnone
  · obtain ⟨rfl, rfl⟩ : line = line' ∧ st = st' := by simpa [hnext] using hnext'
    have hm := flow.toStep_machine (p.settle m.position) heffect.position
    rw [← hflow, hstep, Step.machine] at hm
    rw [hm]
    exact heffect.call_returns hcall
  · rw [hfail] at hstep
    cases hstep

/-- RETURN goes where the stack says, if the budget allows. -/
theorem step_return {target : Position} {returns : List Position}
    (hnext : m.pending? p = some (line, .returnFrom)) (hs : s.allows (m.steps + 1) = true)
    (hreturns : m.returns = target :: returns) :
    ∃ m', m.step p s = .running m' ∧ m'.position = target ∧ m'.returns = returns := by
  have hexec : execute p s line (p.settle m.position) .returnFrom (m.begun p) =
      .ok (.jump target) { m.begun p with returns } := by
    have hbegun : (m.begun p).returns = target :: returns := hreturns
    simp only [execute, get_bind, hbegun]
    rfl
  rw [step_allowed hnext hs, hexec]
  exact ⟨_, rfl, rfl, rfl⟩

/-- Evaluating does not depend on where a machine stands or how many statements it has counted. -/
theorem number_begun {e : Expr} {x : Float} (h : number e m = .ok x m') :
    ∃ m'', number e (m.begun p) = .ok x m'' := by
  unfold number evaluate at h ⊢
  simp only [begun]
  cases hx : m.workspace.evalNumber e.tree m.random with
  | ok a random =>
    simp only [hx] at h
    cases h
    exact ⟨_, rfl⟩
  | error e random =>
    simp only [hx] at h
    cases h

theorem lineNumbered_missing {number : Nat} (h : p.findLine? number = none) :
    lineNumbered p number m = .error (.undefinedLine number) m := by
  unfold lineNumbered
  rw [h]
  rfl

theorem gosub_missing {number : Nat} (h : p.findLine? number = none) :
    gosub p here number m = .error (.undefinedLine number) m :=
  bind_of_error (lineNumbered_missing h)

theorem execute_missing (s : Settings) (line : Line) (here : Position) {number : Nat}
    (hcalls : st.Calls m number) (h : p.findLine? number = none) :
    ∃ m', execute p s line here st (m.begun p) = .error (.undefinedLine number) m' := by
  cases st with
  | gosub line' =>
    obtain rfl : line' = number := hcalls
    exact ⟨_, gosub_missing h⟩
  | onGosub index lines =>
    obtain ⟨x, m₁, hx, hone, hline⟩ := hcalls
    obtain ⟨m₂, hx⟩ := number_begun (p := p) hx
    have hpick : pick (Double.truncate x) lines m₂ = .ok number m₂ := by
      unfold pick
      rw [if_pos hone, hline]
      rfl
    refine ⟨m₂, ?_⟩
    rw [execute, bind_of_ok hx, bind_of_ok hpick]
    exact gosub_missing h
  | _ => exact hcalls.elim

/-- **Subroutines are bracketed.** A RETURN that leaves the subroutine called last goes on behind
the call, in the call's own block, with the stack as it was before the call, whatever ran inside. A
call of a line that does not exist fails and leaves the stack alone. -/
theorem subroutines_bracketed (p : Program) (s : Settings) (m : Machine) :
    (∀ line st m₁ m₂ line', m.pending? p = some (line, st) → st.isCall = true →
      m.step p s = .running m₁ → Inside p s (m.returns.length + 1) m₁ m₂ →
      m₂.pending? p = some (line', .returnFrom) → m₂.returns.length = m.returns.length + 1 →
      s.allows (m₂.steps + 1) = true →
      ∃ m₃, m₂.step p s = .running m₃ ∧ m₃.position = (p.settle m.position).next ∧
        m₃.returns = m.returns) ∧
    ∀ line st number, m.pending? p = some (line, st) → st.Calls m number →
      p.findLine? number = none →
      ∃ f m', m.step p s = .ended (.failed f) m' ∧ m'.returns = m.returns ∧
        (s.allows (m.steps + 1) = true → f.cause = .undefinedLine number) := by
  constructor
  · intro line st m₁ m₂ line' hnext hcall hstep hinside hreturn hdepth hs
    have hpush := step_call hnext hcall hstep
    have hsuffix : (p.settle m.position).next :: m.returns <:+ m₂.returns :=
      Inside.suffix hinside (hpush ▸ List.suffix_rfl)
    have hstack : (p.settle m.position).next :: m.returns = m₂.returns :=
      hsuffix.eq_of_length hdepth.symm
    exact step_return hreturn hs hstack.symm
  · intro line st number hnext hcalls hmissing
    by_cases hs : s.allows (m.steps + 1) = true
    · obtain ⟨m', hexec⟩ := execute_missing s line (p.settle m.position) hcalls hmissing
      have hstep := step_allowed hnext hs
      rw [hexec] at hstep
      exact ⟨_, m', hstep, (execute_error hexec).returns, fun _ => rfl⟩
    · obtain ⟨limit, hmax, hlimit⟩ := Settings.exists_limit hs
      exact ⟨_, _, step_refused hnext hmax hlimit, rfl, fun h => absurd h hs⟩

end

/-- A subroutine that calls another one, and a call of a line that does not exist. -/
def nestedCalls : Program :=
  ⟨[⟨10, 1, "GOSUB 30", [.gosub 30]⟩, ⟨20, 2, "GOSUB 99", [.gosub 99]⟩,
    ⟨30, 3, "GOSUB 40:RETURN", [.gosub 40, .returnFrom]⟩, ⟨40, 4, "RETURN", [.returnFrom]⟩]⟩

/-- The machine after `n` statements. -/
def inNestedCalls : Nat → Machine
  | 0 => start nestedCalls (.ofSeed 0) {}
  | n + 1 => ((inNestedCalls n).step nestedCalls {}).machine

/-- The outer subroutine returns behind the first call after the inner one has come and gone; the
second call fails. -/
theorem subroutines_bracketed_nestedCalls :
    Program.parse "10 GOSUB 30\n20 GOSUB 99\n30 GOSUB 40:RETURN\n40 RETURN".toList =
        .ok nestedCalls ∧
      (∃ m, (inNestedCalls 3).step nestedCalls {} = .running m ∧
        m.position = ⟨0, [.gosub 30], 1⟩ ∧ m.returns = []) ∧
      ∃ f m, (inNestedCalls 4).step nestedCalls {} = .ended (.failed f) m ∧ m.returns = [] ∧
        f.cause = .undefinedLine 99 := by
  have hinside : Inside nestedCalls {} 1 (inNestedCalls 1) (inNestedCalls 3) :=
    .step (Nat.le_refl 1) rfl (.step (Nat.le_succ 1) rfl (.stay (Nat.le_refl 1)))
  refine ⟨rfl, ?_, ?_⟩
  · exact (subroutines_bracketed nestedCalls {} (inNestedCalls 0)).1 _ _ _ _ _ rfl rfl rfl hinside
      rfl rfl rfl
  · obtain ⟨f, m, hstep, hreturns, hcause⟩ :=
      (subroutines_bracketed nestedCalls {} (inNestedCalls 4)).2 _ _ 99 rfl rfl rfl
    exact ⟨f, m, hstep, hreturns, hcause rfl⟩

end Machine

end ClassicBasic
