import ClassicBasic.Proofs.Machine.Stepping

/-!
# The budget of statements

A budget decides nothing but where a run is cut off. Executing a statement reads the settings only
for the width of the columns, so two machines that differ in their budgets take the same steps as
long as both budgets allow them (`step_congr`). A run that ends after `k` statements is therefore
the same under every budget of at least `k`, and under a smaller budget of `n` it stops before its
statement number `n + 1` with all that the first `n` have done.
-/

namespace ClassicBasic

/-! ## What has been written -/

/-- What was written stays written. -/
theorem Console.output_prefix {c c' : Console} (h : c.log <:+ c'.log) :
    c.output.toList <+: c'.output.toList := by
  obtain ⟨later, hlog⟩ := h
  unfold output
  rw [← hlog, List.reverse_append, List.map_append, String.join_append, String.toList_append]
  exact List.prefix_append _ _

namespace Machine

/-- The machine after `n` statements; nothing if the run ends before. -/
def advance? (p : Program) (s : Settings) : (n : Nat) → Machine → Option Machine
  | 0, m => some m
  | n + 1, m =>
    match m.step p s with
    | .running m' => advance? p s n m'
    | .ended _ _ => none

section
variable {p : Program} {s s' : Settings} {m m' final : Machine} {line : Line} {here : Position}
  {ending : Ending}

/-! ## Steps under two budgets -/

theorem printItem_congr (h : s.tabWidth = s'.tabWidth) : printItem s = printItem s' := by
  funext item
  cases item with
  | comma => simp only [printItem, h]
  | _ => rfl

theorem execute_congr (h : s.tabWidth = s'.tabWidth) (st : Statement) :
    execute p s line here st = execute p s' line here st := by
  cases st with
  | print items => simp only [execute, print, printItem_congr h]
  | next vars => cases vars <;> rfl
  | _ => rfl

/-- Two budgets that allow the next statement make no difference to it. -/
theorem step_congr (h : s.tabWidth = s'.tabWidth) (hs : s.allows (m.steps + 1) = true)
    (hs' : s'.allows (m.steps + 1) = true) : m.step p s = m.step p s' := by
  cases hnext : m.pending? p with
  | none => rw [step_fellOff hnext, step_fellOff hnext]
  | some next => rw [step_allowed hnext hs, step_allowed hnext hs', execute_congr h]

theorem steps_of_running (h : m.step p s = .running m') : m'.steps = m.steps + 1 := by
  have hsteps := step_steps p s m
  cases hnext : m.pending? p with
  | none =>
    rw [step_fellOff hnext] at h
    cases h
  | some next =>
    simp only [h, hnext, Step.machine, Option.isSome_some, if_true] at hsteps
    exact hsteps

theorem steps_of_ended (h : m.step p s = .ended ending m') :
    m'.steps = m.steps + if (m.pending? p).isSome then 1 else 0 := by
  have hsteps := step_steps p s m
  rw [h] at hsteps
  exact hsteps

/-! ## Runs under two budgets -/

theorem run_running {fuel : Nat} (h : m.step p s = .running m') :
    run p s (fuel + 1) m = run p s fuel m' := by
  rw [run, h]

theorem run_ended {fuel : Nat} (h : m.step p s = .ended ending m') :
    run p s (fuel + 1) m = some (ending, m') := by
  rw [run, h]

/-- What every step respects, a run that ends does. -/
theorem run_respects {R : Machine → Machine → Prop} {fuel : Nat}
    (htrans : ∀ {m₁ m₂ m₃}, R m₁ m₂ → R m₂ m₃ → R m₁ m₃) (hR : ∀ m, R m (m.step p s).machine)
    (h : run p s fuel m = some (ending, final)) : R m final := by
  induction fuel generalizing m with
  | zero => cases h
  | succ fuel ih =>
    have hm := hR m
    cases hstep : m.step p s with
    | running m' =>
      rw [run_running hstep] at h
      rw [hstep] at hm
      exact htrans hm (ih h)
    | ended ending' m' =>
      rw [run_ended hstep] at h
      cases h
      rw [hstep] at hm
      exact hm

theorem run_steps_le {fuel : Nat} (h : run p s fuel m = some (ending, final)) :
    m.steps ≤ final.steps :=
  run_respects (R := fun m m' => m.steps ≤ m'.steps) Nat.le_trans
    (fun m => step_steps p s m ▸ Nat.le_add_right _ _) h

theorem run_log {fuel : Nat} (h : run p s fuel m = some (ending, final)) :
    m.console.log <:+ final.console.log :=
  run_respects (R := fun m m' => m.console.log <:+ m'.console.log) List.IsSuffix.trans
    (step_log p s) h

/-- A run without budget is the same under every budget that it does not exceed. -/
theorem run_within {fuel n : Nat} (hs : s.maxSteps = none)
    (h : run p s fuel m = some (ending, final)) (hn : final.steps ≤ n) :
    run p { s with maxSteps := some n } fuel m = some (ending, final) := by
  induction fuel generalizing m with
  | zero => cases h
  | succ fuel ih =>
    cases hstep : m.step p s with
    | running m' =>
      rw [run_running hstep] at h
      have hle := run_steps_le h
      have hsteps := steps_of_running hstep
      have hstep' : m.step p { s with maxSteps := some n } = .running m' := by
        rw [← hstep]
        exact step_congr rfl (by simp [Settings.allows]; omega) (Settings.allows_unlimited hs _)
      rw [run_running hstep']
      exact ih h
    | ended ending' m' =>
      rw [run_ended hstep] at h
      cases h
      have hsteps := steps_of_ended hstep
      have hstep' : m.step p { s with maxSteps := some n } = .ended ending final := by
        rw [← hstep]
        cases hnext : m.pending? p with
        | none => rw [step_fellOff hnext, step_fellOff hnext]
        | some next =>
          simp only [hnext, Option.isSome_some, if_true] at hsteps
          exact step_congr rfl (by simp [Settings.allows]; omega) (Settings.allows_unlimited hs _)
      exact run_ended hstep'

/-- A run that exceeds a budget is cut off before the statement that does. -/
theorem run_cut {fuel k n : Nat} (hs : s.maxSteps = none)
    (h : run p s fuel m = some (ending, final)) (hk : m.steps + k = n) (hn : n < final.steps) :
    ∃ mid line st, advance? p s k m = some mid ∧ mid.steps = n ∧ mid.pending? p = some (line, st) ∧
      run p { s with maxSteps := some n } fuel m =
        some (.failed ⟨line.location, line.text, .stepLimit n⟩, mid.begun p) ∧
      mid.console.log <:+ final.console.log := by
  induction fuel generalizing m k with
  | zero => cases h
  | succ fuel ih =>
    cases k with
    | zero =>
      -- The budget is used up. A run that goes on has a statement to execute, which is refused.
      cases hnext : m.pending? p with
      | none =>
        rw [run_ended (step_fellOff hnext)] at h
        cases h
        have hlt : n < m.steps := hn
        omega
      | some next =>
        obtain ⟨line, st⟩ := next
        refine ⟨m, line, st, rfl, hk, hnext, ?_, run_log h⟩
        exact run_ended (step_refused hnext rfl (Nat.le_of_eq hk.symm))
    | succ k =>
      have hstep' : m.step p { s with maxSteps := some n } = m.step p s :=
        step_congr rfl (by simp [Settings.allows]; omega) (Settings.allows_unlimited hs _)
      cases hstep : m.step p s with
      | running m' =>
        rw [run_running hstep] at h
        have hsteps := steps_of_running hstep
        obtain ⟨mid, line, st, hmid, hrest⟩ := ih h (k := k) (by omega)
        refine ⟨mid, line, st, ?_, ?_⟩
        · rw [advance?, hstep]
          exact hmid
        · rw [run_running (hstep'.trans hstep)]
          exact hrest
      | ended ending' m' =>
        rw [run_ended hstep] at h
        cases h
        have hsteps := steps_of_ended hstep
        split at hsteps <;> omega

/-- **A budget only cuts a run short.** A run without budget that ends with the count of statements
`final.steps` ends in the same way under every budget of at least that many. A smaller budget of `n`
stops it before a statement, in the state after the first `n`, with that statement counted, and what
it has written is what the whole run writes first. -/
theorem run_budget {p : Program} {random : Random} {console : Console} {tabWidth fuel : Nat}
    {ending : Ending} {final : Machine}
    (h : (start p random console).run p { tabWidth } fuel = some (ending, final)) :
    (∀ n, final.steps ≤ n → (start p random console).run p { maxSteps := some n, tabWidth } fuel =
      some (ending, final)) ∧
    ∀ n, n < final.steps →
      ∃ mid line st, (start p random console).advance? p { tabWidth } n = some mid ∧ mid.steps = n ∧
        mid.pending? p = some (line, st) ∧
        (start p random console).run p { maxSteps := some n, tabWidth } fuel =
          some (.failed ⟨line.location, line.text, .stepLimit n⟩,
            { mid with position := p.settle mid.position, steps := n + 1 }) ∧
        mid.console.output.toList <+: final.console.output.toList := by
  refine ⟨fun n hn => run_within rfl h hn, fun n hn => ?_⟩
  obtain ⟨mid, line, st, hmid, hsteps, hnext, hrun, hlog⟩ := run_cut rfl h (Nat.zero_add n) hn
  refine ⟨mid, line, st, hmid, hsteps, hnext, ?_, Console.output_prefix hlog⟩
  rw [← hsteps] at hrun ⊢
  exact hrun

end

/-- A program that writes two lines. -/
def twoLines : Program :=
  ⟨[⟨10, 1, "PRINT \"A\"", [.print [.expr ⟨"\"A\"", .single (.text "A")⟩]]⟩,
    ⟨20, 2, "PRINT \"B\"", [.print [.expr ⟨"\"B\"", .single (.text "B")⟩]]⟩]⟩

/-- A budget of two statements changes nothing; one of a single statement cuts the run off before it
has written the second line. -/
theorem run_budget_twoLines :
    ∃ ending final, (start twoLines (.ofSeed 0) {}).run twoLines {} 3 = some (ending, final) ∧
      final.steps = 2 ∧ final.console.output = "A\nB\n" ∧
      (start twoLines (.ofSeed 0) {}).run twoLines { maxSteps := some 2 } 3 = some (ending, final) ∧
      ∃ f cut, (start twoLines (.ofSeed 0) {}).run twoLines { maxSteps := some 1 } 3 =
          some (.failed f, cut) ∧
        f.cause = .stepLimit 1 ∧ cut.console.output.toList <+: final.console.output.toList := by
  have hshown : ((start twoLines (.ofSeed 0) {}).run twoLines {} 3).map
      (fun r => (r.2.steps, r.2.console.output)) = some (2, "A\nB\n") := by decide +kernel
  obtain ⟨⟨ending, final⟩, h, hfinal⟩ := Option.map_eq_some_iff.mp hshown
  obtain ⟨hsteps, houtput⟩ := Prod.mk.inj hfinal
  obtain ⟨hwithin, hcut⟩ := run_budget h
  obtain ⟨mid, line, st, -, -, -, hrun, hprefix⟩ := hcut 1 (hsteps ▸ Nat.lt_succ_self 1)
  exact ⟨ending, final, h, hsteps, houtput, hwithin 2 (Nat.le_of_eq hsteps), _, _, hrun, rfl,
    hprefix⟩

end Machine

end ClassicBasic
