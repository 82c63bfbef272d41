import ClassicBasic.Proofs.Expr.BigStep
import ClassicBasic.Proofs.Machine.Budget

/-!
# Runs with a budget end

Three things a run does are loops without a bound of their own: it goes from statement to statement
and from line to line, INPUT asks until a reply fits, and functions call functions. Each of them is
a relation here that has a derivation only if the loop ends: `Ends` for the run, `Repeats` for
INPUT, and `Evaluates` for calls.

`exists_ends` says that a run with a budget ends. A statement uses up some of the budget; going past
a block that is done does not, but it leaves fewer lines. INPUT ends because every round that asks
again has used up a line of input (`repeats_iff`).
-/

namespace ClassicBasic

namespace Machine

/-! ## Asking for input -/

/-- One round of INPUT: the values of the reply, if it fits. -/
def askOnce (prompt : String) (targets : List Target) : Execution (Option (List Value)) := do
  write (prompt ++ "? ")
  match reply? targets (← readLine) with
  | some values => return some values
  | none =>
    write "?REDO FROM START\n"
    return none

/-- `Repeats x m result`: to do `x` again until it gives something comes to `result`. -/
inductive Repeats {α : Type} (x : Execution (Option α)) :
    Machine → EStateM.Result RuntimeError Machine α → Prop
  | done {m a m'} : x m = .ok (some a) m' → Repeats x m (.ok a m')
  | failed {m e m'} : x m = .error e m' → Repeats x m (.error e m')
  | again {m m' result} : x m = .ok none m' → Repeats x m' result → Repeats x m result

section
variable {prompt : String} {targets : List Target} {m m' : Machine}

/-- An attempt is a round, after which the others follow. -/
theorem ask_succ (attempts : Nat) (m : Machine) :
    ask prompt targets (attempts + 1) m =
      match askOnce prompt targets m with
      | .ok (some values) m' => .ok values m'
      | .ok none m' => ask prompt targets attempts m'
      | .error e m' => .error e m' := by
  rw [ask]
  unfold askOnce
  cases hwrite : write (prompt ++ "? ") m with
  | error e m₁ => simp only [bind_of_error hwrite]
  | ok _ m₁ =>
    simp only [bind_of_ok hwrite]
    cases hread : readLine m₁ with
    | error e m₂ => simp only [bind_of_error hread]
    | ok line m₂ =>
      simp only [bind_of_ok hread]
      cases reply? targets line with
      | some values => rfl
      | none =>
        simp only
        cases hredo : write "?REDO FROM START\n" m₂ with
        | error e m₃ => simp only [bind_of_error hredo]
        | ok _ m₃ =>
          simp only [bind_of_ok hredo]
          rfl

theorem write_input {s : String} {u : Unit} (h : write s m = .ok u m') :
    m'.console.input = m.console.input := by
  rw [write_eq] at h
  cases hc : m.console.write? s with
  | none => simp [hc] at h
  | some console =>
    obtain ⟨left, -, rfl⟩ := Option.map_eq_some_iff.mp hc
    simp only [hc, EStateM.Result.ok.injEq] at h
    rw [← h.2]

theorem readLine_input {line : String} (h : readLine m = .ok line m') :
    m.console.input = line :: m'.console.input := by
  rw [readLine_eq] at h
  cases hc : m.console.read? with
  | none => simp [hc] at h
  | some r =>
    obtain ⟨left, -, hr⟩ := Option.map_eq_some_iff.mp hc
    cases hinput : m.console.input with
    | nil =>
      rw [hinput] at hr
      subst hr
      simp [hc] at h
    | cons l input =>
      rw [hinput] at hr
      subst hr
      simp only [hc, EStateM.Result.ok.injEq] at h
      rw [← h.1, ← h.2]

/-- A round after which INPUT asks again has used up a line. -/
theorem askOnce_input (h : askOnce prompt targets m = .ok none m') :
    m.console.input.length = m'.console.input.length + 1 := by
  obtain ⟨_, m₁, hwrite, h⟩ := bind_ok h
  obtain ⟨line, m₂, hread, h⟩ := bind_ok h
  cases hreply : reply? targets line with
  | some values =>
    rw [hreply] at h
    cases h
  | none =>
    rw [hreply] at h
    obtain ⟨_, m₃, hredo, h⟩ := bind_ok h
    cases h
    rw [← write_input hwrite, readLine_input hread, write_input hredo]
    rfl

/-- **INPUT ends**, and with it all of its rounds: one attempt more than there are lines is as good
as any number of them. -/
theorem repeats_iff {result : EStateM.Result RuntimeError Machine (List Value)} :
    Repeats (askOnce prompt targets) m result ↔
      ask prompt targets (m.console.input.length + 1) m = result := by
  constructor
  · intro h
    induction h with
    | done h => rw [ask_succ, h]
    | failed h => rw [ask_succ, h]
    | again h _ ih =>
      rw [ask_succ, h, askOnce_input h]
      exact ih
  · rintro rfl
    induction hlength : m.console.input.length using Nat.strong_induction_on generalizing m with
    | _ length ih =>
      rw [ask_succ]
      cases h : askOnce prompt targets m with
      | error e m' => exact .failed h
      | ok values m' =>
        cases values with
        | some values => exact .done h
        | none =>
          have hused : length = m'.console.input.length + 1 := by rw [← hlength, askOnce_input h]
          subst hused
          exact .again h (ih _ (by omega) rfl)

end

/-! ## From statement to statement -/

/-- The statement `st` of `line` is the next one. -/
structure Before (p : Program) (line : Line) (st : Statement) (m : Machine) : Prop where
  line : p.lines[m.position.line]? = some line
  statement : m.position.block[m.position.index]? = some st

/-- `Ends p s m n ending final`: a run that has come to `m` goes on to `final`, where it ends, and
executes `n` statements on the way. There is one rule for each turn it can take. -/
inductive Ends (p : Program) (s : Settings) : Machine → Nat → Ending → Machine → Prop
  /-- There are no more lines. -/
  | fellOff {m} : p.lines[m.position.line]? = none → Ends p s m 0 (.finished .fellOff) m
  /-- The block is done, and the run goes past it to the next line. -/
  | pass {m line n ending final} : p.lines[m.position.line]? = some line →
      m.position.block[m.position.index]? = none →
      Ends p s { m with position := p.lineStart (m.position.line + 1) } n ending final →
      Ends p s m n ending final
  /-- The statement is one too many. -/
  | refused {m line st cause final} : Before p line st m → tick s m = .error cause final →
      Ends p s m 0 (.failed ⟨line.location, line.text, cause⟩) final
  | failed {m m' line st cause final} : Before p line st m → tick s m = .ok () m' →
      execute p s line m.position st m' = .error cause final →
      Ends p s m 1 (.failed ⟨line.location, line.text, cause⟩) final
  | halted {m m' line st outcome final} : Before p line st m → tick s m = .ok () m' →
      execute p s line m.position st m' = .ok (.halt outcome) final →
      Ends p s m 1 (.finished outcome) final
  | next {m m' m'' line st n ending final} : Before p line st m → tick s m = .ok () m' →
      execute p s line m.position st m' = .ok .next m'' →
      Ends p s { m'' with position := m.position.next } n ending final →
      Ends p s m (n + 1) ending final
  | jump {m m' m'' line st target n ending final} : Before p line st m → tick s m = .ok () m' →
      execute p s line m.position st m' = .ok (.jump target) m'' →
      Ends p s { m'' with position := target } n ending final →
      Ends p s m (n + 1) ending final

end Machine

namespace Program

variable {p : Program} {q : Position} {line : Line}

theorem settle_of_getElem? {st : Statement} (h : q.block[q.index]? = some st) : p.settle q = q := by
  have hindex := (List.getElem?_eq_some_iff.mp h).1
  simp [settle, hindex]

theorem settle_pastEnd (h : p.lines[q.line]? = none) : p.settle q = q := by
  have hline := List.getElem?_eq_none_iff.mp h
  simp [settle, hline]

/-- To skip empty lines is to go past one and to skip the others. -/
theorem skipEmpty_of_isEmpty {i : Nat} (h : p.lines[i]? = some line) (hline : line.block = []) :
    p.skipEmpty i = p.skipEmpty (i + 1) := by
  obtain ⟨hi, hget⟩ := List.getElem?_eq_some_iff.mp h
  unfold skipEmpty
  rw [List.drop_eq_getElem_cons hi, hget, List.takeWhile_cons]
  simp [hline]
  omega

theorem skipEmpty_of_not_isEmpty {i : Nat} (h : p.lines[i]? = some line) (hline : line.block ≠ []) :
    p.skipEmpty i = i := by
  obtain ⟨hi, hget⟩ := List.getElem?_eq_some_iff.mp h
  unfold skipEmpty
  rw [List.drop_eq_getElem_cons hi, hget, List.takeWhile_cons]
  simp [hline]

theorem skipEmpty_pastEnd {i : Nat} (h : p.lines[i]? = none) : p.skipEmpty i = i := by
  have hi := List.getElem?_eq_none_iff.mp h
  simp [skipEmpty, List.drop_eq_nil_of_le hi]

/-- The start of a line settles where the search for a statement from that line on ends. -/
theorem settle_lineStart (i : Nat) : p.settle (p.lineStart i) = p.lineStart (p.skipEmpty i) := by
  cases h : p.lines[i]? with
  | none =>
    rw [skipEmpty_pastEnd h]
    exact settle_pastEnd h
  | some line =>
    have hi := (List.getElem?_eq_some_iff.mp h).1
    have hblock : (p.lineStart i).block = line.block := by simp [lineStart, h]
    by_cases hline : line.block = []
    · rw [skipEmpty_of_isEmpty h hline]
      unfold settle
      rw [hblock, hline, if_neg (by simp [lineStart]; omega)]
      rfl
    · rw [skipEmpty_of_not_isEmpty h hline]
      have hpos := List.length_pos_iff.mpr hline
      unfold settle
      rw [hblock, if_pos (.inr hpos)]

/-- Going past a block that is done does not change where the run settles. -/
theorem settle_pass (h : p.lines[q.line]? = some line) (hdone : q.block[q.index]? = none) :
    p.settle (p.lineStart (q.line + 1)) = p.settle q := by
  have hline := (List.getElem?_eq_some_iff.mp h).1
  have hindex := List.getElem?_eq_none_iff.mp hdone
  rw [settle_lineStart]
  unfold settle
  rw [if_neg (by omega)]

end Program

namespace Machine

section
variable {p : Program} {s : Settings} {m m' final : Machine} {line : Line} {st : Statement}
  {ending : Ending}

theorem Before.settle (h : Before p line st m) : p.settle m.position = m.position :=
  Program.settle_of_getElem? h.statement

/-- The place of a machine matters only by where it settles. -/
theorem step_settle {q : Position} (h : p.settle q = p.settle m.position) :
    ({ m with position := q } : Machine).step p s = m.step p s := by
  unfold step
  simp only [h]

/-- A step before a statement is its execution. -/
theorem Before.step (h : Before p line st m) (htick : tick s m = .ok () m') :
    m.step p s = match execute p s line m.position st m' with
      | .ok flow m' => flow.toStep m.position m'
      | .error cause m' => .ended (.failed ⟨line.location, line.text, cause⟩) m' := by
  unfold Machine.step
  simp only [h.settle, h.line, h.statement]
  rw [bind_of_ok htick]
  cases execute p s line m.position st m' with
  | error cause m'' => rfl
  | ok flow m'' => cases flow <;> rfl

/-- A run that ends is one that `run` carries out, with a step for each statement and one more. -/
theorem Ends.run {n : Nat} (h : Ends p s m n ending final) :
    m.run p s (n + 1) = some (ending, final) := by
  induction h with
  | @fellOff m h =>
    have hpending : m.pending? p = none := by
      unfold Machine.pending?
      simp only [Program.settle_pastEnd h, h]
    rw [run_ended (step_fellOff hpending), Program.settle_pastEnd h]
  | @pass m line n ending final hline hdone _ ih =>
    rw [Machine.run, step_settle (Program.settle_pass hline hdone)] at ih
    exact ih
  | @refused m line st cause final h htick =>
    refine run_ended ?_
    unfold Machine.step
    simp only [h.settle, h.line, h.statement]
    rw [bind_of_error htick]
  | failed h htick hexec =>
    refine run_ended ?_
    rw [h.step htick, hexec]
  | halted h htick hexec =>
    refine run_ended ?_
    rw [h.step htick, hexec]
    rfl
  | next h htick hexec _ ih =>
    refine (run_running ?_).trans ih
    rw [h.step htick, hexec]
    rfl
  | jump h htick hexec _ ih =>
    refine (run_running ?_).trans ih
    rw [h.step htick, hexec]
    rfl

/-- A run that may execute its next statement ends, if it ends after each statement. -/
theorem Before.exists_ends (h : Before p line st m) (hs : s.allows (m.steps + 1) = true) {k : Nat}
    (hnext : ∀ m' : Machine, m'.steps = m.steps + 1 →
      ∃ n ending final, Ends p s m' n ending final ∧ n ≤ k) :
    ∃ n ending final, Ends p s m n ending final ∧ n ≤ k + 1 := by
  have htick := tick_allowed hs
  cases hexec : execute p s line m.position st { m with steps := m.steps + 1 } with
  | error cause final => exact ⟨1, _, final, .failed h htick hexec, by omega⟩
  | ok flow m' =>
    have hsteps : m'.steps = m.steps + 1 := (execute_effect hexec).steps
    cases flow with
    | halt outcome => exact ⟨1, _, m', .halted h htick hexec, by omega⟩
    | next =>
      obtain ⟨n, ending, final, hends, hn⟩ := hnext { m' with position := m.position.next } hsteps
      exact ⟨n + 1, ending, final, .next h htick hexec hends, by omega⟩
    | jump target =>
      obtain ⟨n, ending, final, hends, hn⟩ := hnext { m' with position := target } hsteps
      exact ⟨n + 1, ending, final, .jump h htick hexec hends, by omega⟩

/-- **A run with a budget ends**, with no more statements executed than are left of it. -/
theorem exists_ends {limit : Nat} (hs : s.maxSteps = some limit) (m : Machine) :
    ∃ n ending final, Ends p s m n ending final ∧ n ≤ limit - m.steps := by
  -- A turn either executes a statement, and less is left of the budget, or it leaves the budget
  -- alone and goes to a later line.
  induction hleft : limit - m.steps using Nat.strong_induction_on generalizing m with
  | _ left ihBudget =>
    induction hrest : p.lines.length - m.position.line using Nat.strong_induction_on
      generalizing m with
    | _ rest ihLines =>
      cases hline : p.lines[m.position.line]? with
      | none => exact ⟨0, _, m, .fellOff hline, by omega⟩
      | some line =>
        have hlength := (List.getElem?_eq_some_iff.mp hline).1
        cases hst : m.position.block[m.position.index]? with
        | none =>
          have hlater : p.lines.length - (m.position.line + 1) < rest := by omega
          obtain ⟨n, ending, final, hends, hn⟩ := ihLines _ hlater
            { m with position := p.lineStart (m.position.line + 1) } hleft rfl
          exact ⟨n, ending, final, .pass hline hst hends, hn⟩
        | some st =>
          have hbefore : Before p line st m := ⟨hline, hst⟩
          by_cases hlimit : limit ≤ m.steps
          · exact ⟨0, _, _, .refused hbefore (tick_refused hs hlimit), by omega⟩
          · have hallows : s.allows (m.steps + 1) = true := by simp [Settings.allows, hs]; omega
            have hless : limit - (m.steps + 1) < left := by omega
            obtain ⟨n, ending, final, hends, hn⟩ := hbefore.exists_ends hallows fun m' hm' =>
              ihBudget _ hless m' (by rw [hm'])
            exact ⟨n, ending, final, hends, by omega⟩

end

/-- **Whatever has a budget ends.** A run with a budget of `limit` statements ends, from any machine
and so also when it is run again, and executes no more of them than the machine has left; `run`
comes to the same end. INPUT ends, and so does the evaluation of every expression, whatever
functions are defined. -/
theorem budgeted_run_ends (p : Program) (limit tabWidth : Nat) :
    (∀ m : Machine, ∃ n ending final,
      Ends p { maxSteps := some limit, tabWidth } m n ending final ∧ n ≤ limit - m.steps ∧
        m.run p { maxSteps := some limit, tabWidth } (n + 1) = some (ending, final)) ∧
    (∀ (m : Machine) (prompt : String) (targets : List Target), Repeats (askOnce prompt targets) m
      (ask prompt targets (m.console.input.length + 1) m)) ∧
    ∀ (w : Workspace) (bound : Bindings) (tree : Tree) (random : Random),
      Evaluates w 0 bound tree random (w.eval bound tree random) := by
  refine ⟨fun m => ?_, fun m prompt targets => repeats_iff.mpr rfl, fun w bound tree random => ?_⟩
  · obtain ⟨n, ending, final, hends, hn⟩ := exists_ends (p := p)
      (s := { maxSteps := some limit, tabWidth }) rfl m
    exact ⟨n, ending, final, hends, hn, hends.run⟩
  · exact (w.evaluates_iff 0 bound tree random _).mpr rfl

end Machine

end ClassicBasic
