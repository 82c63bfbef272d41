import ClassicBasic.Proofs.Machine.Stepping

/-!
# Faults leave what is stored alone

A statement that fails has drawn, written and read as far as it came, but it has stored nothing and
left the loops, the subroutines and the DATA cursor as they were (`execute_untouched`): all that can
fail is done before the first update. This holds of all statements but those that go through a list
and store on the way: READ, DIM of several arrays, NEXT with several names, and INPUT into an
element of an array, whose subscripts are evaluated when the values before it are stored.

`Atomic x` says it of one execution. Evaluating and talking keep what is stored whatever comes of
them (`Untouched.quiet`), so an execution is atomic if it begins with such a part and what follows
is atomic (`Atomic.bind`), and if it cannot fail at all.
-/

namespace ClassicBasic

/-- A target that cannot refuse a value. -/
def Target.isScalar : Target → Bool
  | .scalar _ => true
  | .element _ => false

/-- Whether a statement does all that can fail before it changes what is stored. -/
def Statement.isAtomic : Statement → Bool
  | .read _ => false
  | .dim arrays => arrays.length ≤ 1
  | .next vars => vars.length ≤ 1
  | .input _ targets => targets.all Target.isScalar
  | _ => true

namespace Machine

/-- `m'` differs from `m` in what it has drawn, read, written and counted, and in nothing else. -/
structure Untouched (m m' : Machine) : Prop where
  position : m'.position = m.position
  workspace : m'.workspace = m.workspace
  loops : m'.loops = m.loops
  returns : m'.returns = m.returns
  data : m'.data = m.data

theorem Untouched.quiet : Quiet Untouched where
  refl _ := ⟨rfl, rfl, rfl, rfl, rfl⟩
  trans h₁ h₂ :=
    ⟨h₂.position.trans h₁.position, h₂.workspace.trans h₁.workspace, h₂.loops.trans h₁.loops,
      h₂.returns.trans h₁.returns, h₂.data.trans h₁.data⟩
  random _ _ := ⟨rfl, rfl, rfl, rfl, rfl⟩
  column _ _ := ⟨rfl, rfl, rfl, rfl, rfl⟩
  write _ := ⟨rfl, rfl, rfl, rfl, rfl⟩
  read _ := ⟨rfl, rfl, rfl, rfl, rfl⟩

theorem Untouched.eq {m m' : Machine} (h : Untouched m m') :
    m' = { m with
      random := m'.random, console := m'.console, column := m'.column, steps := m'.steps } := by
  cases m'
  cases h
  subst_vars
  rfl

section
variable {α β : Type}

/-- A fault of `x` leaves the machine untouched. -/
structure Atomic (x : Execution α) : Prop where
  error : ∀ {m e m'}, x m = .error e m' → Untouched m m'

/-! ## Sequences -/

namespace Atomic

theorem of_keeps {x : Execution α} (h : Keeps Untouched x) : Atomic x := ⟨h.error⟩

/-- What cannot fail is atomic. -/
theorem of_sure {x : Execution α} (h : ∀ m, ∃ a m', x m = .ok a m') : Atomic x where
  error {m e m'} hfail := by
    obtain ⟨a, m₁, hok⟩ := h m
    rw [hok] at hfail
    cases hfail

theorem bind {x : Execution α} {f : α → Execution β} (hx : Keeps Untouched x)
    (hf : ∀ a, Atomic (f a)) : Atomic (x >>= f) where
  error h := by
    obtain h | ⟨a, m₁, h₁, h⟩ := bind_error h
    · exact hx.error h
    · exact Untouched.quiet.trans (hx.ok h₁) ((hf a).error h)

/-- What cannot fail may follow what is atomic. -/
theorem andSure {x : Execution α} {f : α → Execution β} (hx : Atomic x)
    (hf : ∀ a m, ∃ b m', f a m = .ok b m') : Atomic (x >>= f) where
  error h := by
    obtain h | ⟨a, m₁, -, h⟩ := bind_error h
    · exact hx.error h
    · obtain ⟨b, m₂, hok⟩ := hf a m₁
      rw [hok] at h
      cases h

end Atomic

/-! ## Storing -/

/-- The coordinates of an element, or the sizes of an array. -/
theorem subscripts_untouched (a : Element) (f : Float → Except GridError Nat) :
    Keeps Untouched (a.subscripts.mapM fun s => do onArray a.name (f (← number s))) :=
  have hU := Untouched.quiet
  .mapM hU (fun s => .bind hU (number_keeps hU s) fun _ => onArray_keeps hU _ _) _

theorem storeElement_atomic (a : Element) (v : Value) : Atomic (storeElement a v) := by
  have hU := Untouched.quiet
  refine .bind (subscripts_untouched a Grid.coordinate) fun coordinates => ?_
  refine .bind (.get hU) fun m => ?_
  split
  · exact .bind (onArray_keeps hU _ _) fun g => .of_sure fun m => ⟨_, _, rfl⟩
  · exact .of_keeps (.throw hU _)

theorem store_atomic (v : Value) (t : Target) : Atomic (store v t) := by
  cases t with
  | scalar name => exact .of_sure fun m => ⟨_, _, rfl⟩
  | element a => exact storeElement_atomic a v

theorem dimension_atomic (a : Element) : Atomic (dimension a) := by
  refine .bind (subscripts_untouched a Grid.sizeOf) fun sizes => ?_
  exact .bind (onArray_keeps Untouched.quiet _ _) fun g => .of_sure fun m => ⟨_, _, rfl⟩

/-- Values that go into variables are stored without fault. -/
theorem store_scalars {pairs : List (Target × Value)} (h : ∀ tv ∈ pairs, tv.1.isScalar = true)
    (m : Machine) : ∃ m', (pairs.forM fun tv => store tv.2 tv.1) m = .ok () m' := by
  induction pairs generalizing m with
  | nil => exact ⟨m, rfl⟩
  | cons tv pairs ih =>
    obtain ⟨htv, hpairs⟩ := List.forall_mem_cons.mp h
    obtain ⟨⟨name⟩ | a, v⟩ := tv
    · exact ih hpairs _
    · cases htv

theorem input_atomic (prompt : Option String) {targets : List Target}
    (h : targets.all Target.isScalar = true) : Atomic (input prompt targets) := by
  have hU := Untouched.quiet
  refine .bind (.get hU) fun m => .bind (ask_keeps hU _ targets _) fun values => ?_
  have hscalar : ∀ tv ∈ targets.zip values, tv.1.isScalar = true :=
    fun tv htv => List.all_eq_true.mp h tv.1 (List.of_mem_zip htv).1
  exact .of_sure fun m => ⟨(), store_scalars hscalar m⟩

/-! ## Loops and jumps -/

theorem beginLoop_atomic (here : Position) (var : String) (first limit step : Expr) :
    Atomic (beginLoop here var first limit step) := by
  have hU := Untouched.quiet
  refine .bind (number_keeps hU first) fun x => .bind (number_keeps hU limit) fun y => ?_
  exact .bind (number_keeps hU step) fun z => .of_sure fun m => ⟨_, _, rfl⟩

theorem nextLoop_atomic (var : Option String) : Atomic (nextLoop var) where
  error {m e m'} h := by
    obtain ⟨e', he⟩ | ⟨m₁, h₁, -⟩ | ⟨m₁, l, outer, h₁, -⟩ := nextLoop_cases var m
    · rw [he] at h
      cases h
      exact Untouched.quiet.refl m
    · rw [h₁] at h
      cases h
    · rw [h₁] at h
      cases h

/-- Behind the loop over a single name there is none that could fail. -/
theorem nextLoops_singleton_atomic (var : String) : Atomic (nextLoops [var]) := by
  refine .andSure (nextLoop_atomic (some var)) fun flow m => ?_
  cases flow <;> exact ⟨_, _, rfl⟩

theorem gosub_atomic (p : Program) (here : Position) (number : Nat) :
    Atomic (gosub p here number) := by
  exact .bind (lineNumbered_keeps Untouched.quiet p number) fun target =>
    .of_sure fun m => ⟨_, _, rfl⟩

/-! ## Statements -/

section
variable {p : Program} {s : Settings} {line : Line} {here : Position} {st : Statement}

theorem execute_atomic (hst : st.isAtomic = true) : Atomic (execute p s line here st) := by
  have hU := Untouched.quiet
  have hgoto (number : Nat) :
      Atomic (do return Flow.jump (← lineNumbered p number) : Execution Flow) :=
    .andSure (.of_keeps (lineNumbered_keeps hU p number)) fun _ _ => ⟨_, _, rfl⟩
  have hsure {flow : Flow} : Atomic (return flow : Execution Flow) := .of_keeps (.pure hU flow)
  have hnext {x : Execution Unit} (hx : Atomic x) : Atomic (do x; return Flow.next) :=
    .andSure hx fun _ _ => ⟨_, _, rfl⟩
  cases st with
  | data | remark | finish | stop => exact hsure
  | define | restore => exact .of_sure fun m => ⟨_, _, rfl⟩
  | dim arrays =>
    refine hnext ?_
    match arrays, hst with
    | [], _ => exact .of_keeps (.pure hU ())
    | [a], _ => exact .andSure (dimension_atomic a) fun _ _ => ⟨_, _, rfl⟩
  | forLoop var first limit step => exact beginLoop_atomic here var first limit step
  | next vars =>
    match vars, hst with
    | [], _ => exact nextLoop_atomic none
    | [var], _ => exact nextLoops_singleton_atomic var
  | goto number => exact hgoto number
  | gosub number => exact gosub_atomic p here number
  | returnFrom =>
    refine .bind (.get hU) fun m => ?_
    split
    · exact .of_sure fun m => ⟨_, _, rfl⟩
    · exact .of_keeps (.throw hU _)
  | ifLine condition number =>
    refine .bind (value_keeps hU condition) fun v => ?_
    split
    · exact hgoto number
    · exact hsure
  | ifElseLine condition number elseNumber =>
    exact .bind (value_keeps hU condition) fun v => hgoto _
  | ifThen condition | ifElse condition =>
    refine .bind (value_keeps hU condition) fun v => ?_
    split <;> exact hsure
  | input prompt targets => exact hnext (input_atomic prompt hst)
  | letTo target e => exact .bind (value_keeps hU e) fun v => hnext (store_atomic v target)
  | assign var e =>
    exact .bind (value_keeps hU e) fun v => hnext (store_atomic v (.scalar var))
  | assignElement target e =>
    exact .bind (value_keeps hU e) fun v => hnext (storeElement_atomic target v)
  | onGoto index lines =>
    exact .bind (number_keeps hU index) fun x => .bind (pick_keeps hU _ lines) hgoto
  | onGosub index lines =>
    exact .bind (number_keeps hU index) fun x => .bind (pick_keeps hU _ lines) (gosub_atomic p here)
  | print items => exact hnext (.of_keeps (print_keeps hU s items))
  | read => cases hst

/-- Counting a statement touches nothing. -/
theorem tick_keeps (s : Settings) : Keeps Untouched (tick s) where
  ok {m _ m'} h := by
    by_cases hs : s.allows (m.steps + 1) = true
    · rw [tick_allowed hs] at h
      cases h
      exact ⟨rfl, rfl, rfl, rfl, rfl⟩
    · obtain ⟨limit, hmax, hlimit⟩ := Settings.exists_limit hs
      rw [tick_refused hmax hlimit] at h
      cases h
  error {m e m'} h := by
    by_cases hs : s.allows (m.steps + 1) = true
    · rw [tick_allowed hs] at h
      cases h
    · obtain ⟨limit, hmax, hlimit⟩ := Settings.exists_limit hs
      rw [tick_refused hmax hlimit] at h
      cases h
      exact ⟨rfl, rfl, rfl, rfl, rfl⟩

/-- **Faults leave what is stored alone.** In whatever state a statement is counted and executed,
unless it is a READ, a DIM of several arrays, a NEXT with several names or an INPUT into an element
of an array: if that fails, the machine it leaves has the variables, functions, arrays, loops,
subroutines and place in the DATA that it had before, and differs at most in the random stream, the
console, the column and the count of statements. -/
theorem execute_untouched {m m' : Machine} {e : RuntimeError} (hst : st.isAtomic = true)
    (h : (do tick s; execute p s line here st : Execution Flow) m = .error e m') :
    m' = { m with
      random := m'.random, console := m'.console, column := m'.column, steps := m'.steps } :=
  ((Atomic.bind (tick_keeps s) fun _ => execute_atomic hst).error h).eq

end

end

/-- A subroutine that asks for a number. -/
def askInside : Program :=
  ⟨[⟨10, 1, "GOSUB 20", [.gosub 20]⟩, ⟨20, 2, "INPUT A", [.input none [.scalar "A"]]⟩]⟩

/-- The machine in the subroutine, where a single line is left to be read, which is no number. -/
def askInsideCalled : Machine :=
  ((start askInside (.ofSeed 0) { input := ["X"] }).step askInside {}).machine

/-- What is done there next. -/
def askInsideNext : Execution Flow := do
  tick {}
  execute askInside {} default (askInside.lineStart 1) (.input none [.scalar "A"])

/-- The question is asked, the reply is read, the question is asked again, and then the input is
closed: the subroutine is still under way, and no variable was set. -/
theorem execute_untouched_askInside :
    Reachable askInside {} askInsideCalled ∧ askInsideCalled.returns.length = 1 ∧
      ∃ m', askInsideNext askInsideCalled = .error .inputClosed m' ∧
        m'.console.log = [.wrote "? ", .wrote "?REDO FROM START\n", .read "X", .wrote "? "] ∧
        m'.returns = askInsideCalled.returns ∧ m'.workspace = askInsideCalled.workspace := by
  have hfault : ∃ m', askInsideNext askInsideCalled = .error .inputClosed m' ∧
      m'.console.log = [.wrote "? ", .wrote "?REDO FROM START\n", .read "X", .wrote "? "] :=
    ⟨_, rfl, rfl⟩
  obtain ⟨m', hfault, hlog⟩ := hfault
  have hatomic : (Statement.input none [.scalar "A"]).isAtomic = true := rfl
  have huntouched := execute_untouched hatomic hfault
  refine ⟨.step (.start (.ofSeed 0) _), rfl, m', hfault, hlog, ?_, ?_⟩
  · rw [huntouched]
  · rw [huntouched]

end Machine

end ClassicBasic
