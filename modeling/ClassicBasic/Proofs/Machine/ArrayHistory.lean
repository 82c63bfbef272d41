import ClassicBasic.Proofs.Machine.Atomicity

/-!
# What happens to arrays

Beside a run it is written down what happens to arrays: `statementEvents` lists what a statement
does to them, up to where it fails if it does, and `History` collects this over whole runs. The
workspace changes by these events and by nothing else (`execute_writes`, `step_writes`), so what
holds of the arrays of all reachable machines can be shown for one event at a time.
-/

namespace ClassicBasic

/-! ## What happens to arrays -/

/-- What can happen to the arrays of a program, and to the names they are read by. -/
inductive ArrayEvent where
  | dimensioned (name : String)
  | defined (name : String)
  | stored (name : String) (cs : List Nat) (v : Value)

namespace ArrayEvent

/-- The value that was last stored at the coordinates `cs` of the array `name` since it was made.
The latest event comes first. -/
def lastStored? (name : String) (cs : List Nat) : List ArrayEvent → Option Value
  | [] => none
  | .stored name' cs' v :: earlier =>
    if name' = name ∧ cs' = cs then some v else lastStored? name cs earlier
  | .dimensioned name' :: earlier => if name' = name then none else lastStored? name cs earlier
  | .defined _ :: earlier => lastStored? name cs earlier

/-- Whether an event may change what is read at the coordinates `cs` of `name`. -/
def Replaces (name : String) (cs : List Nat) : ArrayEvent → Prop
  | .stored name' cs' _ => name' = name ∧ cs' = cs
  | .dimensioned name' | .defined name' => name' = name

/-- `w'` is `w` after an event, up to the variables. -/
def Applies (w : Workspace) (w' : Workspace) : ArrayEvent → Prop
  | .dimensioned name => ∃ sizes g, Grid.make (Kind.ofName name) sizes = .ok g ∧
      w'.functions = w.functions.insert name .array ∧ w'.arrays = w.arrays.insert name g
  | .defined name => ∃ params body,
      w'.functions = w.functions.insert name (.defined params body) ∧ w'.arrays = w.arrays
  | .stored name cs v => ∃ g g', w.arrays.get? name = some g ∧ g.set cs v = .ok g' ∧
      w'.functions = w.functions ∧ w'.arrays = w.arrays.insert name g'

end ArrayEvent

/-- `w'` is `w` after some events, the first of which comes first, up to the variables. -/
inductive Written : Workspace → List ArrayEvent → Workspace → Prop
  | nil {w w' : Workspace} : w'.functions = w.functions → w'.arrays = w.arrays → Written w [] w'
  | cons {w w₁ w' : Workspace} {e : ArrayEvent} {es : List ArrayEvent} :
      e.Applies w w₁ → Written w₁ es w' → Written w (e :: es) w'

namespace Written

variable {w w₁ w' : Workspace} {es es' : List ArrayEvent}

theorem refl (w : Workspace) : Written w [] w := .nil rfl rfl

theorem single {e : ArrayEvent} (h : e.Applies w w') : Written w [e] w' := .cons h (.refl w')

theorem congr (hf : w₁.functions = w.functions) (ha : w₁.arrays = w.arrays)
    (h : Written w₁ es w') : Written w es w' := by
  cases h with
  | nil hf' ha' => exact .nil (hf'.trans hf) (ha'.trans ha)
  | @cons _ _ _ e _ he hes =>
    refine .cons ?_ hes
    cases e <;> simpa only [ArrayEvent.Applies, hf, ha] using he

theorem trans (h : Written w es w₁) (h' : Written w₁ es' w') : Written w (es ++ es') w' := by
  induction h with
  | nil hf ha => exact h'.congr hf ha
  | cons he _ ih => exact .cons he (ih h')

end Written

namespace Machine

variable {α β : Type}

/-- The coordinates of an element. -/
def coordinates (a : Element) : Execution (List Nat) :=
  a.subscripts.mapM fun s => do onArray a.name (Grid.coordinate (← number s))

/-- What happens when `v` is stored in a target. -/
def storeEvents (v : Value) : Target → Machine → List ArrayEvent
  | .scalar _, _ => []
  | .element a, m =>
    match coordinates a m, storeElement a v m with
    | .ok cs _, .ok _ _ => [.stored a.name cs v]
    | _, _ => []

def dimensionEvents (a : Element) (m : Machine) : List ArrayEvent :=
  match dimension a m with
  | .ok _ _ => [.dimensioned a.name]
  | .error _ _ => []

def readEvents (target : Target) (m : Machine) : List ArrayEvent :=
  match m.data.read? with
  | some (v, data) =>
    match convertFor target.name v with
    | .ok v => storeEvents v target { m with data }
    | .error _ => []
  | none => []

/-- What happens when `f` is done for each of a list, up to the first time that it fails. -/
def eventsInTurn (f : α → Execution Unit) (events : α → Machine → List ArrayEvent) :
    List α → Machine → List ArrayEvent
  | [], _ => []
  | a :: as, m =>
    events a m ++
      match f a m with
      | .ok _ m' => eventsInTurn f events as m'
      | .error _ _ => []

/-- What happens after `x`, if it succeeds. -/
def eventsAfter (x : Execution α) (events : α → Machine → List ArrayEvent) (m : Machine) :
    List ArrayEvent :=
  match x m with
  | .ok a m' => events a m'
  | .error _ _ => []

/-- What happens to arrays when a statement is executed. -/
def statementEvents : Statement → Machine → List ArrayEvent
  | .define name _ _, _ => [.defined name]
  | .dim arrays, m => eventsInTurn dimension dimensionEvents arrays m
  | .letTo target e, m => eventsAfter (value e) (fun v => storeEvents v target) m
  | .assignElement a e, m => eventsAfter (value e) (fun v => storeEvents v (.element a)) m
  | .read targets, m => eventsInTurn readInto readEvents targets m
  | .input prompt targets, m =>
    eventsAfter (ask (prompt.getD "") targets (m.console.input.length + 1))
      (fun values => eventsInTurn (fun tv => store tv.2 tv.1) (fun tv => storeEvents tv.2 tv.1)
        (targets.zip values)) m
  | _, _ => []

/-- What happens to arrays in the next step. -/
def stepEvents (p : Program) (s : Settings) (m : Machine) : List ArrayEvent :=
  match m.pending? p with
  | some (_, st) => if s.allows (m.steps + 1) then statementEvents st (m.begun p) else []
  | none => []

/-- `log` is what has happened to arrays, the latest first, when runs of `p` have come to `m`. -/
inductive History (p : Program) (s : Settings) : List ArrayEvent → Machine → Prop
  | start (random : Random) (console : Console) : History p s [] (start p random console)
  | step {log : List ArrayEvent} {m : Machine} : History p s log m →
      History p s ((m.stepEvents p s).reverse ++ log) (m.step p s).machine
  | restart {log : List ArrayEvent} {m : Machine} : History p s log m →
      History p s log (m.restart p)
  | console {log : List ArrayEvent} {m : Machine} (console : Console) : History p s log m →
      History p s log { m with console }

/-- All reachable machines have a history. -/
theorem reachable_iff_history {p : Program} {s : Settings} {m : Machine} :
    Reachable p s m ↔ ∃ log, History p s log m := by
  constructor
  · intro h
    induction h with
    | start random console => exact ⟨[], .start random console⟩
    | step _ ih => exact ih.elim fun _ h => ⟨_, h.step⟩
    | restart _ ih => exact ih.elim fun _ h => ⟨_, h.restart⟩
    | console c _ ih => exact ih.elim fun _ h => ⟨_, h.console c⟩
  · rintro ⟨log, h⟩
    induction h with
    | start random console => exact .start random console
    | step _ ih => exact ih.step
    | restart _ ih => exact ih.restart
    | console c _ ih => exact ih.console c

/-! ## Executions write what their events say -/

/-- Whether `x` succeeds or fails, the workspace changes by `events`. -/
structure Writes (events : Machine → List ArrayEvent) (x : Execution α) : Prop where
  ok : ∀ {m a m'}, x m = .ok a m' → Written m.workspace (events m) m'.workspace
  error : ∀ {m e m'}, x m = .error e m' → Written m.workspace (events m) m'.workspace

/-- `m'` has the functions and arrays of `m`. -/
def SameArrays (m m' : Machine) : Prop :=
  m'.workspace.functions = m.workspace.functions ∧ m'.workspace.arrays = m.workspace.arrays

theorem SameArrays.quiet : Quiet SameArrays where
  refl _ := ⟨rfl, rfl⟩
  trans h₁ h₂ := ⟨h₂.1.trans h₁.1, h₂.2.trans h₁.2⟩
  random _ _ := ⟨rfl, rfl⟩
  column _ _ := ⟨rfl, rfl⟩
  write _ := ⟨rfl, rfl⟩
  read _ := ⟨rfl, rfl⟩

theorem setVariable_sameArrays (name : String) (v : Value) :
    Keeps SameArrays (setVariable name v) :=
  .modify fun _ => ⟨rfl, rfl⟩

namespace Writes

variable {events : Machine → List ArrayEvent} {x : Execution α}

theorem of_keeps (h : Keeps SameArrays x) : Writes (fun _ => []) x where
  ok hm := .nil (h.ok hm).1 (h.ok hm).2
  error hm := .nil (h.error hm).1 (h.error hm).2

theorem after {f : α → Execution β} {events : α → Machine → List ArrayEvent}
    (hx : Keeps SameArrays x) (hf : ∀ a, Writes (events a) (f a)) :
    Writes (eventsAfter x events) (x >>= f) where
  ok {m b m'} h := by
    obtain ⟨a, m₁, h₁, h₂⟩ := bind_ok h
    simp only [eventsAfter, h₁]
    exact ((hf a).ok h₂).congr (hx.ok h₁).1 (hx.ok h₁).2
  error {m e m'} h := by
    obtain h₁ | ⟨a, m₁, h₁, h₂⟩ := bind_error h
    · simp only [eventsAfter, h₁]
      exact .nil (hx.error h₁).1 (hx.error h₁).2
    · simp only [eventsAfter, h₁]
      exact ((hf a).error h₂).congr (hx.ok h₁).1 (hx.ok h₁).2

theorem thenReturn (hx : Writes events x) (b : β) : Writes events (x >>= fun _ => return b) where
  ok h := by
    obtain ⟨a, m₁, h₁, h₂⟩ := bind_ok h
    cases h₂
    exact hx.ok h₁
  error h := by
    obtain h₁ | ⟨a, m₁, h₁, h₂⟩ := bind_error h
    · exact hx.error h₁
    · cases h₂

theorem inTurn {f : α → Execution Unit} {events : α → Machine → List ArrayEvent}
    (hf : ∀ a, Writes (events a) (f a)) (as : List α) :
    Writes (eventsInTurn f events as) (as.forM f) := by
  induction as with
  | nil => exact .of_keeps (.pure SameArrays.quiet ())
  | cons a as ih =>
    refine ⟨fun {m u m'} h => ?_, fun {m e m'} h => ?_⟩
    · obtain ⟨_, m₁, h₁, h₂⟩ := bind_ok h
      simp only [eventsInTurn, h₁]
      exact ((hf a).ok h₁).trans (ih.ok h₂)
    · obtain h₁ | ⟨_, m₁, h₁, h₂⟩ := bind_error h
      · simp only [eventsInTurn, h₁, List.append_nil]
        exact (hf a).error h₁
      · simp only [eventsInTurn, h₁]
        exact ((hf a).ok h₁).trans (ih.error h₂)

end Writes

theorem Untouched.sameArrays {m m' : Machine} (h : Untouched m m') : SameArrays m m' :=
  ⟨by rw [h.workspace], by rw [h.workspace]⟩

theorem onArray_ok {name : String} {x : Except GridError α} {a : α} {m m' : Machine}
    (h : onArray name x m = .ok a m') : x = .ok a ∧ m = m' := by
  cases x with
  | ok b =>
    cases h
    exact ⟨rfl, rfl⟩
  | error e => cases h

theorem storeElement_ok {a : Element} {v : Value} {m m' : Machine}
    (h : storeElement a v m = .ok () m') :
    ∃ cs m₁, coordinates a m = .ok cs m₁ ∧
      ArrayEvent.Applies m.workspace m'.workspace (.stored a.name cs v) := by
  obtain ⟨cs, m₁, hcs, h⟩ := bind_ok h
  rw [get_bind] at h
  have hsame := ((subscripts_untouched a Grid.coordinate).ok hcs).workspace
  cases hg : m₁.workspace.arrays.get? a.name with
  | none =>
    rw [hg] at h
    cases h
  | some g =>
    rw [hg] at h
    obtain ⟨g', m₂, hgrid, hput⟩ := bind_ok h
    obtain ⟨hset, rfl⟩ := onArray_ok hgrid
    cases hput
    refine ⟨cs, m₁, hcs, g, g', hsame ▸ hg, hset, ?_, ?_⟩
    · rw [← hsame]
    · rw [← hsame]

theorem store_writes (v : Value) (t : Target) : Writes (storeEvents v t) (store v t) := by
  cases t with
  | scalar name => exact .of_keeps (setVariable_sameArrays name v)
  | element a =>
    refine ⟨fun {m u m'} h => ?_, fun {m e m'} h => ?_⟩
    · obtain ⟨cs, m₁, hcs, happlies⟩ := storeElement_ok h
      have h' : storeElement a v m = .ok () m' := h
      simp only [storeEvents, hcs, h']
      exact .single happlies
    · have h' : storeElement a v m = .error e m' := h
      have hsame := ((storeElement_atomic a v).error h').sameArrays
      have hnone : storeEvents v (.element a) m = [] := by
        simp only [storeEvents, h']
        cases coordinates a m <;> rfl
      rw [hnone]
      exact .nil hsame.1 hsame.2

theorem dimension_writes (a : Element) : Writes (dimensionEvents a) (dimension a) where
  ok {m u m'} h := by
    simp only [dimensionEvents, h]
    obtain ⟨sizes, m₁, hsizes, hrest⟩ := bind_ok h
    obtain ⟨g, m₂, hgrid, hput⟩ := bind_ok hrest
    obtain ⟨hmake, rfl⟩ := onArray_ok hgrid
    have hsame := ((subscripts_untouched a Grid.sizeOf).ok hsizes).workspace
    cases hput
    exact .single ⟨sizes, g, hmake, by rw [← hsame], by rw [← hsame]⟩
  error {m e m'} h := by
    simp only [dimensionEvents, h]
    have hsame := ((dimension_atomic a).error h).sameArrays
    exact .nil hsame.1 hsame.2

theorem readInto_eq (t : Target) (m : Machine) :
    readInto t m = match m.data.read? with
      | some (v, data) =>
        match convertFor t.name v with
        | .ok v => store v t { m with data }
        | .error e => .error e { m with data }
      | none => .error .outOfData m := by
  unfold readInto
  rw [get_bind]
  cases m.data.read? with
  | none => rfl
  | some read =>
    simp only [modify_bind]
    cases convertFor t.name read.1 <;> rfl

theorem readInto_writes (t : Target) : Writes (readEvents t) (readInto t) where
  ok {m u m'} h := by
    rw [readInto_eq] at h
    unfold readEvents
    cases hread : m.data.read? with
    | none => simp only [hread] at h; cases h
    | some read =>
      simp only [hread] at h ⊢
      cases hv : convertFor t.name read.1 with
      | error e => simp only [hv] at h; cases h
      | ok v =>
        simp only [hv] at h ⊢
        exact (store_writes v t).ok h
  error {m e m'} h := by
    rw [readInto_eq] at h
    unfold readEvents
    cases hread : m.data.read? with
    | none =>
      simp only [hread] at h
      cases h
      exact .refl _
    | some read =>
      simp only [hread] at h ⊢
      cases hv : convertFor t.name read.1 with
      | error e =>
        simp only [hv] at h
        cases h
        exact .refl _
      | ok v =>
        simp only [hv] at h ⊢
        exact (store_writes v t).error h

theorem input_writes (prompt : Option String) (targets : List Target) :
    Writes (statementEvents (.input prompt targets)) (input prompt targets) := by
  have hS := SameArrays.quiet
  have hask (m : Machine) := Writes.after
    (ask_keeps hS (prompt.getD "") targets (m.console.input.length + 1))
    fun values => Writes.inTurn (fun tv : Target × Value => store_writes tv.2 tv.1)
      (targets.zip values)
  exact ⟨fun {m _ _} h => (hask m).ok h, fun {m _ _} h => (hask m).error h⟩

/-! ## Statements -/

section
variable {p : Program} {s : Settings} {line : Line} {here : Position}

theorem execute_writes (st : Statement) :
    Writes (statementEvents st) (execute p s line here st) := by
  have hS := SameArrays.quiet
  have hloops : ∀ m loops, SameArrays m { m with loops } := fun _ _ => ⟨rfl, rfl⟩
  have hnextLoop (var : Option String) : Keeps SameArrays (nextLoop var) :=
    nextLoop_keeps hS hloops (fun _ _ _ _ _ => ⟨rfl, rfl⟩) var
  cases st with
  | define name params body =>
    refine ⟨fun h => ?_, fun h => by cases h⟩
    cases h
    exact .single ⟨params, body, rfl, rfl⟩
  | dim arrays => exact (Writes.inTurn dimension_writes arrays).thenReturn _
  | forLoop var first limit step =>
    have hset (x : Float) := setVariable_sameArrays var (.number x)
    exact .of_keeps (beginLoop_keeps hS hloops hset here first limit step)
  | next vars =>
    cases vars with
    | nil => exact .of_keeps (hnextLoop none)
    | cons var rest =>
      exact .of_keeps (nextLoops_keeps hS (fun var => hnextLoop (some var)) (var :: rest))
  | input prompt targets => exact (input_writes prompt targets).thenReturn _
  | letTo target e =>
    exact .after (value_keeps hS e) fun v => (store_writes v target).thenReturn _
  | assign var e =>
    refine .of_keeps (.bind hS (value_keeps hS e) fun v => ?_)
    exact .bind hS (setVariable_sameArrays var v) fun _ => .pure hS _
  | assignElement a e =>
    exact .after (value_keeps hS e) fun v => (store_writes v (.element a)).thenReturn _
  | print items => exact .of_keeps (.bind hS (print_keeps hS s items) fun _ => .pure hS _)
  | read targets => exact (Writes.inTurn readInto_writes targets).thenReturn _
  | restore => exact .of_keeps (.bind hS (.modify fun _ => ⟨rfl, rfl⟩) fun _ => .pure hS _)
  | _ => exact .of_keeps (execute_keeps_moves hS.toMild (fun _ _ => ⟨rfl, rfl⟩) rfl)

theorem step_writes (p : Program) (s : Settings) (m : Machine) :
    Written m.workspace (m.stepEvents p s) (m.step p s).machine.workspace := by
  unfold stepEvents
  cases hnext : m.pending? p with
  | none =>
    rw [step_fellOff hnext]
    exact .refl _
  | some next =>
    obtain ⟨line, st⟩ := next
    simp only
    by_cases hs : s.allows (m.steps + 1) = true
    · rw [step_allowed hnext hs, if_pos hs]
      cases hexec : execute p s line (p.settle m.position) st (m.begun p) with
      | ok flow m' =>
        have hwritten := (execute_writes st).ok hexec
        cases flow <;> exact hwritten
      | error e m' => exact (execute_writes st).error hexec
    · obtain ⟨limit, hmax, hlimit⟩ := Settings.exists_limit hs
      rw [step_refused hnext hmax hlimit, if_neg hs]
      exact .refl _

end

end Machine

end ClassicBasic
