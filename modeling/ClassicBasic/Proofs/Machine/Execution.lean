import ClassicBasic.Machine.Step
import ClassicBasic.Proofs.Except

/-!
# What executions leave alone

`Keeps R x`: whether `x` succeeds or fails, the machine it leaves is related by `R` to the one it
found. Most of what statements do is to evaluate, to talk and to store, which touches neither the
stacks nor the place nor the count of statements; `Keeps` of each follows once `R` allows the few
updates it is made of: `Mild` is for evaluating, `Quiet` for evaluating and talking, `Declaring`
and `Storing` for evaluating and storing, and `Indifferent` for all. `Calm` is the relation that
the theory of runs uses.
-/

namespace ClassicBasic

/-- Reading a line changes nothing of a console but the lines, the log and the reads that are
left. -/
theorem Console.read?_some {c c' : Console} {line : Option String} (h : c.read? = some (line, c')) :
    c'.writesLeft = c.writesLeft ∧ c'.log = (line.map Event.read).toList ++ c.log := by
  obtain ⟨left, -, h⟩ := Option.map_eq_some_iff.mp h
  cases hinput : c.input with
  | nil =>
    simp only [hinput, Prod.mk.injEq] at h
    obtain ⟨rfl, rfl⟩ := h
    exact ⟨rfl, rfl⟩
  | cons next rest =>
    simp only [hinput, Prod.mk.injEq] at h
    obtain ⟨rfl, rfl⟩ := h
    exact ⟨rfl, rfl⟩

namespace Machine

variable {α β : Type}

/-! ## Sequences of executions -/

theorem get_bind (f : Machine → Execution β) (m : Machine) : (get >>= f) m = f m m := rfl

theorem modify_bind (g : Machine → Machine) (f : Unit → Execution β) (m : Machine) :
    (modify g >>= f) m = f () (g m) := rfl

/-! ## Kept relations -/

/-- Whether `x` succeeds or fails, `R` relates the machine it finds to the one it leaves. -/
structure Keeps (R : Machine → Machine → Prop) (x : Execution α) : Prop where
  ok : ∀ {m a m'}, x m = .ok a m' → R m m'
  error : ∀ {m e m'}, x m = .error e m' → R m m'

/-- `R` allows what evaluating changes in a machine. -/
structure Mild (R : Machine → Machine → Prop) : Prop where
  refl : ∀ m, R m m
  trans : ∀ {m₁ m₂ m₃}, R m₁ m₂ → R m₂ m₃ → R m₁ m₃
  random : ∀ m random, R m { m with random }

/-- `R` allows all that evaluating and talking change in a machine. -/
structure Quiet (R : Machine → Machine → Prop) : Prop extends Mild R where
  column : ∀ m column, R m { m with column }
  write : ∀ {m s console}, m.console.write? s = some console → R m { m with console }
  read : ∀ {m line console}, m.console.read? = some (line, console) → R m { m with console }

/-- `R` allows what evaluating, making functions and making and filling arrays change. -/
structure Declaring (R : Machine → Machine → Prop) : Prop extends Mild R where
  functions : ∀ m functions, R m { m with workspace := { m.workspace with functions } }
  arrays : ∀ m arrays, R m { m with workspace := { m.workspace with arrays } }

/-- `R` allows all that evaluating and storing change in a machine. -/
structure Storing (R : Machine → Machine → Prop) : Prop extends Declaring R where
  vars : ∀ m vars, R m { m with workspace := { m.workspace with vars } }

/-- `R` allows evaluating, talking, storing and reading DATA. -/
structure Indifferent (R : Machine → Machine → Prop) : Prop extends Quiet R, Storing R where
  data : ∀ m data, R m { m with data }

section
variable {R : Machine → Machine → Prop}

instance : Coe (Quiet R) (Mild R) := ⟨Quiet.toMild⟩

instance : Coe (Declaring R) (Mild R) := ⟨Declaring.toMild⟩

instance : Coe (Storing R) (Declaring R) := ⟨Storing.toDeclaring⟩

instance : Coe (Indifferent R) (Quiet R) := ⟨Indifferent.toQuiet⟩

instance : Coe (Indifferent R) (Storing R) := ⟨Indifferent.toStoring⟩

end

theorem Keeps.imp {R R' : Machine → Machine → Prop} {x : Execution α} (hx : Keeps R x)
    (h : ∀ {m m'}, R m m' → R' m m') : Keeps R' x where
  ok hm := h (hx.ok hm)
  error hm := h (hx.error hm)

section
variable {R : Machine → Machine → Prop} (hR : Mild R)
include hR

theorem Keeps.pure (a : α) : Keeps R (Pure.pure a) where
  ok h := by cases h; exact hR.refl _
  error h := by cases h

theorem Keeps.throw (e : RuntimeError) : Keeps R (throw e : Execution α) where
  ok h := by cases h
  error h := by cases h; exact hR.refl _

theorem Keeps.get : Keeps R (get : Execution Machine) where
  ok h := by cases h; exact hR.refl _
  error h := by cases h

omit hR in
theorem Keeps.modify {f : Machine → Machine} (h : ∀ m, R m (f m)) :
    Keeps R (modify f : Execution Unit) where
  ok hm := by cases hm; exact h _
  error hm := by cases hm

/-- The second execution matters only for what the first can give. -/
theorem Keeps.bindOf {x : Execution α} {f : α → Execution β} (hx : Keeps R x)
    (hf : ∀ {m a m'}, x m = .ok a m' → Keeps R (f a)) : Keeps R (x >>= f) where
  ok h := by
    obtain ⟨a, m', h₁, h₂⟩ := bind_ok h
    exact hR.trans (hx.ok h₁) ((hf h₁).ok h₂)
  error h := by
    obtain h₁ | ⟨a, m', h₁, h₂⟩ := bind_error h
    · exact hx.error h₁
    · exact hR.trans (hx.ok h₁) ((hf h₁).error h₂)

theorem Keeps.bind {x : Execution α} {f : α → Execution β} (hx : Keeps R x)
    (hf : ∀ a, Keeps R (f a)) : Keeps R (x >>= f) := .bindOf hR hx fun _ => hf _

theorem Keeps.lift (x : Except RuntimeError α) : Keeps R (liftM x : Execution α) := by
  cases x with
  | ok a => exact .pure hR a
  | error e => exact .throw hR e

theorem Keeps.mapM {f : α → Execution β} (hf : ∀ a, Keeps R (f a)) :
    ∀ as : List α, Keeps R (as.mapM f)
  | [] => .pure hR []
  | a :: as => by
    rw [List.mapM_cons]
    exact .bind hR (hf a) fun b => .bind hR (Keeps.mapM hf as) fun bs => .pure hR (b :: bs)

theorem Keeps.forM_of_mem {f : α → Execution Unit} :
    ∀ {as : List α}, (∀ a ∈ as, Keeps R (f a)) → Keeps R (as.forM f)
  | [], _ => .pure hR ()
  | a :: _, hf => .bind hR (hf a List.mem_cons_self) fun _ =>
    Keeps.forM_of_mem fun b hb => hf b (List.mem_cons_of_mem a hb)

theorem Keeps.forM {f : α → Execution Unit} (hf : ∀ a, Keeps R (f a)) (as : List α) :
    Keeps R (as.forM f) := .forM_of_mem hR fun a _ => hf a

/-! ## Evaluating and jumping -/

theorem evaluate_keeps (x : Workspace → Evaluation α) : Keeps R (evaluate x) where
  ok {m a m'} h := by
    unfold evaluate at h
    split at h
    · cases h
      exact hR.random _ _
    · cases h
  error {m e m'} h := by
    unfold evaluate at h
    split at h
    · cases h
    · cases h
      exact hR.random _ _

theorem value_keeps (e : Expr) : Keeps R (value e) := evaluate_keeps hR _

theorem number_keeps (e : Expr) : Keeps R (number e) := evaluate_keeps hR _

theorem onArray_keeps (name : String) (x : Except GridError α) : Keeps R (onArray name x) := by
  cases x with
  | ok a => exact .pure hR a
  | error e => exact .throw hR _

theorem lineNumbered_keeps (p : Program) (number : Nat) : Keeps R (lineNumbered p number) := by
  unfold lineNumbered
  split
  · exact .pure hR _
  · exact .throw hR _

theorem pick_keeps (index : Int) (lines : List Nat) : Keeps R (pick index lines) := by
  unfold pick
  split
  · exact .pure hR _
  · exact .throw hR _

end

/-! ## Talking -/

section
variable {R : Machine → Machine → Prop} (hR : Quiet R)
include hR

omit hR in
theorem write_eq (s : String) (m : Machine) :
    write s m = match m.console.write? s with
      | some console => .ok () { m with column := columnAfter m.column s, console }
      | none => .error (.console Console.failure) { m with column := columnAfter m.column s } := by
  unfold write
  simp only [modify_bind, get_bind]
  cases m.console.write? s <;> rfl

omit hR in
theorem readLine_eq (m : Machine) :
    readLine m = match m.console.read? with
      | some (some line, console) => .ok line { m with column := 0, console }
      | some (none, console) => .error .inputClosed { m with console }
      | none => .error (.console Console.failure) m := by
  unfold readLine
  simp only [get_bind]
  obtain _ | ⟨_ | line, console⟩ := m.console.read? <;> rfl

theorem write_keeps (s : String) : Keeps R (write s) where
  ok {m a m'} h := by
    rw [write_eq] at h
    split at h
    · cases h
      exact hR.trans (hR.write ‹_›) (hR.column _ _)
    · cases h
  error {m e m'} h := by
    rw [write_eq] at h
    split at h
    · cases h
    · cases h
      exact hR.column m _

theorem readLine_keeps : Keeps R readLine where
  ok {m a m'} h := by
    rw [readLine_eq] at h
    split at h
    · cases h
      exact hR.trans (hR.read ‹_›) (hR.column _ 0)
    · cases h
    · cases h
  error {m e m'} h := by
    rw [readLine_eq] at h
    split at h
    · cases h
    · cases h
      exact hR.read ‹_›
    · cases h
      exact hR.refl m

theorem printItem_keeps (s : Settings) (item : PrintItem) : Keeps R (printItem s item) := by
  cases item with
  | expr e => exact .bind hR (value_keeps hR e) fun v => write_keeps hR _
  | comma => exact .bind hR (.get hR) fun m => write_keeps hR _
  | semicolon => exact .pure hR ()

theorem print_keeps (s : Settings) (items : List PrintItem) : Keeps R (print s items) := by
  refine .bind hR (.forM hR (printItem_keeps hR s) items) fun _ => ?_
  split
  · exact .pure hR ()
  · exact write_keeps hR _

theorem ask_keeps (prompt : String) (targets : List Target) :
    ∀ attempts, Keeps R (ask prompt targets attempts)
  | 0 => .throw hR _
  | attempts + 1 => by
    refine .bind hR (write_keeps hR _) fun _ => .bind hR (readLine_keeps hR) fun line => ?_
    split
    · exact .pure hR _
    · exact .bind hR (write_keeps hR _) fun _ => ask_keeps prompt targets attempts

end

/-! ## Storing -/

section
variable {R : Machine → Machine → Prop} (hR : Declaring R)
include hR

theorem setFunction_keeps (name : String) (f : Function) : Keeps R (setFunction name f) :=
  .modify fun m => hR.functions m _

theorem setArray_keeps (name : String) (g : Grid) : Keeps R (setArray name g) :=
  .modify fun m => hR.arrays m _

theorem storeElement_keeps (e : Element) (v : Value) : Keeps R (storeElement e v) := by
  unfold storeElement
  refine .bind hR (.mapM hR (fun s => .bind hR (number_keeps hR s) fun _ => onArray_keeps hR _ _) _)
    fun coordinates => .bind hR (.get hR) fun m => ?_
  split
  · exact .bind hR (onArray_keeps hR _ _) fun g => setArray_keeps hR _ g
  · exact .throw hR _

theorem dimension_keeps (e : Element) : Keeps R (dimension e) :=
  .bind hR (.mapM hR (fun s => .bind hR (number_keeps hR s) fun _ => onArray_keeps hR _ _) _)
    fun _ => .bind hR (onArray_keeps hR _ _) fun _ =>
      .bind hR (setFunction_keeps hR _ _) fun _ => setArray_keeps hR _ _

end

section
variable {R : Machine → Machine → Prop} (hR : Storing R)
include hR

theorem setVariable_keeps (name : String) (v : Value) : Keeps R (setVariable name v) :=
  .modify fun m => hR.vars m _

theorem store_keeps (v : Value) (t : Target) : Keeps R (store v t) := by
  cases t with
  | scalar name => exact setVariable_keeps hR name v
  | element e => exact storeElement_keeps hR e v

theorem readInto_keeps (hdata : ∀ m data, R m { m with data }) (t : Target) :
    Keeps R (readInto t) := by
  refine .bind hR (.get hR) fun m => ?_
  split
  · exact .bind hR (.modify fun m => hdata m _) fun _ =>
      .bind hR (.lift hR _) fun v => store_keeps hR v t
  · exact .throw hR _

theorem input_keeps (hquiet : Quiet R) (prompt : Option String) (targets : List Target) :
    Keeps R (input prompt targets) :=
  .bind hR (.get hR) fun _ => .bind hR (ask_keeps hquiet _ targets _) fun values =>
    .forM hR (fun tv => store_keeps hR tv.2 tv.1) (targets.zip values)

end

/-- A constant that a target takes has the kind of the target's name. -/
theorem convertFor_cases (name : String) (c : Value) :
    (∃ v, convertFor name c = .ok v ∧ v.kind = Kind.ofName name) ∨
      ∃ t, convertFor name c = .error (.notNumeric name t) := by
  unfold convertFor Kind.ofName
  by_cases hname : isTextName name = true
  · simp only [if_pos hname]
    cases c with
    | number x => exact .inl ⟨_, rfl, rfl⟩
    | text t => exact .inl ⟨_, rfl, rfl⟩
  · simp only [if_neg hname]
    cases c with
    | number x => exact .inl ⟨_, rfl, rfl⟩
    | text t =>
      cases hx : Numeral.number? (Text.trim t.toList) with
      | none => exact .inr ⟨t, by simp only [hx]⟩
      | some x => exact .inl ⟨.number x, by simp only [hx], rfl⟩

theorem convertFor_kind {name : String} {c v : Value} (h : convertFor name c = .ok v) :
    v.kind = Kind.ofName name := by
  rcases convertFor_cases name c with ⟨v', hv', hkind⟩ | ⟨t, ht⟩
  · rw [hv'] at h
    cases h
    exact hkind
  · rw [ht] at h
    cases h

/-! ## Calls and loops -/

section
variable {R : Machine → Machine → Prop} (hR : Mild R)
include hR

theorem gosub_keeps (hreturns : ∀ m returns, R m { m with returns }) (p : Program)
    (here : Position) (number : Nat) : Keeps R (gosub p here number) :=
  .bind hR (lineNumbered_keeps hR p number) fun _ =>
    .bind hR (.modify fun m => hreturns m _) fun _ => .pure hR _

theorem beginLoop_keeps (hloops : ∀ m loops, R m { m with loops }) {var : String}
    (hset : ∀ x, Keeps R (setVariable var (.number x))) (here : Position)
    (first limit step : Expr) : Keeps R (beginLoop here var first limit step) := by
  refine .bind hR (number_keeps hR first) fun x => .bind hR (number_keeps hR limit) fun y => ?_
  refine .bind hR (number_keeps hR step) fun z => .bind hR (hset x) fun _ => ?_
  exact .bind hR (.modify fun m => hloops m _) fun _ => .pure hR _

omit hR in
/-- What NEXT does with one loop: it fails and changes nothing, the loop is over, or it goes on with
another number in its variable. -/
theorem nextLoop_results (var : Option String) (m : Machine) :
    (∃ e, nextLoop var m = .error e m) ∨
      ∃ l outer x, fromLoop var m.loops = l :: outer ∧
        m.workspace.vars.get? l.var = some (.number x) ∧
        (nextLoop var m = .ok .next { m with loops := outer } ∨
          nextLoop var m = .ok (.jump l.resume) { m with
            workspace := { m.workspace with
              vars := m.workspace.vars.insert l.var (.number (x + l.step)) }
            loops := l :: outer }) := by
  unfold nextLoop
  simp only [get_bind]
  cases fromLoop var m.loops with
  | nil => exact .inl ⟨_, rfl⟩
  | cons l outer =>
    simp only
    cases hvar : m.workspace.vars.get? l.var with
    | none => exact .inl ⟨_, rfl⟩
    | some v =>
      cases v with
      | text t => exact .inl ⟨_, rfl⟩
      | number x =>
        refine .inr ⟨l, outer, x, rfl, hvar, ?_⟩
        simp only
        by_cases hgo : l.goesOn (x + l.step) = true
        · rw [if_pos hgo]
          exact .inr rfl
        · rw [if_neg hgo]
          exact .inl rfl

theorem nextLoop_keeps (hloops : ∀ m loops, R m { m with loops })
    (hset : ∀ (m : Machine) name x y, m.workspace.vars.get? name = some (.number x) →
      R m { m with workspace :=
        { m.workspace with vars := m.workspace.vars.insert name (.number y) } })
    (var : Option String) : Keeps R (nextLoop var) := by
  refine ⟨fun {m flow m'} h => ?_, fun {m e m'} h => ?_⟩
  · rcases nextLoop_results var m with ⟨e, he⟩ | ⟨l, outer, x, -, hx, hover | hon⟩
    · rw [he] at h
      cases h
    · rw [hover] at h
      cases h
      exact hloops m outer
    · rw [hon] at h
      cases h
      exact hR.trans (hset m l.var x _ hx) (hloops _ _)
  · rcases nextLoop_results var m with ⟨e, he⟩ | ⟨l, outer, x, -, hx, hover | hon⟩
    · rw [he] at h
      cases h
      exact hR.refl m
    · rw [hover] at h
      cases h
    · rw [hon] at h
      cases h

theorem nextLoops_keeps (hnext : ∀ var, Keeps R (nextLoop (some var))) (vars : List String) :
    Keeps R (nextLoops vars) := by
  induction vars with
  | nil => exact .pure hR _
  | cons var rest ih =>
    refine .bind hR (hnext var) fun flow => ?_
    split
    · exact ih
    · exact .pure hR _

end

/-! ## Calm -/

/-- `m'` differs from `m` in what it has stored, drawn, read and written, and in nothing else. -/
structure Calm (m m' : Machine) : Prop where
  position : m'.position = m.position
  loops : m'.loops = m.loops
  returns : m'.returns = m.returns
  steps : m'.steps = m.steps
  /-- Nothing that has happened on the console is undone. -/
  log : m.console.log <:+ m'.console.log

theorem log_write {c c' : Console} {s : String} (h : c.write? s = some c') : c.log <:+ c'.log := by
  obtain ⟨left, -, rfl⟩ := Option.map_eq_some_iff.mp h
  exact List.suffix_cons _ _

theorem log_read {c c' : Console} {line : Option String} (h : c.read? = some (line, c')) :
    c.log <:+ c'.log :=
  ⟨_, (Console.read?_some h).2.symm⟩

theorem Calm.indifferent : Indifferent Calm where
  refl _ := ⟨rfl, rfl, rfl, rfl, List.suffix_rfl⟩
  trans h₁ h₂ :=
    ⟨h₂.position.trans h₁.position, h₂.loops.trans h₁.loops, h₂.returns.trans h₁.returns,
      h₂.steps.trans h₁.steps, h₁.log.trans h₂.log⟩
  random _ _ := ⟨rfl, rfl, rfl, rfl, List.suffix_rfl⟩
  functions _ _ := ⟨rfl, rfl, rfl, rfl, List.suffix_rfl⟩
  arrays _ _ := ⟨rfl, rfl, rfl, rfl, List.suffix_rfl⟩
  vars _ _ := ⟨rfl, rfl, rfl, rfl, List.suffix_rfl⟩
  data _ _ := ⟨rfl, rfl, rfl, rfl, List.suffix_rfl⟩
  column _ _ := ⟨rfl, rfl, rfl, rfl, List.suffix_rfl⟩
  write h := ⟨rfl, rfl, rfl, rfl, log_write h⟩
  read h := ⟨rfl, rfl, rfl, rfl, log_read h⟩

end Machine

end ClassicBasic
