import ClassicBasic.Proofs.Machine.Execution

/-!
# Executions that know of no places

A machine keeps places of its program: where it stands, where its loops resume and where its
subroutines return to. `Placeless E x` says that `x` has nothing to do with them: it does the same
whatever they are and leaves them as they are. Evaluating, storing, talking and reading DATA are of
this kind; only jumps, loops and calls are not. The walk through these executions also tells what
faults they have, which are in `E` (`Everyday`).

Two programs whose places correspond therefore do the same in all that is placeless, and need to be
compared only where places are made or used.
-/

namespace ClassicBasic

namespace Machine

variable {α β : Type}

/-- The machine with other places. -/
def moved (m : Machine) (q : Position) (ls : List Loop) (rs : List Position) : Machine :=
  { m with position := q, loops := ls, returns := rs }

/-- `x` neither asks for the places that the machine keeps nor changes them, and its faults are in
`E`. -/
structure Placeless (E : RuntimeError → Prop) (x : Execution α) : Prop where
  ok : ∀ {m a m'}, x m = .ok a m' → ∀ q ls rs, x (m.moved q ls rs) = .ok a (m'.moved q ls rs)
  error : ∀ {m e m'}, x m = .error e m' →
    E e ∧ ∀ q ls rs, x (m.moved q ls rs) = .error e (m'.moved q ls rs)

/-- `E` has the faults of evaluating, storing and talking. -/
structure Everyday (E : RuntimeError → Prop) : Prop where
  expression : ∀ cause, E (.expression cause)
  array : ∀ name cause, E (.array name cause)
  unknownArray : ∀ name, E (.unknownArray name)
  notNumeric : ∀ target value, E (.notNumeric target value)
  inputClosed : E .inputClosed
  console : ∀ reason, E (.console reason)

/-- All faults together have these. -/
theorem everyday : Everyday fun _ => True :=
  ⟨fun _ => trivial, fun _ _ => trivial, fun _ => trivial, fun _ _ => trivial, trivial,
    fun _ => trivial⟩

/-! ## Sequences -/

namespace Placeless

variable {E : RuntimeError → Prop} {x : Execution α} {m m' : Machine} {a : α}

theorem places_of_moved (h : m' = m'.moved m.position m.loops m.returns) :
    m'.position = m.position ∧ m'.loops = m.loops ∧ m'.returns = m.returns := by
  refine ⟨?_, ?_, ?_⟩
  · rw [h]
    rfl
  · rw [h]
    rfl
  · rw [h]
    rfl

theorem places_ok (hx : Placeless E x) (h : x m = .ok a m') :
    m'.position = m.position ∧ m'.loops = m.loops ∧ m'.returns = m.returns := by
  have hsame : x m = .ok a (m'.moved m.position m.loops m.returns) := hx.ok h _ _ _
  rw [h] at hsame
  exact places_of_moved (EStateM.Result.ok.inj hsame).2

theorem places_error {e : RuntimeError} (hx : Placeless E x) (h : x m = .error e m') :
    m'.position = m.position ∧ m'.loops = m.loops ∧ m'.returns = m.returns := by
  have hsame : x m = .error e (m'.moved m.position m.loops m.returns) := (hx.error h).2 _ _ _
  rw [h] at hsame
  exact places_of_moved (EStateM.Result.error.inj hsame).2

/-- What succeeds with other places succeeds as it is. -/
theorem exists_of_moved {m₁ : Machine} {q : Position} {ls : List Loop} {rs : List Position}
    (hx : Placeless E x) (h : x (m.moved q ls rs) = .ok a m₁) :
    ∃ m', x m = .ok a m' ∧ m₁ = m'.moved q ls rs := by
  cases hm : x m with
  | ok b m' =>
    rw [hx.ok hm] at h
    cases h
    exact ⟨m', rfl, rfl⟩
  | error e m' =>
    rw [(hx.error hm).2] at h
    cases h

theorem pure (a : α) : Placeless E (Pure.pure a) where
  ok h q ls rs := by cases h; rfl
  error h := by cases h

theorem throw {e : RuntimeError} (he : E e) : Placeless E (throw e : Execution α) where
  ok h := by cases h
  error h := by
    cases h
    exact ⟨he, fun _ _ _ => rfl⟩

theorem modify {f : Machine → Machine}
    (h : ∀ m q ls rs, f (m.moved q ls rs) = (f m).moved q ls rs) :
    Placeless E (modify f : Execution Unit) where
  ok {m u m'} hm q ls rs := by
    cases hm
    exact congrArg (EStateM.Result.ok ()) (h m q ls rs)
  error hm := by cases hm

theorem bind {f : α → Execution β} (hx : Placeless E x) (hf : ∀ a, Placeless E (f a)) :
    Placeless E (x >>= f) where
  ok h q ls rs := by
    obtain ⟨a, m₁, h₁, h₂⟩ := bind_ok h
    rw [bind_of_ok (hx.ok h₁ q ls rs)]
    exact (hf a).ok h₂ q ls rs
  error h := by
    obtain h | ⟨a, m₁, h₁, h₂⟩ := bind_error h
    · obtain ⟨he, hmoved⟩ := hx.error h
      exact ⟨he, fun q ls rs => bind_of_error (hmoved q ls rs)⟩
    · obtain ⟨he, hmoved⟩ := (hf a).error h₂
      refine ⟨he, fun q ls rs => ?_⟩
      rw [bind_of_ok (hx.ok h₁ q ls rs)]
      exact hmoved q ls rs

/-- What is looked up in the machine must not be a place. -/
theorem getThen {f : Machine → Execution β}
    (hsame : ∀ m q ls rs, f (m.moved q ls rs) = f m) (hf : ∀ m, Placeless E (f m)) :
    Placeless E (get >>= f) where
  ok {m b m'} h q ls rs := by
    rw [get_bind] at h ⊢
    rw [hsame]
    exact (hf m).ok h q ls rs
  error {m e m'} h := by
    rw [get_bind] at h
    obtain ⟨he, hmoved⟩ := (hf m).error h
    refine ⟨he, fun q ls rs => ?_⟩
    rw [get_bind, hsame]
    exact hmoved q ls rs

theorem mapM {f : α → Execution β} (hf : ∀ a, Placeless E (f a)) (as : List α) :
    Placeless E (as.mapM f) := by
  induction as with
  | nil => exact .pure []
  | cons a as ih =>
    rw [List.mapM_cons]
    exact .bind (hf a) fun b => .bind ih fun bs => .pure (b :: bs)

theorem forM {f : α → Execution Unit} (hf : ∀ a, Placeless E (f a)) (as : List α) :
    Placeless E (as.forM f) := by
  induction as with
  | nil => exact .pure ()
  | cons a as ih => exact .bind (hf a) fun _ => ih

end Placeless

/-! ## Evaluating and storing -/

section
variable {E : RuntimeError → Prop} (hE : Everyday E)
include hE

omit hE in
theorem evaluate_of_ok {x : Workspace → Evaluation α} {m : Machine} {a : α} {random : Random}
    (h : x m.workspace m.random = .ok a random) : evaluate x m = .ok a { m with random } := by
  unfold evaluate
  rw [h]

omit hE in
theorem evaluate_of_error {x : Workspace → Evaluation α} {m : Machine} {e : EvalError}
    {random : Random} (h : x m.workspace m.random = .error e random) :
    evaluate x m = .error (.expression e) { m with random } := by
  unfold evaluate
  rw [h]

theorem evaluate_placeless (x : Workspace → Evaluation α) : Placeless E (evaluate x) where
  ok {m a m'} h q ls rs := by
    cases hx : x m.workspace m.random with
    | ok b random =>
      rw [evaluate_of_ok hx] at h
      cases h
      exact evaluate_of_ok hx
    | error e random =>
      rw [evaluate_of_error hx] at h
      cases h
  error {m e m'} h := by
    cases hx : x m.workspace m.random with
    | ok b random =>
      rw [evaluate_of_ok hx] at h
      cases h
    | error e random =>
      rw [evaluate_of_error hx] at h
      cases h
      exact ⟨hE.expression e, fun q ls rs => evaluate_of_error hx⟩

theorem value_placeless (e : Expr) : Placeless E (value e) := evaluate_placeless hE _

theorem number_placeless (e : Expr) : Placeless E (number e) := evaluate_placeless hE _

omit hE in
theorem setVariable_placeless (name : String) (v : Value) : Placeless E (setVariable name v) :=
  .modify fun _ _ _ _ => rfl

omit hE in
theorem setFunction_placeless (name : String) (f : Function) : Placeless E (setFunction name f) :=
  .modify fun _ _ _ _ => rfl

omit hE in
theorem setArray_placeless (name : String) (g : Grid) : Placeless E (setArray name g) :=
  .modify fun _ _ _ _ => rfl

theorem onArray_placeless (name : String) (x : Except GridError α) :
    Placeless E (onArray name x) := by
  cases x with
  | ok a => exact .pure a
  | error e => exact .throw (hE.array name e)

/-- The coordinates of an element, or the sizes of an array. -/
theorem subscripts_placeless (a : Element) (f : Float → Except GridError Nat) :
    Placeless E (a.subscripts.mapM fun s => do onArray a.name (f (← number s))) :=
  .mapM (fun s => .bind (number_placeless hE s) fun x => onArray_placeless hE a.name (f x)) _

theorem storeElement_placeless (a : Element) (v : Value) : Placeless E (storeElement a v) := by
  refine .bind (subscripts_placeless hE a Grid.coordinate) fun coordinates => ?_
  refine .getThen (fun _ _ _ _ => rfl) fun m => ?_
  split
  · exact .bind (onArray_placeless hE a.name _) fun g => setArray_placeless a.name g
  · exact .throw (hE.unknownArray a.name)

theorem store_placeless (v : Value) (t : Target) : Placeless E (store v t) := by
  cases t with
  | scalar name => exact setVariable_placeless name v
  | element a => exact storeElement_placeless hE a v

theorem dimension_placeless (a : Element) : Placeless E (dimension a) := by
  refine .bind (subscripts_placeless hE a Grid.sizeOf) fun sizes => ?_
  refine .bind (onArray_placeless hE a.name _) fun g => ?_
  exact .bind (setFunction_placeless a.name .array) fun _ => setArray_placeless a.name g

theorem convertFor_placeless (name : String) (v : Value) :
    Placeless E (liftM (convertFor name v) : Execution Value) := by
  unfold convertFor
  split
  · split <;> exact .pure _
  · split
    · exact .pure _
    · split
      · exact .pure _
      · exact .throw (hE.notNumeric name _)

theorem readInto_placeless (houtOfData : E .outOfData) (t : Target) :
    Placeless E (readInto t) := by
  refine .getThen (fun _ _ _ _ => rfl) fun m => ?_
  split
  · refine .bind (.modify fun _ _ _ _ => rfl) fun _ => ?_
    exact .bind (convertFor_placeless hE t.name _) fun v => store_placeless hE v t
  · exact .throw houtOfData

/-! ## Talking -/

theorem write_placeless (s : String) : Placeless E (write s) := by
  refine .bind (.modify fun _ _ _ _ => rfl) fun _ => .getThen (fun _ _ _ _ => rfl) fun m => ?_
  split
  · exact .modify fun _ _ _ _ => rfl
  · exact .throw (hE.console _)

theorem readLine_placeless : Placeless E readLine := by
  refine .getThen (fun _ _ _ _ => rfl) fun m => ?_
  split
  · refine .bind (.modify fun _ _ _ _ => rfl) fun _ => ?_
    split
    · exact .bind (.modify fun _ _ _ _ => rfl) fun _ => .pure _
    · exact .throw hE.inputClosed
  · exact .throw (hE.console _)

theorem printItem_placeless (s : Settings) (item : PrintItem) :
    Placeless E (printItem s item) := by
  cases item with
  | expr e => exact .bind (value_placeless hE e) fun v => write_placeless hE v.display
  | comma => exact .getThen (fun _ _ _ _ => rfl) fun m => write_placeless hE _
  | semicolon => exact .pure ()

theorem print_placeless (s : Settings) (items : List PrintItem) : Placeless E (print s items) := by
  refine .bind (.forM (printItem_placeless hE s) items) fun _ => ?_
  split
  · exact .pure ()
  · exact write_placeless hE "\n"

theorem ask_placeless (prompt : String) (targets : List Target) (attempts : Nat) :
    Placeless E (ask prompt targets attempts) := by
  induction attempts with
  | zero => exact .throw hE.inputClosed
  | succ attempts ih =>
    refine .bind (write_placeless hE _) fun _ => .bind (readLine_placeless hE) fun line => ?_
    split
    · exact .pure _
    · exact .bind (write_placeless hE _) fun _ => ih

theorem input_placeless (prompt : Option String) (targets : List Target) :
    Placeless E (input prompt targets) := by
  refine .getThen (fun _ _ _ _ => rfl) fun m => ?_
  refine .bind (ask_placeless hE _ targets _) fun values => ?_
  exact .forM (fun tv => store_placeless hE tv.2 tv.1) (targets.zip values)

end

end Machine

end ClassicBasic
