import ClassicBasic.Proofs.Contract
import ClassicBasic.Proofs.Machine.Placeless
import ClassicBasic.Proofs.Machine.ReadBack

/-!
# The stream of DATA

READ takes the constants of a program one after the other, in the order in which they are written,
whether or not the run ever comes to the DATA that lists them. Beside a run it is written down which
constants READ has taken since the last RESTORE (`Reading`). They are always the first ones of the
program, as many as the cursor says (`OnStream`): a target takes the constant at the cursor, and
moves the cursor past it, whether or not it can be filled, and no other statement knows of the
cursor. A READ runs out of DATA exactly if it comes to a target when all constants are taken.
-/

namespace ClassicBasic

/-! ## The constants of a program -/

mutual

/-- A statement, or the statements in its branches if it is an IF with a block, as written. -/
def Statement.leaves : Statement → List Statement
  | .ifThen _ block => blockLeaves block
  | .ifElse _ block elseBlock => blockLeaves block ++ blockLeaves elseBlock
  | st => [st]

/-- The statements of a block and of the branches in it, as written. -/
def blockLeaves : Block → List Statement
  | [] => []
  | st :: rest => st.leaves ++ blockLeaves rest

end

/-- The statements of a program, those in branches among them, in the order in which they are
written. -/
def Program.leaves (p : Program) : List Statement := p.lines.flatMap fun l => blockLeaves l.block

namespace Statement

/-- What a DATA lists. -/
def listed : Statement → List Value
  | .data values => values
  | _ => []

/-- Whether a statement takes constants, or starts again with the first. -/
def usesData : Statement → Bool
  | .read _ | .restore => true
  | _ => false

mutual

theorem constants_eq : ∀ st : Statement, st.constants = st.leaves.flatMap listed
  | .ifThen _ block => by
    rw [constants, leaves, blockConstants_eq block]
  | .ifElse _ block elseBlock => by
    rw [constants, leaves, blockConstants_eq block, blockConstants_eq elseBlock,
      List.flatMap_append]
  | .data values => by simp [constants, leaves, listed]
  | .define .. | .dim _ | .finish | .forLoop .. | .gosub _ | .goto _ | .ifLine .. | .ifElseLine ..
  | .input .. | .letTo .. | .next _ | .onGosub .. | .onGoto .. | .print _ | .read _ | .remark _
  | .restore | .returnFrom | .stop | .assign .. | .assignElement .. => by
    simp [constants, leaves, listed]

theorem blockConstants_eq : ∀ b : Block, blockConstants b = (blockLeaves b).flatMap listed
  | [] => by rw [blockConstants, blockLeaves, List.flatMap_nil]
  | st :: rest => by
    rw [blockConstants, blockLeaves, st.constants_eq, blockConstants_eq rest, List.flatMap_append]

end

end Statement

/-- The constants of a program are those of all its DATA, wherever they stand, as written. -/
theorem Program.constants_eq (p : Program) : p.constants = p.leaves.flatMap Statement.listed := by
  unfold constants leaves
  rw [List.flatMap_assoc]
  exact congrArg (List.flatMap · p.lines) (funext fun l => Statement.blockConstants_eq l.block)

theorem DataCursor.read?_eq_some {d d' : DataCursor} {c : Value} (h : d.read? = some (c, d')) :
    d.values[d.position]? = some c ∧ d' = { d with position := d.position + 1 } := by
  obtain ⟨v, hv, heq⟩ := Option.map_eq_some_iff.mp h
  cases heq
  exact ⟨hv, rfl⟩

namespace Machine

/-! ## Taking constants -/

/-- The constants that READ takes for some targets, up to the first that it cannot fill. -/
def taken : List Target → Machine → List Value
  | [], _ => []
  | t :: ts, m =>
    match m.data.read? with
    | none => []
    | some (c, _) =>
      c :: match readInto t m with
        | .ok _ m' => taken ts m'
        | .error _ _ => []

/-- `consumed` are the first constants of the program, up to the cursor `d`. -/
structure OnStream (p : Program) (consumed : List Value) (d : DataCursor) : Prop where
  values : d.values = p.constants
  position_le : d.position ≤ p.constants.length
  consumed_eq : consumed = p.constants.take d.position

section
variable {p : Program} {consumed : List Value} {d d' : DataCursor} {c : Value}

theorem OnStream.start (p : Program) : OnStream p [] { values := p.constants } :=
  ⟨rfl, Nat.zero_le _, rfl⟩

theorem OnStream.restore (h : OnStream p consumed d) : OnStream p [] d.restore :=
  ⟨h.values, Nat.zero_le _, rfl⟩

theorem OnStream.read?_eq_none_iff (h : OnStream p consumed d) :
    d.read? = none ↔ d.position = p.constants.length := by
  have hle := h.position_le
  rw [DataCursor.read?, Option.map_eq_none_iff, h.values, List.getElem?_eq_none_iff]
  omega

theorem OnStream.read (h : OnStream p consumed d) (hread : d.read? = some (c, d')) :
    OnStream p (consumed ++ [c]) d' := by
  obtain ⟨hc, rfl⟩ := DataCursor.read?_eq_some hread
  rw [h.values] at hc
  obtain ⟨hlt, hget⟩ := List.getElem?_eq_some_iff.mp hc
  refine ⟨h.values, hlt, ?_⟩
  show consumed ++ [c] = p.constants.take (d.position + 1)
  rw [List.take_add_one, hc, ← h.consumed_eq, Option.toList_some]

end

/-- `m'` stands where `m` does in the DATA. -/
def SameData (m m' : Machine) : Prop := m'.data = m.data

theorem SameData.quiet : Quiet SameData where
  refl _ := rfl
  trans h₁ h₂ := h₂.trans h₁
  random _ _ := rfl
  column _ _ := rfl
  write _ := rfl
  read _ := rfl

theorem SameData.storing : Storing SameData where
  toMild := SameData.quiet.toMild
  functions _ _ := rfl
  arrays _ _ := rfl
  vars _ _ := rfl

theorem SameData.onStream {p : Program} {consumed : List Value} {m m' : Machine}
    (h : SameData m m') (hm : OnStream p consumed m.data) : OnStream p consumed m'.data := by
  rw [show m'.data = m.data from h]
  exact hm

/-- The faults of all statements but READ. -/
theorem everyday_ne_outOfData : Everyday (· ≠ RuntimeError.outOfData) where
  expression _ := nofun
  array _ _ := nofun
  unknownArray _ := nofun
  notNumeric _ _ := nofun
  inputClosed := nofun
  console _ := nofun

theorem convertFor_error {name : String} {c : Value} {e : RuntimeError}
    (h : convertFor name c = .error e) : e ≠ .outOfData := by
  rcases convertFor_cases name c with ⟨v', hv', -⟩ | ⟨t, ht⟩
  · rw [hv'] at h
    cases h
  · rw [ht] at h
    cases h
    exact nofun

section
variable {p : Program} {t : Target} {ts : List Target} {e : RuntimeError} {m m' : Machine}

/-- READ into a target when no constant is left. -/
theorem readInto_outOfData (t : Target) (h : m.data.read? = none) :
    readInto t m = .error .outOfData m := by
  rw [readInto_eq, h]

/-- A target that is filled takes the next constant, in the kind of its name. -/
theorem readInto_ok (h : readInto t m = .ok () m') :
    ∃ c v, m.data.read? = some (c, m'.data) ∧ convertFor t.name c = .ok v ∧
      store v t { m with data := m'.data } = .ok () m' := by
  rw [readInto_eq] at h
  cases hread : m.data.read? with
  | none => simp only [hread] at h; cases h
  | some next =>
    obtain ⟨c, data⟩ := next
    simp only [hread] at h
    cases hv : convertFor t.name c with
    | error e => simp only [hv] at h; cases h
    | ok v =>
      simp only [hv] at h
      obtain rfl : m'.data = data := (store_keeps SameData.storing v t).ok h
      exact ⟨c, v, rfl, hv, h⟩

/-- A target that is not filled takes the next constant too, if there is one. -/
theorem readInto_error (h : readInto t m = .error e m') :
    m.data.read? = none ∧ e = .outOfData ∧ m' = m ∨
      e ≠ .outOfData ∧ ∃ c, m.data.read? = some (c, m'.data) ∧
        (convertFor t.name c = .error e ∨
          ∃ v, convertFor t.name c = .ok v ∧
            store v t { m with data := m'.data } = .error e m') := by
  rw [readInto_eq] at h
  cases hread : m.data.read? with
  | none =>
    simp only [hread] at h
    cases h
    exact .inl ⟨rfl, rfl, rfl⟩
  | some next =>
    obtain ⟨c, data⟩ := next
    simp only [hread] at h
    cases hv : convertFor t.name c with
    | error e =>
      simp only [hv] at h
      cases h
      exact .inr ⟨convertFor_error hv, c, rfl, .inl hv⟩
    | ok v =>
      simp only [hv] at h
      obtain rfl : m'.data = data := (store_keeps SameData.storing v t).error h
      have he := ((store_placeless everyday_ne_outOfData v t).error h).1
      exact .inr ⟨he, c, rfl, .inr ⟨v, hv, h⟩⟩

/-- Whatever comes of the targets, READ takes the constants that follow on those taken before. -/
theorem readTargets_onStream (p : Program) (targets : List Target) :
    Keeps (fun m m' => ∀ consumed, OnStream p consumed m.data →
      OnStream p (consumed ++ taken targets m) m'.data) (targets.forM readInto) := by
  induction targets with
  | nil =>
    refine ⟨fun {m u m'} h consumed hm => ?_, fun h => by cases h⟩
    cases h
    rwa [taken, List.append_nil]
  | cons t ts ih =>
    refine ⟨fun {m u m'} h consumed hm => ?_, fun {m e m'} h consumed hm => ?_⟩
    · obtain ⟨_, m₁, hfirst, hrest⟩ := bind_ok h
      obtain ⟨c, v, hread, -⟩ := readInto_ok hfirst
      have htaken : taken (t :: ts) m = c :: taken ts m₁ := by
        simp only [taken, hread, hfirst]
      rw [htaken, List.append_cons]
      exact ih.ok hrest _ (hm.read hread)
    · rcases bind_error h with hfirst | ⟨_, m₁, hfirst, hrest⟩
      · rcases readInto_error hfirst with ⟨hread, -, rfl⟩ | ⟨-, c, hread, -⟩
        · have htaken : taken (t :: ts) m' = [] := by simp only [taken, hread]
          rwa [htaken, List.append_nil]
        · have htaken : taken (t :: ts) m = [c] := by simp only [taken, hread, hfirst]
          rw [htaken]
          exact hm.read hread
      · obtain ⟨c, v, hread, -⟩ := readInto_ok hfirst
        have htaken : taken (t :: ts) m = c :: taken ts m₁ := by
          simp only [taken, hread, hfirst]
        rw [htaken, List.append_cons]
        exact ih.error hrest _ (hm.read hread)

/-- READ runs out of DATA exactly if it comes to a target when no constant is left. -/
theorem readTargets_outOfData_iff (targets : List Target) :
    (∃ m', targets.forM readInto m = .error .outOfData m') ↔
      ∃ before t after m₁, targets = before ++ t :: after ∧
        before.forM readInto m = .ok () m₁ ∧ m₁.data.read? = none := by
  constructor
  · rintro ⟨m', h⟩
    induction targets generalizing m with
    | nil => cases h
    | cons t ts ih =>
      rcases bind_error h with hfirst | ⟨u, m₁, hfirst, hrest⟩
      · rcases readInto_error hfirst with ⟨hread, -⟩ | ⟨he, -⟩
        · exact ⟨[], t, ts, m, rfl, rfl, hread⟩
        · exact absurd rfl he
      · obtain ⟨before, t', after, m₂, rfl, hbefore, hread⟩ := ih hrest
        exact ⟨t :: before, t', after, m₂, rfl, (bind_of_ok hfirst).trans hbefore, hread⟩
  · rintro ⟨before, t, after, m₁, rfl, hbefore, hread⟩
    refine ⟨m₁, ?_⟩
    induction before generalizing m with
    | nil =>
      cases hbefore
      exact bind_of_error (readInto_outOfData t hread)
    | cons first before ih =>
      obtain ⟨_, m₂, hfirst, hrest⟩ := bind_ok hbefore
      exact (bind_of_ok hfirst).trans (ih hrest)

end

/-! ## Statements and the DATA -/

section
variable {p : Program} {s : Settings} {line : Line} {here : Position}

theorem execute_sameData {st : Statement} (h : st.usesData = false) :
    Keeps SameData (execute p s line here st) := by
  have hQ := SameData.quiet
  cases st with
  | print items => exact .bind hQ (print_keeps hQ s items) fun _ => .pure hQ _
  | input prompt targets =>
    exact .bind hQ (input_keeps SameData.storing hQ prompt targets) fun _ => .pure hQ _
  | read | restore => cases h
  | _ => exact execute_keeps_internal SameData.storing (fun _ _ => rfl) (fun _ _ => rfl) rfl

/-- `x` does not run out of DATA, whatever else becomes of it. -/
abbrev Supplied {α : Type} (x : Execution α) : Prop :=
  Meets (fun _ => True) (fun _ => True) (· ≠ RuntimeError.outOfData) x

theorem Placeless.supplied {α : Type} {x : Execution α}
    (hx : Placeless (· ≠ RuntimeError.outOfData) x) : Supplied x where
  ok _ _ := ⟨trivial, trivial⟩
  error _ h := ⟨trivial, (hx.error h).1⟩

theorem lineNumbered_supplied (p : Program) (number : Nat) : Supplied (lineNumbered p number) := by
  unfold lineNumbered
  split
  · exact .pure trivial
  · exact .throw (by simp)

theorem gosub_supplied (p : Program) (here : Position) (number : Nat) :
    Supplied (gosub p here number) :=
  .bind (lineNumbered_supplied p number) fun _ _ =>
    .bind (.modify fun _ _ => trivial) fun _ _ => .pure trivial

theorem pick_supplied (index : Int) (lines : List Nat) : Supplied (pick index lines) := by
  unfold pick
  split
  · exact .pure trivial
  · exact .throw (by simp)

theorem nextLoop_supplied (var : Option String) : Supplied (nextLoop var) := by
  refine .bind .get fun m _ => ?_
  split
  · exact .throw (by simp)
  · split
    · split
      · refine .bind (.modify fun _ _ => trivial) fun _ _ => ?_
        exact .bind (.modify fun _ _ => trivial) fun _ _ => .pure trivial
      · exact .bind (.modify fun _ _ => trivial) fun _ _ => .pure trivial
    · exact .throw (by simp)

theorem nextLoops_supplied (vars : List String) : Supplied (nextLoops vars) := by
  induction vars with
  | nil => exact .pure trivial
  | cons var rest ih =>
    refine .bind (nextLoop_supplied (some var)) fun flow _ => ?_
    split
    · exact ih
    · exact .pure trivial

/-- No statement but READ runs out of DATA. -/
theorem execute_supplied {st : Statement} (hread : ∀ targets, st ≠ .read targets) :
    Supplied (execute p s line here st) := by
  have hE := everyday_ne_outOfData
  have hvalue (e : Expr) : Supplied (value e) := (value_placeless hE e).supplied
  have hnumber (e : Expr) : Supplied (number e) := (number_placeless hE e).supplied
  have hgoto (number : Nat) :
      Supplied (do return Flow.jump (← lineNumbered p number) : Execution Flow) :=
    .bind (lineNumbered_supplied p number) fun _ _ => .pure trivial
  have hnext {x : Execution Unit} (hx : Placeless (· ≠ RuntimeError.outOfData) x) :
      Supplied (do x; return Flow.next : Execution Flow) :=
    .bind hx.supplied fun _ _ => .pure trivial
  cases st with
  | data | remark | finish | stop => exact .pure trivial
  | define name params body => exact hnext (setFunction_placeless name _)
  | dim arrays => exact hnext (.forM (dimension_placeless hE) arrays)
  | forLoop var first limit step =>
    refine .bind (hnumber first) fun x _ => .bind (hnumber limit) fun y _ => ?_
    refine .bind (hnumber step) fun z _ => .bind (.modify fun _ _ => trivial) fun _ _ => ?_
    exact .bind (.modify fun _ _ => trivial) fun _ _ => .pure trivial
  | next vars =>
    cases vars with
    | nil => exact nextLoop_supplied none
    | cons var rest => exact nextLoops_supplied (var :: rest)
  | goto number => exact hgoto number
  | gosub number => exact gosub_supplied p here number
  | returnFrom =>
    refine .bind .get fun m _ => ?_
    split
    · exact .bind (.modify fun _ _ => trivial) fun _ _ => .pure trivial
    · exact .throw (by simp)
  | ifLine condition number =>
    refine .bind (hvalue condition) fun v _ => ?_
    split
    · exact hgoto number
    · exact .pure trivial
  | ifElseLine condition number elseNumber => exact .bind (hvalue condition) fun v _ => hgoto _
  | ifThen condition | ifElse condition =>
    refine .bind (hvalue condition) fun v _ => ?_
    split <;> exact .pure trivial
  | onGoto index lines =>
    exact .bind (hnumber index) fun x _ => .bind (pick_supplied _ lines) fun number _ => hgoto number
  | onGosub index lines =>
    refine .bind (hnumber index) fun x _ => .bind (pick_supplied _ lines) fun number _ => ?_
    exact gosub_supplied p here number
  | input prompt targets => exact hnext (input_placeless hE prompt targets)
  | letTo target e => exact .bind (hvalue e) fun v _ => hnext (store_placeless hE v target)
  | assign var e => exact .bind (hvalue e) fun v _ => hnext (setVariable_placeless var v)
  | assignElement target e =>
    exact .bind (hvalue e) fun v _ => hnext (storeElement_placeless hE target v)
  | print items => exact hnext (print_placeless hE s items)
  | read targets => exact absurd rfl (hread targets)
  | restore => exact .bind (.modify fun _ _ => trivial) fun _ _ => .pure trivial

/-! ## Runs -/

/-- The constants taken since the last RESTORE, once a statement is executed. -/
def consumedBy (consumed : List Value) (m : Machine) : Statement → List Value
  | .read targets => consumed ++ taken targets m
  | .restore => []
  | _ => consumed

/-- The constants taken since the last RESTORE, once the next step is made. -/
def consumedNext (p : Program) (s : Settings) (consumed : List Value) (m : Machine) : List Value :=
  match m.pending? p with
  | some (_, st) => if s.allows (m.steps + 1) then consumedBy consumed (m.begun p) st else consumed
  | none => consumed

theorem execute_onStream (st : Statement) :
    Keeps (fun m m' => ∀ consumed, OnStream p consumed m.data →
      OnStream p (consumedBy consumed m st) m'.data) (execute p s line here st) := by
  cases st with
  | read targets =>
    have hread := readTargets_onStream p targets
    refine ⟨fun {m flow m'} h => ?_, fun {m e m'} h => ?_⟩
    · obtain ⟨_, m₁, hrun, hpure⟩ := bind_ok h
      cases hpure
      exact hread.ok hrun
    · exact hread.error (next_error h)
  | restore =>
    refine ⟨fun {m flow m'} h consumed hm => ?_, fun h => by cases h⟩
    cases h
    exact hm.restore
  | _ => exact Keeps.imp (execute_sameData rfl) fun hdata _ hm => hdata.onStream hm

/-- The machines that come about as `p` is run, and run again, each with the constants that READ has
taken since the last RESTORE, or since the first run began. -/
inductive Reading (p : Program) (s : Settings) : List Value → Machine → Prop
  | start (random : Random) (console : Console) : Reading p s [] (start p random console)
  | step {consumed : List Value} {m : Machine} : Reading p s consumed m →
      Reading p s (consumedNext p s consumed m) (m.step p s).machine
  | restart {consumed : List Value} {m : Machine} : Reading p s consumed m →
      Reading p s consumed (m.restart p)
  | console {consumed : List Value} {m : Machine} (console : Console) : Reading p s consumed m →
      Reading p s consumed { m with console }

theorem Reading.reachable {consumed : List Value} {m : Machine} (h : Reading p s consumed m) :
    Reachable p s m := by
  induction h with
  | start random console => exact .start random console
  | step _ ih => exact ih.step
  | restart _ ih => exact ih.restart
  | console c _ ih => exact ih.console c

theorem step_onStream {consumed : List Value} {m : Machine} (h : OnStream p consumed m.data) :
    OnStream p (consumedNext p s consumed m) (m.step p s).machine.data := by
  unfold consumedNext
  cases hnext : m.pending? p with
  | none =>
    obtain ⟨position, steps, hstep⟩ := step_idle (s := s) (.inl hnext)
    rw [hstep]
    exact h
  | some next =>
    obtain ⟨line, st⟩ := next
    by_cases hs : s.allows (m.steps + 1) = true
    · obtain ⟨m', position, hm', hstep⟩ := step_executed hnext hs (execute_onStream st)
      simp only [if_pos hs, hstep]
      exact hm' consumed h
    · obtain ⟨position, steps, hstep⟩ := step_idle (p := p) (.inr hs)
      simp only [if_neg hs, hstep]
      exact h

theorem Reading.onStream {consumed : List Value} {m : Machine} (h : Reading p s consumed m) :
    OnStream p consumed m.data := by
  induction h with
  | start random console => exact .start p
  | step _ ih => exact step_onStream ih
  | restart _ ih => exact ih
  | console _ _ ih => exact ih

/-! ## What a target receives -/

/-- `t` holds `v` in `m'`, where an element is the one that its subscripts give in `m`. -/
def Holds (t : Target) (v : Value) (m m' : Machine) : Prop :=
  match t with
  | .scalar name => m'.workspace.vars.get? name = some v
  | .element a => ∃ cs m₁ g, coordinates a m = .ok cs m₁ ∧
      m'.workspace.arrays.get? a.name = some g ∧ g.get cs = .ok v

theorem store_holds {t : Target} {v : Value} {log : List ArrayEvent} {m m' : Machine}
    (hm : Tracked log m.workspace) (h : store v t m = .ok () m') : Holds t v m m' := by
  cases t with
  | scalar name =>
    cases h
    exact (Table.get?_insert _ _ _ _).trans (if_pos rfl)
  | element a =>
    obtain ⟨cs, m₁, hcs, g, g', hg, hset, -, harrays⟩ := storeElement_ok h
    refine ⟨cs, m₁, g', hcs, ?_, Grid.get_set_self (hm.wellFormed a.name g hg) hset⟩
    rw [harrays]
    exact (Table.get?_insert _ _ _ _).trans (if_pos rfl)

/-- READ takes `c` for `t` in `m`. The cursor moves past `c` in any case. The target holds `c` in the
kind of its name, unless `c` cannot be converted or there is no such element. -/
def Takes (c : Value) (t : Target) (m : Machine) : Prop :=
  ∃ m', m'.data = { m.data with position := m.data.position + 1 } ∧
    ((∃ v, readInto t m = .ok () m' ∧ convertFor t.name c = .ok v ∧ v.kind = Kind.ofName t.name ∧
        Holds t v { m with data := m'.data } m') ∨
      ∃ e, readInto t m = .error e m' ∧ e ≠ .outOfData ∧
        (convertFor t.name c = .error e ∨
          ∃ v a, t = .element a ∧ convertFor t.name c = .ok v ∧
            storeElement a v { m with data := m'.data } = .error e m'))

theorem OnStream.takes {consumed : List Value} {log : List ArrayEvent} {m : Machine}
    (h : OnStream p consumed m.data) (hm : Tracked log m.workspace)
    (hleft : m.data.position ≠ p.constants.length) (t : Target) :
    ∃ c, p.constants[m.data.position]? = some c ∧ Takes c t m := by
  cases hrun : readInto t m with
  | ok u m' =>
    obtain ⟨c, v, hread, hv, hstore⟩ := readInto_ok hrun
    obtain ⟨hc, hdata⟩ := DataCursor.read?_eq_some hread
    have hholds : Holds t v { m with data := m'.data } m' := store_holds hm hstore
    exact ⟨c, h.values ▸ hc, m', hdata, .inl ⟨v, hrun, hv, convertFor_kind hv, hholds⟩⟩
  | error e m' =>
    rcases readInto_error hrun with ⟨hnone, -⟩ | ⟨he, c, hread, hcause⟩
    · exact absurd (h.read?_eq_none_iff.mp hnone) hleft
    · obtain ⟨hc, hdata⟩ := DataCursor.read?_eq_some hread
      refine ⟨c, h.values ▸ hc, m', hdata, .inr ⟨e, hrun, he, ?_⟩⟩
      rcases hcause with hconvert | ⟨v, hv, hstore⟩
      · exact .inl hconvert
      · cases t with
        | scalar name => cases hstore
        | element a => exact .inr ⟨v, a, rfl, hv, hstore⟩

/-- In its next step from `m` the run is to fill `t` in `m₁`, by a READ that has taken `fetched` for
the targets before it. -/
inductive Due (p : Program) (s : Settings) (m : Machine) : List Value → Target → Machine → Prop
  | intro {line : Line} {before after : List Target} {t : Target} {m₁ : Machine} :
      s.allows (m.steps + 1) = true →
      m.pending? p = some (line, .read (before ++ t :: after)) →
      before.forM readInto (m.begun p) = .ok () m₁ →
      Due p s m (taken before (m.begun p)) t m₁

/-- Only READ runs out of DATA, at a target for which no constant is left. -/
theorem step_outOfData_iff {m : Machine} :
    (∃ f m', m.step p s = .ended (.failed f) m' ∧ f.cause = .outOfData) ↔
      ∃ fetched t m₁, Due p s m fetched t m₁ ∧ m₁.data.read? = none := by
  constructor
  · rintro ⟨f, m', hstep, hcause⟩
    obtain ⟨line, st, hnext, ⟨hs, hrun⟩ | ⟨limit, hlimit⟩⟩ := step_failed_cases hstep
    · rw [hcause] at hrun
      by_cases hread : ∃ targets, st = .read targets
      · obtain ⟨targets, rfl⟩ := hread
        obtain ⟨before, t, after, m₁, rfl, hbefore, hnone⟩ :=
          (readTargets_outOfData_iff targets).mp ⟨m', next_error hrun⟩
        exact ⟨_, t, m₁, ⟨hs, hnext, hbefore⟩, hnone⟩
      · rw [not_exists] at hread
        exact absurd rfl ((execute_supplied hread).error trivial hrun).2
    · rw [hcause] at hlimit
      cases hlimit
  · rintro ⟨fetched, t, m₁, hdue, hnone⟩
    cases hdue with
    | @intro line before after _ _ hs hnext hbefore =>
      obtain ⟨m', hrun⟩ :=
        (readTargets_outOfData_iff (before ++ t :: after)).mpr
          ⟨before, t, after, m₁, rfl, hbefore, hnone⟩
      have hexec : execute p s line (p.settle m.position) (.read (before ++ t :: after))
          (m.begun p) = .error .outOfData m' := bind_of_error hrun
      exact ⟨⟨_, _, .outOfData⟩, m', by rw [step_allowed hnext hs, hexec], rfl⟩

/-- **READ delivers the DATA.** Let runs of a program have come to a machine, whatever the control
flow was. The constants taken since the last RESTORE are the first ones of all DATA of the program as
written, those in both branches of IFs included, up to the cursor, which never goes past the last. So
they are whenever a READ is to fill a target. If a constant is left then, the target takes it, and
holds it in the kind of its name. The run fails for lack of DATA exactly if none is left. -/
theorem Reading.delivers {consumed : List Value} {m : Machine} (h : Reading p s consumed m) :
    p.constants = p.leaves.flatMap Statement.listed ∧ OnStream p consumed m.data ∧
      (∀ fetched t m₁, Due p s m fetched t m₁ →
        OnStream p (consumed ++ fetched) m₁.data ∧
          (m₁.data.position ≠ p.constants.length →
            ∃ c, p.constants[m₁.data.position]? = some c ∧ Takes c t m₁)) ∧
      ((∃ f m', m.step p s = .ended (.failed f) m' ∧ f.cause = .outOfData) ↔
        ∃ fetched t m₁, Due p s m fetched t m₁ ∧ m₁.data.position = p.constants.length) := by
  have hdue {fetched : List Value} {t : Target} {m₁ : Machine} (hdue : Due p s m fetched t m₁) :
      OnStream p (consumed ++ fetched) m₁.data := by
    obtain ⟨-, -, hbefore⟩ := hdue
    exact (readTargets_onStream p _).ok hbefore consumed h.onStream
  refine ⟨p.constants_eq, h.onStream, fun fetched t m₁ hm₁ => ⟨hdue hm₁, fun hleft => ?_⟩, ?_⟩
  · obtain ⟨log, hlog⟩ := reachable_iff_history.mp h.reachable
    obtain ⟨-, -, hbefore⟩ := id hm₁
    have hbegun : Tracked log (m.begun p).workspace := hlog.tracked
    have htracked := hbegun.written ((Writes.inTurn readInto_writes _).ok hbefore)
    exact (hdue hm₁).takes htracked hleft t
  · rw [step_outOfData_iff]
    constructor
    · rintro ⟨fetched, t, m₁, hm₁, hnone⟩
      exact ⟨fetched, t, m₁, hm₁, (hdue hm₁).read?_eq_none_iff.mp hnone⟩
    · rintro ⟨fetched, t, m₁, hm₁, hall⟩
      exact ⟨fetched, t, m₁, hm₁, (hdue hm₁).read?_eq_none_iff.mpr hall⟩

end

/-- The DATA of the first branch is never executed, and two constants are too few. -/
def dataInBranches : Program :=
  ⟨[⟨10, 1, "IF \"\" THEN DATA X ELSE DATA Y",
      [.ifElse ⟨"\"\"", .text ""⟩ [.data [.text "X"]] [.data [.text "Y"]]]⟩,
    ⟨20, 2, "READ A$:READ B$,C$",
      [.read [.scalar "A$"], .read [.scalar "B$", .scalar "C$"]]⟩]⟩

/-- The machine before the second READ. -/
def dataInBranchesRead : Machine :=
  ((((start dataInBranches (.ofSeed 0) {}).step dataInBranches {}).machine.step
    dataInBranches {}).machine.step dataInBranches {}).machine

/-- The first READ has taken the constant of the branch that was left out. The second one takes that
of the other branch, and then there is none. -/
theorem delivers_dataInBranches :
    Reading dataInBranches {} [.text "X"] dataInBranchesRead ∧
      (∃ m₁, Due dataInBranches {} dataInBranchesRead [] (.scalar "B$") m₁ ∧
        ∃ c, dataInBranches.constants[1]? = some c ∧ Takes c (.scalar "B$") m₁) ∧
      ∃ f m', dataInBranchesRead.step dataInBranches {} = .ended (.failed f) m' ∧
        f.cause = .outOfData := by
  have hstart : Reading dataInBranches {} [] (start dataInBranches (.ofSeed 0) {}) :=
    .start (.ofSeed 0) {}
  have hread : Reading dataInBranches {} [.text "X"] dataInBranchesRead := hstart.step.step.step
  obtain ⟨-, -, htargets, hout⟩ := hread.delivers
  have hfirst : Due dataInBranches {} dataInBranchesRead [] (.scalar "B$")
      (dataInBranchesRead.begun dataInBranches) :=
    @Due.intro _ _ _ _ [] _ _ _ rfl rfl rfl
  have hlast : ∃ m₁, Due dataInBranches {} dataInBranchesRead [.text "Y"] (.scalar "C$") m₁ ∧
      m₁.data.position = dataInBranches.constants.length :=
    ⟨_, @Due.intro _ _ _ _ [.scalar "B$"] _ _ _ rfl rfl rfl, rfl⟩
  obtain ⟨m₁, hdue, hall⟩ := hlast
  have hleft : (dataInBranchesRead.begun dataInBranches).data.position ≠
      dataInBranches.constants.length := by decide
  exact ⟨hread, ⟨_, hfirst, (htargets _ _ _ hfirst).2 hleft⟩, hout.mpr ⟨_, _, m₁, hdue, hall⟩⟩

end Machine

end ClassicBasic
