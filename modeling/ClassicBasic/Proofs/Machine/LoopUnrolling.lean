import ClassicBasic.Proofs.Machine.Budget
import ClassicBasic.Proofs.Machine.Kinds
import ClassicBasic.Proofs.Machine.Placeless
import Mathlib.Data.List.Iterate

/-!
# Loops are their unrollings

A FOR, a body that falls through and the NEXT over the FOR's variable, one after another in a block,
do what the body does when it is run once for each value of the variable (`forLoop_unrolled`). The
values are counted up from the first one by the step, in the arithmetic of floating-point numbers,
and the last is the one before the first that is beyond the limit.

The run of the loop (`LoopText.Through`) is compared with a run that knows of no loop:
`passThrough?` executes the statements of the body, and `unroll?` does so for each of a list of
values. The body may change what the limit and the step were computed from, but they are computed
only once. Statements that fall through know of no places, so the entry that FOR leaves on the stack
makes no difference to the body, and NEXT finds it as FOR has left it.
-/

namespace ClassicBasic

/-! ## Statements of a body -/

/-- The variable that a target is, if it is no element of an array. -/
def Target.scalar? : Target → Option String
  | .scalar name => some name
  | .element _ => none

namespace Statement

/-- Whether a statement is a FOR or a NEXT. -/
def isLoop : Statement → Bool
  | .forLoop .. | .next _ => true
  | _ => false

/-- The variables that a statement stores in, the ones of loops apart. -/
def assigned : Statement → List String
  | .assign name _ => [name]
  | .letTo target _ => target.scalar?.toList
  | .input _ targets | .read targets => targets.filterMap Target.scalar?
  | _ => []

end Statement

namespace Machine

/-- The variable `var` is what it was. -/
def KeepsVariable (var : String) (m m' : Machine) : Prop :=
  m'.workspace.vars.get? var = m.workspace.vars.get? var

theorem KeepsVariable.quiet (var : String) : Quiet (KeepsVariable var) where
  refl _ := rfl
  trans h₁ h₂ := h₂.trans h₁
  random _ _ := rfl
  column _ _ := rfl
  write _ := rfl
  read _ := rfl

theorem KeepsVariable.declaring (var : String) : Declaring (KeepsVariable var) where
  toMild := (KeepsVariable.quiet var).toMild
  functions _ _ := rfl
  arrays _ _ := rfl

theorem setVariable_keepsVariable {var name : String} (h : var ≠ name) (v : Value) :
    Keeps (KeepsVariable var) (setVariable name v) :=
  .modify fun _ => (Table.get?_insert _ _ _ _).trans (if_neg h)

theorem store_keepsVariable {var : String} {t : Target} (h : var ∉ t.scalar?) (v : Value) :
    Keeps (KeepsVariable var) (store v t) := by
  cases t with
  | scalar name =>
    exact setVariable_keepsVariable (fun heq => h (by simp [heq, Target.scalar?])) v
  | element a => exact storeElement_keeps (KeepsVariable.declaring var) a v

section
variable {p : Program} {s : Settings} {line : Line} {here : Position} {st : Statement}

/-- A statement keeps the variables that it does not store in. -/
theorem execute_keepsVariable {var : String} (hloop : st.isLoop = false)
    (hvar : var ∉ st.assigned) : Keeps (KeepsVariable var) (execute p s line here st) := by
  have hQ := KeepsVariable.quiet var
  have hD := KeepsVariable.declaring var
  have hnext {x : Execution Unit} (hx : Keeps (KeepsVariable var) x) :
      Keeps (KeepsVariable var) (do x; return Flow.next : Execution Flow) :=
    .bind hQ hx fun _ => .pure hQ _
  have htargets {targets : List Target} (h : var ∉ targets.filterMap Target.scalar?)
      {t : Target} (ht : t ∈ targets) : var ∉ t.scalar? := fun hmem =>
    h (List.mem_filterMap.mpr ⟨t, ht, hmem⟩)
  cases st with
  | forLoop | next => cases hloop
  | define name params body => exact hnext (setFunction_keeps hD name _)
  | dim arrays => exact hnext (.forM hQ (dimension_keeps hD) arrays)
  | assign name e =>
    refine .bind hQ (value_keeps hQ e) fun v => hnext (setVariable_keepsVariable ?_ v)
    simpa [Statement.assigned] using hvar
  | letTo target e =>
    refine .bind hQ (value_keeps hQ e) fun v => hnext (store_keepsVariable ?_ v)
    simpa [Statement.assigned] using hvar
  | assignElement target e =>
    exact .bind hQ (value_keeps hQ e) fun v => hnext (storeElement_keeps hD target v)
  | print items => exact hnext (print_keeps hQ s items)
  | input prompt targets =>
    refine hnext (.bind hQ (.get hQ) fun m => .bind hQ (ask_keeps hQ _ targets _) fun values => ?_)
    refine .forM_of_mem hQ fun tv htv => store_keepsVariable (htargets hvar ?_) tv.2
    exact (List.of_mem_zip htv).1
  | read targets =>
    refine hnext (.forM_of_mem hQ fun t ht => .bind hQ (.get hQ) fun m => ?_)
    split
    · refine .bind hQ (.modify fun _ => rfl) fun _ => .bind hQ (.lift hQ _) fun v => ?_
      exact store_keepsVariable (htargets hvar ht) v
    · exact .throw hQ _
  | restore => exact hnext (.modify fun _ => rfl)
  | data | remark | finish | stop | goto | gosub | returnFrom | ifLine | ifElseLine | ifThen
  | ifElse | onGoto | onGosub => exact execute_keeps_moves hQ (fun _ _ => rfl) rfl

/-! ## Statements that know of no places -/

theorem lineNumbered_placeless (number : Nat) :
    Placeless (fun _ => True) (lineNumbered p number) := by
  unfold lineNumbered
  split
  · exact .pure _
  · exact .throw trivial

theorem pick_placeless (index : Int) (lines : List Nat) :
    Placeless (fun _ => True) (pick index lines) := by
  unfold pick
  split
  · exact .pure _
  · exact .throw trivial

/-- A statement that leaves the stacks alone does not look at them either. -/
theorem execute_placeless (h : st.isPlain = true) :
    Placeless (fun _ => True) (execute p s line here st) := by
  have hE := everyday
  have hnext {x : Execution Unit} (hx : Placeless (fun _ => True) x) :
      Placeless (fun _ => True) (do x; return Flow.next : Execution Flow) :=
    .bind hx fun _ => .pure _
  have hgoto (number : Nat) : Placeless (fun _ => True)
      (do return Flow.jump (← lineNumbered p number) : Execution Flow) :=
    .bind (lineNumbered_placeless number) fun _ => .pure _
  cases st with
  | forLoop | next | gosub | onGosub | returnFrom => cases h
  | data | remark | finish | stop => exact .pure _
  | define name params body => exact hnext (setFunction_placeless name _)
  | dim arrays => exact hnext (.forM (dimension_placeless hE) arrays)
  | goto number => exact hgoto number
  | ifLine condition number =>
    refine .bind (value_placeless hE condition) fun v => ?_
    split
    · exact hgoto number
    · exact .pure _
  | ifElseLine condition number elseNumber =>
    exact .bind (value_placeless hE condition) fun v => hgoto _
  | ifThen condition | ifElse condition =>
    refine .bind (value_placeless hE condition) fun v => ?_
    split <;> exact .pure _
  | onGoto index lines =>
    refine .bind (number_placeless hE index) fun x => ?_
    exact .bind (pick_placeless _ lines) hgoto
  | input prompt targets => exact hnext (input_placeless hE prompt targets)
  | letTo target e =>
    exact .bind (value_placeless hE e) fun v => hnext (store_placeless hE v target)
  | assign name e =>
    exact .bind (value_placeless hE e) fun v => hnext (setVariable_placeless name v)
  | assignElement target e =>
    exact .bind (value_placeless hE e) fun v => hnext (storeElement_placeless hE target v)
  | print items => exact hnext (print_placeless hE s items)
  | read targets => exact hnext (.forM (readInto_placeless hE trivial) targets)
  | restore => exact hnext (.modify fun _ _ _ _ => rfl)

end

/-! ## Running a body -/

/-- The machine that `x` leaves if the run goes on with the next statement. -/
def falls? (x : Execution Flow) (m : Machine) : Option Machine :=
  match x m with
  | .ok .next m' => some m'
  | _ => none

/-- The machine with one more statement counted, if the budget allows it. -/
def counted? (s : Settings) (m : Machine) : Option Machine :=
  if s.allows (m.steps + 1) then some { m with steps := m.steps + 1 } else none

/-- The machine after the statements of `b`, which stand from `here` on. Each of them is counted and
executed, and has to fall through. -/
def passThrough? (p : Program) (s : Settings) (line : Line) :
    (here : Position) → (b : Block) → Machine → Option Machine
  | _, [], m => some m
  | here, st :: rest, m => do
    let m ← counted? s m
    let m ← falls? (execute p s line here st) m
    passThrough? p s line here.next rest m

/-- The machine after `b` has been run with each of the values `xs` in `var`, and a NEXT has been
counted behind it each time. -/
def unroll? (p : Program) (s : Settings) (line : Line) (here : Position) (b : Block)
    (var : String) : (xs : List Float) → Machine → Option Machine
  | [], m => some m
  | x :: xs, m => do
    let m ← passThrough? p s line here b (m.withVariable var (.number x))
    let m ← counted? s m
    unroll? p s line here b var xs m

section
variable {p : Program} {s : Settings} {line : Line} {here : Position} {st : Statement}
  {m m' : Machine}

theorem falls?_eq_some {x : Execution Flow} : falls? x m = some m' ↔ x m = .ok .next m' := by
  unfold falls?
  cases x m with
  | error e m₁ => simp
  | ok flow m₁ => cases flow <;> simp

/-- A statement that falls through and is no loop does so whatever the places are. -/
theorem falls?_moved (hloop : st.isLoop = false) (q : Position) (ls : List Loop)
    (rs : List Position) :
    falls? (execute p s line here st) (m.moved q ls rs) =
      (falls? (execute p s line here st) m).map (·.moved q ls rs) := by
  by_cases hplain : st.isPlain = true
  · have hx : Placeless (fun _ => True) (execute p s line here st) := execute_placeless hplain
    cases hrun : execute p s line here st m with
    | error e m₁ => simp only [falls?, hrun, (hx.error hrun).2 q ls rs, Option.map_none]
    | ok flow m₁ =>
      simp only [falls?, hrun, hx.ok hrun q ls rs]
      cases flow <;> rfl
  · -- Only calls and RETURN are left, which never fall through.
    have hnone (m : Machine) : falls? (execute p s line here st) m = none := by
      rw [Option.eq_none_iff_forall_ne_some]
      intro m' hfalls
      cases execute_effect (falls?_eq_some.mp hfalls) with
      | pass hst _ => exact hplain hst
      | beginLoop | endLoops => cases hloop
    rw [hnone, hnone]
    rfl

theorem counted?_moved (q : Position) (ls : List Loop) (rs : List Position) :
    counted? s (m.moved q ls rs) = (counted? s m).map (·.moved q ls rs) := by
  have hallows : s.allows ((m.moved q ls rs).steps + 1) = s.allows (m.steps + 1) := rfl
  rw [counted?, counted?, hallows]
  split <;> rfl

theorem counted?_keepsVariable {var : String} (h : counted? s m = some m') :
    KeepsVariable var m m' := by
  obtain ⟨-, h⟩ := Option.ite_none_right_eq_some.mp h
  cases h
  rfl

theorem passThrough?_cons {rest : Block} :
    passThrough? p s line here (st :: rest) m = some m' ↔
      ∃ m₁, (counted? s m).bind (falls? (execute p s line here st)) = some m₁ ∧
        passThrough? p s line here.next rest m₁ = some m' := by
  rw [passThrough?, ← Option.bind_eq_some_iff]
  cases counted? s m <;> rfl

theorem unroll?_cons {b : Block} {var : String} {x : Float} {xs : List Float} :
    unroll? p s line here b var (x :: xs) m = some m' ↔
      ∃ m₁ m₂, passThrough? p s line here b (m.withVariable var (.number x)) = some m₁ ∧
        counted? s m₁ = some m₂ ∧ unroll? p s line here b var xs m₂ = some m' := by
  simp [unroll?, Option.bind_eq_some_iff]

/-- A body keeps the variables that it does not store in. -/
theorem passThrough?_keepsVariable {var : String} {b : Block}
    (hb : ∀ st ∈ b, st.isLoop = false ∧ var ∉ st.assigned)
    (h : passThrough? p s line here b m = some m') : KeepsVariable var m m' := by
  induction b generalizing here m with
  | nil =>
    cases h
    rfl
  | cons st rest ih =>
    obtain ⟨m₂, hst, h⟩ := passThrough?_cons.mp h
    obtain ⟨m₁, hcounted, hfalls⟩ := Option.bind_eq_some_iff.mp hst
    obtain ⟨⟨hloop, hvar⟩, hrest⟩ := List.forall_mem_cons.mp hb
    have hkept : KeepsVariable var m₁ m₂ :=
      (execute_keepsVariable hloop hvar).ok (falls?_eq_some.mp hfalls)
    exact (ih hrest h).trans (hkept.trans (counted?_keepsVariable hcounted))

/-! ## Steps that fall through -/

/-- The next statement is executed without fault and the run goes on behind it. -/
def FallsThrough (p : Program) (s : Settings) (m : Machine) : Prop :=
  ∃ line st m', m.pending? p = some (line, st) ∧
    execute p s line (p.settle m.position) st (m.begun p) = .ok .next m'

theorem step_running_iff {m₁ : Machine} (hnext : m.pending? p = some (line, st)) :
    m.step p s = .running m₁ ↔
      ∃ m₀ flow m', counted? s { m with position := p.settle m.position } = some m₀ ∧
        execute p s line (p.settle m.position) st m₀ = .ok flow m' ∧
        flow.toStep (p.settle m.position) m' = .running m₁ := by
  by_cases hs : s.allows (m.steps + 1) = true
  · have hcounted : counted? s { m with position := p.settle m.position } = some (m.begun p) :=
      if_pos hs
    rw [step_allowed hnext hs, hcounted]
    cases hrun : execute p s line (p.settle m.position) st (m.begun p) with
    | ok flow m' => simp [hrun]
    | error cause m' => simp [hrun]
  · have hcounted : counted? s { m with position := p.settle m.position } = none := if_neg hs
    obtain ⟨limit, hmax, hlimit⟩ := Settings.exists_limit hs
    simp [step_refused hnext hmax hlimit, hcounted]

/-- A step that falls through. -/
theorem step_falls_iff {m₁ : Machine} (hnext : m.pending? p = some (line, st)) :
    FallsThrough p s m ∧ m.step p s = .running m₁ ↔
      ∃ m', (counted? s { m with position := p.settle m.position }).bind
          (falls? (execute p s line (p.settle m.position) st)) = some m' ∧
        m₁ = { m' with position := (p.settle m.position).next } := by
  rw [step_running_iff hnext]
  constructor
  · rintro ⟨⟨line', st', m', hnext', hfalls⟩, m₀, flow, m'', hcounted, hrun, hstep⟩
    rw [hnext] at hnext'
    cases hnext'
    obtain ⟨-, hbegun⟩ := Option.ite_none_right_eq_some.mp hcounted
    cases hbegun
    rw [begun] at hfalls
    rw [hfalls] at hrun
    cases hrun
    cases hstep
    exact ⟨m', Option.bind_eq_some_iff.mpr ⟨_, hcounted, falls?_eq_some.mpr hfalls⟩, rfl⟩
  · rintro ⟨m', hm', rfl⟩
    obtain ⟨m₀, hcounted, hfalls⟩ := Option.bind_eq_some_iff.mp hm'
    rw [falls?_eq_some] at hfalls
    refine ⟨⟨line, st, m', hnext, ?_⟩, m₀, .next, m', hcounted, hfalls, rfl⟩
    obtain ⟨-, hbegun⟩ := Option.ite_none_right_eq_some.mp hcounted
    cases hbegun
    exact hfalls

end

end Machine

/-! ## Loops in a block -/

/-- A FOR, a body and the NEXT over the variable of the FOR, one after another in a block. -/
structure LoopText where
  /-- The place of the line in the program. -/
  line : Nat
  before : Block
  var : String
  first : Expr
  limit : Expr
  step : Expr
  body : Block
  after : Block

namespace LoopText

open Machine

def block (t : LoopText) : Block :=
  t.before ++ .forLoop t.var t.first t.limit t.step :: (t.body ++ .next [t.var] :: t.after)

/-- The place of the statement number `i` of the loop; the FOR is number zero. -/
def place (t : LoopText) (i : Nat) : Position := ⟨t.line, t.block, t.before.length + i⟩

/-- The place behind the NEXT. -/
def behind (t : LoopText) : Position := t.place (t.body.length + 2)

/-- The body has no FOR and no NEXT and does not store in the variable of the loop. -/
def Plain (t : LoopText) : Prop := ∀ st ∈ t.body, st.isLoop = false ∧ t.var ∉ st.assigned

/-- In `n` steps the run comes from `m` to the place behind the NEXT, for the first time, and until
then all statements of the body fall through. -/
structure Through (t : LoopText) (p : Program) (s : Settings) (n : Nat) (m m' : Machine) :
    Prop where
  reached : advance? p s n m = some m'
  behind : m'.position = t.behind
  first : ∀ k < n, ∀ mid, advance? p s k m = some mid → mid.position ≠ t.behind
  falls : ∀ k < n, ∀ mid, advance? p s k m = some mid →
    ∀ i < t.body.length, mid.position = t.place (i + 1) → mid.FallsThrough p s

section
variable {t : LoopText} {p : Program} {s : Settings} {line : Line} {m m' : Machine} {n : Nat}

theorem place_inj {i j : Nat} : t.place i = t.place j ↔ i = j := by
  simp [place]

theorem through_zero : t.Through p s 0 m m' ↔ m' = m ∧ m.position = t.behind := by
  constructor
  · intro h
    obtain rfl : m = m' := Option.some.inj h.reached
    exact ⟨rfl, h.behind⟩
  · rintro ⟨rfl, hbehind⟩
    exact ⟨rfl, hbehind, fun _ hk => absurd hk (Nat.not_lt_zero _),
      fun _ hk => absurd hk (Nat.not_lt_zero _)⟩

theorem through_succ : t.Through p s (n + 1) m m' ↔
    m.position ≠ t.behind ∧
      (∀ i < t.body.length, m.position = t.place (i + 1) → m.FallsThrough p s) ∧
      ∃ m₁, m.step p s = .running m₁ ∧ t.Through p s n m₁ m' := by
  constructor
  · intro h
    refine ⟨h.first 0 (Nat.succ_pos n) m rfl, h.falls 0 (Nat.succ_pos n) m rfl, ?_⟩
    have hreached := h.reached
    rw [advance?] at hreached
    cases hstep : m.step p s with
    | ended ending m₁ => simp [hstep] at hreached
    | running m₁ =>
      rw [hstep] at hreached
      have hadvance {k : Nat} {mid : Machine} (hmid : advance? p s k m₁ = some mid) :
          advance? p s (k + 1) m = some mid := by
        rw [advance?, hstep]
        exact hmid
      exact ⟨m₁, rfl, hreached, h.behind,
        fun k hk mid hmid => h.first (k + 1) (Nat.succ_lt_succ hk) mid (hadvance hmid),
        fun k hk mid hmid => h.falls (k + 1) (Nat.succ_lt_succ hk) mid (hadvance hmid)⟩
  · rintro ⟨hposition, hfalls, m₁, hstep, h⟩
    have hadvance {k : Nat} {mid : Machine} (hmid : advance? p s (k + 1) m = some mid) :
        advance? p s k m₁ = some mid := by
      rw [advance?, hstep] at hmid
      exact hmid
    refine ⟨?_, h.behind, fun k hk mid hmid => ?_, fun k hk mid hmid => ?_⟩
    · rw [advance?, hstep]
      exact h.reached
    · cases k with
      | zero =>
        cases hmid
        exact hposition
      | succ k => exact h.first k (Nat.lt_of_succ_lt_succ hk) mid (hadvance hmid)
    · cases k with
      | zero =>
        cases hmid
        exact hfalls
      | succ k => exact h.falls k (Nat.lt_of_succ_lt_succ hk) mid (hadvance hmid)

/-- A run that is not behind the NEXT yet takes a step. -/
theorem through_iff (h : m.position ≠ t.behind) : t.Through p s n m m' ↔
    ∃ k, n = k + 1 ∧
      (∀ i < t.body.length, m.position = t.place (i + 1) → m.FallsThrough p s) ∧
      ∃ m₁, m.step p s = .running m₁ ∧ t.Through p s k m₁ m' := by
  cases n with
  | zero => simp [through_zero, h]
  | succ n => simp [through_succ, h]

/-! ## The statements of a loop -/

theorem block_for (t : LoopText) :
    t.block[t.before.length + 0]? = some (.forLoop t.var t.first t.limit t.step) := by
  simp [block]

theorem block_body {i : Nat} {st : Statement} (h : t.body[i]? = some st) :
    t.block[t.before.length + (i + 1)]? = some st := by
  obtain ⟨hi, -⟩ := List.getElem?_eq_some_iff.mp h
  rw [block, List.getElem?_append_right (Nat.le_add_right _ _), Nat.add_sub_cancel_left,
    List.getElem?_cons_succ, List.getElem?_append_left hi, h]

theorem block_next (t : LoopText) :
    t.block[t.before.length + (t.body.length + 1)]? = some (.next [t.var]) := by
  simp [block]

/-- The statement that is executed next at a place of the loop. -/
theorem pending?_place {i : Nat} {st : Statement} (hline : p.lines[t.line]? = some line)
    (hst : t.block[t.before.length + i]? = some st) (hm : p.settle m.position = t.place i) :
    m.pending? p = some (line, st) := by
  rw [pending?_eq_some, hm]
  exact ⟨hline, hst⟩

theorem settle_place {i : Nat} {st : Statement} (hst : t.block[t.before.length + i]? = some st) :
    p.settle (t.place i) = t.place i :=
  if_pos (.inr (List.getElem?_eq_some_iff.mp hst).1)

theorem place_ne_behind {i : Nat} (h : i < t.body.length + 2) : t.place i ≠ t.behind := by
  rw [behind, Ne, place_inj]
  omega

/-- A step of the body, whatever the places are. -/
theorem step_body_iff {i : Nat} {st : Statement} {r m₁ : Machine} {ls : List Loop}
    {rs : List Position} (hline : p.lines[t.line]? = some line) (hst : t.body[i]? = some st)
    (hloop : st.isLoop = false) :
    (r.moved (t.place (i + 1)) ls rs).FallsThrough p s ∧
        (r.moved (t.place (i + 1)) ls rs).step p s = .running m₁ ↔
      ∃ r', (counted? s r).bind (falls? (execute p s line (t.place (i + 1)) st)) = some r' ∧
        m₁ = r'.moved (t.place (i + 2)) ls rs := by
  have hblock := block_body hst
  have hsettle : p.settle (r.moved (t.place (i + 1)) ls rs).position = t.place (i + 1) :=
    settle_place hblock
  have hrun : (counted? s (r.moved (t.place (i + 1)) ls rs)).bind
        (falls? (execute p s line (t.place (i + 1)) st)) =
      ((counted? s r).bind (falls? (execute p s line (t.place (i + 1)) st))).map
        (·.moved (t.place (i + 1)) ls rs) := by
    rw [counted?_moved]
    cases counted? s r with
    | none => rfl
    | some r₀ => exact falls?_moved hloop _ _ _
  rw [step_falls_iff (pending?_place hline hblock hsettle), hsettle]
  constructor
  · rintro ⟨a', ha', rfl⟩
    obtain ⟨r', hr', rfl⟩ := Option.map_eq_some_iff.mp (hrun.symm.trans ha')
    exact ⟨r', hr', rfl⟩
  · rintro ⟨r', hr', rfl⟩
    exact ⟨_, hrun.trans (Option.map_eq_some_iff.mpr ⟨r', hr', rfl⟩), rfl⟩

/-- The run through what is left of the body. -/
theorem through_body {i : Nat} {r : Machine} {ls : List Loop} {rs : List Position} (b : Block)
    (hplain : t.Plain) (hline : p.lines[t.line]? = some line) (hb : t.body.drop i = b)
    (hi : i + b.length = t.body.length) :
    t.Through p s n (r.moved (t.place (i + 1)) ls rs) m' ↔
      ∃ r₁ k, n = b.length + k ∧ passThrough? p s line (t.place (i + 1)) b r = some r₁ ∧
        t.Through p s k (r₁.moved (t.place (t.body.length + 1)) ls rs) m' := by
  induction b generalizing i r n with
  | nil =>
    obtain rfl : i = t.body.length := by simpa using hi
    simp [passThrough?]
  | cons st rest ih =>
    have hst : t.body[i]? = some st := by
      rw [← List.head?_drop, hb]
      rfl
    have hrest : t.body.drop (i + 1) = rest := by
      rw [← List.tail_drop, hb]
      rfl
    have hlength : i + 1 + rest.length = t.body.length := by
      rw [← hi, List.length_cons]
      omega
    have hbehind : (r.moved (t.place (i + 1)) ls rs).position ≠ t.behind :=
      place_ne_behind (by omega)
    have hloop := (hplain st (List.mem_of_getElem? hst)).1
    rw [through_iff hbehind]
    constructor
    · rintro ⟨n, rfl, hfalls, m₁, hstep, h⟩
      obtain ⟨r', hr', rfl⟩ :=
        (step_body_iff hline hst hloop).mp ⟨hfalls i (by omega) rfl, hstep⟩
      obtain ⟨r₁, k, rfl, hpass, h⟩ := (ih hrest hlength).mp h
      exact ⟨r₁, k, by rw [List.length_cons]; omega, passThrough?_cons.mpr ⟨r', hr', hpass⟩, h⟩
    · rintro ⟨r₁, k, rfl, hpass, h⟩
      obtain ⟨r', hr', hpass⟩ := passThrough?_cons.mp hpass
      obtain ⟨hfalls, hstep⟩ := (step_body_iff hline hst hloop).mpr ⟨r', hr', rfl⟩
      exact ⟨rest.length + k, by rw [List.length_cons]; omega, fun _ _ _ => hfalls, _, hstep,
        (ih hrest hlength).mpr ⟨r₁, k, rfl, hpass, h⟩⟩

/-! ## NEXT -/

/-- Whether `x` is not beyond the limit, which is an upper one unless the step counts down. -/
def within (limit step x : Float) : Bool := if 0 ≤ step then x ≤ limit else limit ≤ x

/-- NEXT goes on with the innermost loop if that is over its variable. -/
theorem nextLoops_innermost {l : Loop} {outer : List Loop} {x : Float}
    (hloops : m.loops = l :: outer) (hx : m.workspace.vars.get? l.var = some (.number x)) :
    nextLoops [l.var] m =
      if within l.limit l.step (x + l.step) then
        .ok (.jump l.resume)
          { m.withVariable l.var (.number (x + l.step)) with loops := l :: outer }
      else .ok .next { m with loops := outer } := by
  have hfrom : fromLoop (some l.var) m.loops = l :: outer := by simp [fromLoop, hloops]
  have hgoesOn : l.goesOn (x + l.step) = within l.limit l.step (x + l.step) := rfl
  by_cases h : within l.limit l.step (x + l.step) = true
  · have hnext : nextLoop (some l.var) m = .ok (.jump l.resume)
        { m.withVariable l.var (.number (x + l.step)) with loops := l :: outer } := by
      unfold nextLoop
      simp only [get_bind, hfrom, hx]
      rw [if_pos (hgoesOn.trans h)]
      rfl
    rw [if_pos h, nextLoops, bind_of_ok hnext]
    rfl
  · have hnext : nextLoop (some l.var) m = .ok .next { m with loops := outer } := by
      unfold nextLoop
      simp only [get_bind, hfrom, hx]
      rw [if_neg (hgoesOn ▸ h)]
      rfl
    rw [if_neg h, nextLoops, bind_of_ok hnext]
    rfl

/-- The loop that the FOR begins. -/
def entry (t : LoopText) (limit step : Float) : Loop := ⟨t.var, limit, step, t.place 1⟩

/-- What NEXT makes of `r` with the value `x` in the variable: the loop goes on with the next value,
or it is over. -/
def resumed (t : LoopText) (limit step x : Float) (outer : List Loop) (rs : List Position)
    (r : Machine) : Machine :=
  if within limit step (x + step) then
    (r.withVariable t.var (.number (x + step))).moved (t.place 1) (t.entry limit step :: outer) rs
  else r.moved t.behind outer rs

theorem resumed_of_within {limit step x : Float} {outer : List Loop} {rs : List Position}
    {r : Machine} (h : within limit step (x + step) = true) :
    t.resumed limit step x outer rs r =
      (r.withVariable t.var (.number (x + step))).moved (t.place 1)
        (t.entry limit step :: outer) rs := if_pos h

theorem resumed_of_beyond {limit step x : Float} {outer : List Loop} {rs : List Position}
    {r : Machine} (h : within limit step (x + step) = false) :
    t.resumed limit step x outer rs r = r.moved t.behind outer rs := if_neg (by simp [h])

/-- The step of the NEXT, which finds the loop as the FOR has left it. -/
theorem step_next_iff {r m₁ : Machine} {limit step x : Float} {outer : List Loop}
    {rs : List Position} (hline : p.lines[t.line]? = some line)
    (hx : r.workspace.vars.get? t.var = some (.number x)) :
    (r.moved (t.place (t.body.length + 1)) (t.entry limit step :: outer) rs).step p s =
        .running m₁ ↔
      ∃ r', counted? s r = some r' ∧ m₁ = t.resumed limit step x outer rs r' := by
  have hblock := t.block_next
  let q := t.place (t.body.length + 1)
  let ls := t.entry limit step :: outer
  have hsettle : p.settle (r.moved q ls rs).position = q := settle_place hblock
  have hcounted : counted? s { r.moved q ls rs with position := q } =
      (counted? s r).map (·.moved q ls rs) := counted?_moved (m := r) q ls rs
  have hrun {r' : Machine} (hr' : counted? s r = some r') :
      ∃ flow m', execute p s line q (.next [t.var]) (r'.moved q ls rs) = .ok flow m' ∧
        flow.toStep q m' = .running (t.resumed limit step x outer rs r') := by
    have hx' : (r'.moved q ls rs).workspace.vars.get? t.var = some (.number x) :=
      (counted?_keepsVariable hr').trans hx
    have hnext : execute p s line q (.next [t.var]) (r'.moved q ls rs) = _ :=
      nextLoops_innermost (l := t.entry limit step) rfl hx'
    rw [hnext, resumed]
    by_cases h : within limit step (x + step) = true
    · exact ⟨_, _, if_pos h, by rw [if_pos h]; rfl⟩
    · exact ⟨_, _, if_neg h, by rw [if_neg h]; rfl⟩
  rw [step_running_iff (pending?_place hline hblock hsettle), hsettle, hcounted]
  constructor
  · rintro ⟨m₀, flow, m', hm₀, hexec, hstep⟩
    obtain ⟨r', hr', rfl⟩ := Option.map_eq_some_iff.mp hm₀
    obtain ⟨flow', m'', hexec', hstep'⟩ := hrun hr'
    rw [hexec'] at hexec
    cases hexec
    rw [hstep'] at hstep
    cases hstep
    exact ⟨r', hr', rfl⟩
  · rintro ⟨r', hr', rfl⟩
    obtain ⟨flow, m', hexec, hstep⟩ := hrun hr'
    exact ⟨_, flow, m', Option.map_eq_some_iff.mpr ⟨r', hr', rfl⟩, hexec, hstep⟩

/-! ## FOR -/

/-- What the FOR evaluates, in this order: the first value, the limit and the step. -/
def bounds (t : LoopText) : Execution (Float × Float × Float) := do
  let first ← number t.first
  let limit ← number t.limit
  let step ← number t.step
  return (first, limit, step)

theorem bounds_placeless (t : LoopText) : Placeless (fun _ => True) t.bounds := by
  refine .bind (number_placeless everyday t.first) fun first => ?_
  refine .bind (number_placeless everyday t.limit) fun limit => ?_
  exact .bind (number_placeless everyday t.step) fun step => .pure _

theorem beginLoop_bounds (t : LoopText) (here : Position) :
    beginLoop here t.var t.first t.limit t.step = t.bounds >>= fun (first, limit, step) => do
      setVariable t.var (.number first)
      modify fun m => { m with
        loops := { var := t.var, limit, step, resume := here.next } :: outsideLoop t.var m.loops }
      return .next := by
  simp only [beginLoop, bounds, bind_assoc, pure_bind]

/-- The step of the FOR. -/
theorem step_for_iff {m₁ : Machine} (hline : p.lines[t.line]? = some line)
    (hm : p.settle m.position = t.place 0) :
    m.step p s = .running m₁ ↔
      ∃ m₀ first limit step r, counted? s m = some m₀ ∧
        t.bounds m₀ = .ok (first, limit, step) r ∧
        m₁ = (r.withVariable t.var (.number first)).moved (t.place 1)
          (t.entry limit step :: outsideLoop t.var m.loops) m.returns := by
  have hcounted : counted? s { m with position := t.place 0 } =
      (counted? s m).map (·.moved (t.place 0) m.loops m.returns) := counted?_moved _ _ _
  have hbounds := t.bounds_placeless
  rw [step_running_iff (pending?_place hline t.block_for hm), hm, hcounted]
  constructor
  · rintro ⟨a, flow, m', ha, hexec, hstep⟩
    obtain ⟨m₀, hm₀, rfl⟩ := Option.map_eq_some_iff.mp ha
    rw [execute, beginLoop_bounds] at hexec
    obtain ⟨⟨first, limit, step⟩, r', hr', hexec⟩ := bind_ok hexec
    obtain ⟨r, hr, rfl⟩ := hbounds.exists_of_moved hr'
    cases hexec
    cases hstep
    exact ⟨m₀, first, limit, step, r, hm₀, hr, rfl⟩
  · rintro ⟨m₀, first, limit, step, r, hm₀, hr, rfl⟩
    have hexec : execute p s line (t.place 0) (.forLoop t.var t.first t.limit t.step)
        (m₀.moved (t.place 0) m.loops m.returns) =
          .ok .next ((r.withVariable t.var (.number first)).moved (t.place 0)
            (t.entry limit step :: outsideLoop t.var m.loops) m.returns) := by
      rw [execute, beginLoop_bounds, bind_of_ok (hbounds.ok hr _ _ _)]
      rfl
    exact ⟨_, _, _, Option.map_eq_some_iff.mpr ⟨m₀, hm₀, rfl⟩, hexec, rfl⟩

/-! ## Rounds -/

theorem through_behind (h : m.position = t.behind) :
    t.Through p s n m m' ↔ n = 0 ∧ m' = m := by
  cases n with
  | zero => simp [through_zero, h]
  | succ n => simp [through_succ, h]

section
variable {r : Machine} {limit step x : Float} {outer : List Loop} {rs : List Position}
  (hplain : t.Plain)
include hplain

/-- The body leaves the variable of the loop alone. -/
theorem value_of_round {r₁ : Machine}
    (h : passThrough? p s line (t.place 1) t.body (r.withVariable t.var (.number x)) = some r₁) :
    r₁.workspace.vars.get? t.var = some (.number x) :=
  (passThrough?_keepsVariable hplain h).trans ((Table.get?_insert _ _ _ _).trans (if_pos rfl))

variable (hline : p.lines[t.line]? = some line)
include hline

/-- One round of the loop: the body and the NEXT. -/
theorem through_round :
    t.Through p s n ((r.withVariable t.var (.number x)).moved (t.place 1)
        (t.entry limit step :: outer) rs) m' ↔
      ∃ r₁ r₂ k, n = t.body.length + 1 + k ∧
        passThrough? p s line (t.place 1) t.body (r.withVariable t.var (.number x)) = some r₁ ∧
        counted? s r₁ = some r₂ ∧ t.Through p s k (t.resumed limit step x outer rs r₂) m' := by
  have hnext (r₁ : Machine) (k : Nat) (hx : r₁.workspace.vars.get? t.var = some (.number x)) :
      t.Through p s k (r₁.moved (t.place (t.body.length + 1)) (t.entry limit step :: outer) rs) m' ↔
        ∃ r₂ k', k = k' + 1 ∧ counted? s r₁ = some r₂ ∧
          t.Through p s k' (t.resumed limit step x outer rs r₂) m' := by
    rw [through_iff (place_ne_behind (Nat.lt_succ_self _))]
    constructor
    · rintro ⟨k', rfl, -, m₁, hstep, h⟩
      obtain ⟨r₂, hr₂, rfl⟩ := (step_next_iff hline hx).mp hstep
      exact ⟨r₂, k', rfl, hr₂, h⟩
    · rintro ⟨r₂, k', rfl, hr₂, h⟩
      refine ⟨k', rfl, fun i hi heq => ?_, _, (step_next_iff hline hx).mpr ⟨r₂, hr₂, rfl⟩, h⟩
      have := place_inj.mp heq
      omega
  rw [through_body t.body hplain hline rfl (Nat.zero_add _)]
  constructor
  · rintro ⟨r₁, k, rfl, hpass, h⟩
    obtain ⟨r₂, k', rfl, hr₂, h⟩ := (hnext r₁ k (value_of_round hplain hpass)).mp h
    exact ⟨r₁, r₂, k', by omega, hpass, hr₂, h⟩
  · rintro ⟨r₁, r₂, k, rfl, hpass, hr₂, h⟩
    exact ⟨r₁, k + 1, by omega, hpass,
      (hnext r₁ _ (value_of_round hplain hpass)).mpr ⟨r₂, k, rfl, hr₂, h⟩⟩

/-- All rounds of the loop, from the value `x` on. -/
theorem through_rounds :
    t.Through p s n ((r.withVariable t.var (.number x)).moved (t.place 1)
        (t.entry limit step :: outer) rs) m' ↔
      ∃ count r', (∀ i < count, within limit step ((· + step)^[i + 1] x) = true) ∧
        within limit step ((· + step)^[count + 1] x) = false ∧
        unroll? p s line (t.place 1) t.body t.var (List.iterate (· + step) x (count + 1)) r =
          some r' ∧
        r'.workspace.vars.get? t.var = some (.number ((· + step)^[count] x)) ∧
        m' = r'.moved t.behind outer rs ∧ n = (count + 1) * (t.body.length + 1) := by
  -- The rounds are counted by the steps that they take.
  induction n using Nat.strong_induction_on generalizing r x with
  | _ n ih =>
    rw [through_round hplain hline]
    constructor
    · rintro ⟨r₁, r₂, k, rfl, hpass, hr₂, h⟩
      cases hgo : within limit step (x + step) with
      | true =>
        rw [resumed_of_within hgo] at h
        obtain ⟨count, r', hon, hover, hunroll, hlast, hm', rfl⟩ := (ih k (by omega)).mp h
        refine ⟨count + 1, r', fun i hi => ?_, hover, ?_, hlast, hm', ?_⟩
        · cases i with
          | zero => exact hgo
          | succ i => exact hon i (Nat.lt_of_succ_lt_succ hi)
        · exact unroll?_cons.mpr ⟨r₁, r₂, hpass, hr₂, hunroll⟩
        · rw [Nat.succ_mul (count + 1)]
          omega
      | false =>
        rw [resumed_of_beyond hgo] at h
        obtain ⟨rfl, rfl⟩ := (through_behind rfl).mp h
        refine ⟨0, r₂, fun i hi => absurd hi (Nat.not_lt_zero i), hgo, ?_, ?_, rfl, by omega⟩
        · exact unroll?_cons.mpr ⟨r₁, r₂, hpass, hr₂, rfl⟩
        · exact (counted?_keepsVariable hr₂).trans (value_of_round hplain hpass)
    · rintro ⟨count, r', hon, hover, hunroll, hlast, rfl, rfl⟩
      obtain ⟨r₁, r₂, hpass, hr₂, hunroll⟩ := unroll?_cons.mp hunroll
      cases count with
      | zero =>
        cases hunroll
        refine ⟨r₁, r', 0, by omega, hpass, hr₂, ?_⟩
        rw [resumed_of_beyond hover]
        exact (through_behind rfl).mpr ⟨rfl, rfl⟩
      | succ count =>
        refine ⟨r₁, r₂, (count + 1) * (t.body.length + 1), ?_, hpass, hr₂, ?_⟩
        · rw [Nat.succ_mul (count + 1)]
          omega
        · rw [resumed_of_within (hon 0 (Nat.succ_pos count))]
          refine (ih _ ?_).mpr ⟨count, r', fun i hi => hon (i + 1) (Nat.succ_lt_succ hi), hover,
            hunroll, hlast, rfl, rfl⟩
          rw [Nat.succ_mul (count + 1)]
          omega

end

theorem settle_behind_ne (t : LoopText) (p : Program) : p.settle t.behind ≠ t.place 0 := by
  unfold Program.settle
  split
  · exact (place_ne_behind (Nat.succ_pos _)).symm
  · intro h
    have hline : p.skipEmpty (t.line + 1) = t.line := congrArg Position.line h
    unfold Program.skipEmpty at hline
    omega

/-- **A loop is its unrolling.** The run from the FOR comes behind the NEXT, through a body that
falls through, exactly if the first value, the limit and the step can be evaluated, once and in this
order, and the body can be run for each value in turn: the first one in any case, then as long as
the next one is within the limit. It leaves what these runs of the body leave, with the last value
in the variable, and the loops that were under way, without one over the variable and those inside
it. -/
theorem forLoop_unrolled (hplain : t.Plain) (hline : p.lines[t.line]? = some line)
    (hm : p.settle m.position = t.place 0) :
    t.Through p s n m m' ↔
      ∃ m₀ first limit step m₁ count r, counted? s m = some m₀ ∧
        t.bounds m₀ = .ok (first, limit, step) m₁ ∧
        (∀ i < count, within limit step ((· + step)^[i + 1] first) = true) ∧
        within limit step ((· + step)^[count + 1] first) = false ∧
        unroll? p s line (t.place 1) t.body t.var (List.iterate (· + step) first (count + 1)) m₁ =
          some r ∧
        r.workspace.vars.get? t.var = some (.number ((· + step)^[count] first)) ∧
        m' = r.moved t.behind (outsideLoop t.var m.loops) m.returns ∧
        n = 1 + (count + 1) * (t.body.length + 1) := by
  have hbehind : m.position ≠ t.behind := fun h => t.settle_behind_ne p (h ▸ hm)
  have hbody : ∀ i < t.body.length, m.position ≠ t.place (i + 1) := by
    intro i hi h
    rw [h, settle_place (block_body (List.getElem?_eq_getElem hi))] at hm
    exact absurd (place_inj.mp hm) (Nat.succ_ne_zero i)
  rw [through_iff hbehind]
  constructor
  · rintro ⟨k, rfl, -, a, hstep, h⟩
    obtain ⟨m₀, first, limit, step, m₁, hm₀, hbounds, rfl⟩ := (step_for_iff hline hm).mp hstep
    obtain ⟨count, r, hon, hover, hunroll, hlast, rfl, rfl⟩ := (through_rounds hplain hline).mp h
    exact ⟨m₀, first, limit, step, m₁, count, r, hm₀, hbounds, hon, hover, hunroll, hlast, rfl,
      Nat.add_comm _ _⟩
  · rintro ⟨m₀, first, limit, step, m₁, count, r, hm₀, hbounds, hon, hover, hunroll, hlast, rfl,
      rfl⟩
    exact ⟨_, Nat.add_comm _ _, fun i hi h => absurd h (hbody i hi), _,
      (step_for_iff hline hm).mpr ⟨m₀, first, limit, step, m₁, hm₀, hbounds, rfl⟩,
      (through_rounds hplain hline).mpr ⟨count, r, hon, hover, hunroll, hlast, rfl, rfl⟩⟩

end

/-- `FOR I=1 TO L STEP 1`, `L=I` and `NEXT I`. -/
def movingLimit : LoopText where
  line := 0
  before := []
  var := "I"
  first := ⟨"1", .single (.number 1)⟩
  limit := ⟨"L", .single (.var "L")⟩
  step := ⟨"1", .single (.number 1)⟩
  body := [.assign "L" ⟨"I", .single (.var "I")⟩]
  after := []

def movingLimitProgram : Program :=
  ⟨[⟨10, 1, "FOR I=1 TO L STEP 1:L=I:NEXT I", movingLimit.block⟩]⟩

/-- A machine about to run the loop with 2 in `L`. -/
def beforeMovingLimit : Machine :=
  (start movingLimitProgram (.ofSeed 0) {}).withVariable "L" (.number 2)

/-- If 1 + 1 is within the limit of 2 and 1 + 1 + 1 is not, the loop takes two rounds, although the
first one stores 1 where the limit was read from. -/
theorem forLoop_unrolled_movingLimit :
    movingLimit.Plain ∧
      (within 2 1 (1 + 1) = true → within 2 1 (1 + 1 + 1) = false →
        ∃ m', movingLimit.Through movingLimitProgram {} 5 beforeMovingLimit m' ∧
          m'.workspace.vars.get? "I" = some (.number (1 + 1)) ∧
          m'.workspace.vars.get? "L" = some (.number (1 + 1)) ∧ m'.loops = []) := by
  have hplain : movingLimit.Plain := by
    intro st hst
    obtain rfl := List.mem_singleton.mp hst
    exact ⟨rfl, by decide⟩
  obtain ⟨m₀, m₁, hm₀, hbounds, rfl⟩ : ∃ m₀ m₁, counted? {} beforeMovingLimit = some m₀ ∧
      movingLimit.bounds m₀ = .ok (1, 2, 1) m₁ ∧ m₁ = { beforeMovingLimit with steps := 1 } :=
    ⟨_, _, rfl, rfl, rfl⟩
  obtain ⟨r, hunroll, hI, hL⟩ : ∃ r, unroll? movingLimitProgram {}
        ⟨10, 1, "FOR I=1 TO L STEP 1:L=I:NEXT I", movingLimit.block⟩ (movingLimit.place 1)
        movingLimit.body movingLimit.var (List.iterate (· + 1) 1 2)
        { beforeMovingLimit with steps := 1 } = some r ∧
      r.workspace.vars.get? "I" = some (.number (1 + 1)) ∧
      r.workspace.vars.get? "L" = some (.number (1 + 1)) := ⟨_, rfl, rfl, rfl⟩
  refine ⟨hplain, fun hon hover => ⟨_, (forLoop_unrolled hplain rfl rfl).mpr
    ⟨m₀, 1, 2, 1, _, 1, r, hm₀, hbounds, fun i hi => ?_, hover, hunroll, hI, rfl, rfl⟩, hI, hL,
    rfl⟩⟩
  obtain rfl := Nat.lt_one_iff.mp hi
  exact hon

end LoopText

end ClassicBasic
