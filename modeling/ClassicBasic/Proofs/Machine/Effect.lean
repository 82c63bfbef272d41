import ClassicBasic.Proofs.Machine.Execution
import ClassicBasic.Proofs.Statement.InlineIf

/-!
# What a statement does to a run

A statement that succeeds has one of the effects that `Effect` lists: it leaves the stacks alone and
goes on with the next statement, a line or a branch, or it is one of FOR, NEXT, GOSUB, ON GOSUB and
RETURN, which push and pop (`execute_effect`). One that fails may have ended some loops and has done
nothing else to the stacks (`execute_error`).
-/

namespace ClassicBasic

namespace Statement

/-- Whether a statement leaves the loops and the subroutines under way alone. -/
def isPlain : Statement → Bool
  | .forLoop .. | .next _ | .gosub _ | .onGosub .. | .returnFrom => false
  | _ => true

/-- Whether a statement only says where the run goes on, and evaluates at most what that hangs
on. -/
def onlyMoves : Statement → Bool
  | .data _ | .remark _ | .finish | .stop | .goto _ | .gosub _ | .returnFrom | .ifLine ..
  | .ifElseLine .. | .ifThen .. | .ifElse .. | .onGoto .. | .onGosub .. => true
  | _ => false

/-- Whether a statement neither talks nor reads DATA. -/
def isInternal : Statement → Bool
  | .print _ | .input .. | .read _ | .restore => false
  | _ => true

/-- Whether a statement calls a subroutine. -/
def isCall : Statement → Bool
  | .gosub _ | .onGosub .. => true
  | _ => false

end Statement

namespace Machine

/-- `m'` differs from `m` in what it has stored, drawn, read and written, and may have ended some of
the inner loops. -/
structure Unwinds (m m' : Machine) : Prop where
  position : m'.position = m.position
  loops : m'.loops <:+ m.loops
  returns : m'.returns = m.returns
  steps : m'.steps = m.steps
  log : m.console.log <:+ m'.console.log

theorem Calm.unwinds {m m' : Machine} (h : Calm m m') : Unwinds m m' where
  position := h.position
  loops := h.loops ▸ List.suffix_rfl
  returns := h.returns
  steps := h.steps
  log := h.log

theorem Unwinds.refl (m : Machine) : Unwinds m m := (Calm.indifferent.refl m).unwinds

theorem Unwinds.trans {m₁ m₂ m₃ : Machine} (h₁ : Unwinds m₁ m₂) (h₂ : Unwinds m₂ m₃) :
    Unwinds m₁ m₃ where
  position := h₂.position.trans h₁.position
  loops := h₂.loops.trans h₁.loops
  returns := h₂.returns.trans h₁.returns
  steps := h₂.steps.trans h₁.steps
  log := h₁.log.trans h₂.log

/-- What the statement `st`, which stands at `here` in `line`, can do to `m` when it succeeds, and
where the run goes on. -/
inductive Effect (p : Program) (line : Line) (here : Position) :
    Statement → Machine → Flow → Machine → Prop
  | pass {st m m'} : st.isPlain = true → Calm m m' → Effect p line here st m .next m'
  | goto {st m m' number i} : st.isPlain = true → Calm m m' → p.findLine? number = some i →
      Effect p line here st m (.jump (p.lineStart i)) m'
  | enter {st m m' b} : st.isPlain = true → Calm m m' → b ∈ st.branches →
      Effect p line here st m (.jump (here.enter b)) m'
  | finish {m} : Effect p line here .finish m (.halt .ended) m
  | stop {m} : Effect p line here .stop m (.halt (.stopped line.number)) m
  | beginLoop {var first limit step m m'} (x y : Float) : Calm m m' →
      Effect p line here (.forLoop var first limit step) m .next
        { m' with
          loops := { var, limit := x, step := y, resume := here.next } :: outsideLoop var m.loops }
  | endLoops {vars m m'} : Unwinds m m' → Effect p line here (.next vars) m .next m'
  | repeatLoop {vars l outer m m'} : Unwinds m m' → m'.loops = l :: outer →
      Effect p line here (.next vars) m (.jump l.resume) m'
  | call {st number i m m'} : st.isCall = true → Calm m m' → p.findLine? number = some i →
      Effect p line here st m (.jump (p.lineStart i)) { m' with returns := here.next :: m.returns }
  | returnFrom {target returns m} : m.returns = target :: returns →
      Effect p line here .returnFrom m (.jump target) { m with returns }

/-! ## Statements that leave the stacks alone -/

section
variable {p : Program} {s : Settings} {line : Line} {here : Position} {st : Statement}

theorem execute_keeps (h : st.isPlain = true) : Keeps Calm (execute p s line here st) := by
  have hC := Calm.indifferent
  cases st with
  | data values => exact .pure hC _
  | define name params body => exact .bind hC (setFunction_keeps hC _ _) fun _ => .pure hC _
  | dim arrays => exact .bind hC (.forM hC (dimension_keeps hC) arrays) fun _ => .pure hC _
  | finish => exact .pure hC _
  | forLoop var first limit step => cases h
  | gosub number => cases h
  | goto number => exact .bind hC (lineNumbered_keeps hC p number) fun _ => .pure hC _
  | ifLine condition number =>
    refine .bind hC (value_keeps hC condition) fun v => ?_
    split
    · exact .bind hC (lineNumbered_keeps hC p number) fun _ => .pure hC _
    · exact .pure hC _
  | ifElseLine condition number elseNumber =>
    exact .bind hC (value_keeps hC condition) fun v =>
      .bind hC (lineNumbered_keeps hC p _) fun _ => .pure hC _
  | ifThen condition block =>
    refine .bind hC (value_keeps hC condition) fun v => ?_
    split <;> exact .pure hC _
  | ifElse condition block elseBlock =>
    refine .bind hC (value_keeps hC condition) fun v => ?_
    split <;> exact .pure hC _
  | input prompt targets => exact .bind hC (input_keeps hC hC prompt targets) fun _ => .pure hC _
  | letTo target e =>
    exact .bind hC (value_keeps hC e) fun v =>
      .bind hC (store_keeps hC v target) fun _ => .pure hC _
  | next vars => cases h
  | onGosub index lines => cases h
  | onGoto index lines =>
    exact .bind hC (number_keeps hC index) fun x => .bind hC (pick_keeps hC _ lines) fun number =>
      .bind hC (lineNumbered_keeps hC p number) fun _ => .pure hC _
  | print items => exact .bind hC (print_keeps hC s items) fun _ => .pure hC _
  | read targets => exact .bind hC (.forM hC (readInto_keeps hC hC.data) targets) fun _ => .pure hC _
  | remark text => exact .pure hC _
  | restore => exact .bind hC (.modify fun m => hC.data m _) fun _ => .pure hC _
  | returnFrom => cases h
  | stop => exact .pure hC _
  | assign var e =>
    exact .bind hC (value_keeps hC e) fun v => .bind hC (setVariable_keeps hC var v) fun _ =>
      .pure hC _
  | assignElement target e =>
    exact .bind hC (value_keeps hC e) fun v => .bind hC (storeElement_keeps hC target v) fun _ =>
      .pure hC _

/-- What moving changes is the place of the run and the subroutines under way. -/
theorem execute_keeps_moves {R : Machine → Machine → Prop} (hR : Mild R)
    (hreturns : ∀ m returns, R m { m with returns }) (h : st.onlyMoves = true) :
    Keeps R (execute p s line here st) := by
  have hgoto (number : Nat) :
      Keeps R (do return Flow.jump (← lineNumbered p number) : Execution Flow) :=
    .bind hR (lineNumbered_keeps hR p number) fun _ => .pure hR _
  cases st with
  | data | remark | finish | stop => exact .pure hR _
  | goto number => exact hgoto number
  | gosub number => exact gosub_keeps hR hreturns p here number
  | returnFrom =>
    refine .bind hR (.get hR) fun m => ?_
    split
    · exact .bind hR (.modify fun m => hreturns m _) fun _ => .pure hR _
    · exact .throw hR _
  | ifLine condition number =>
    refine .bind hR (value_keeps hR condition) fun v => ?_
    split
    · exact hgoto number
    · exact .pure hR _
  | ifElseLine condition number elseNumber =>
    exact .bind hR (value_keeps hR condition) fun v => hgoto _
  | ifThen condition | ifElse condition =>
    refine .bind hR (value_keeps hR condition) fun v => ?_
    split <;> exact .pure hR _
  | onGoto index lines =>
    refine .bind hR (number_keeps hR index) fun x => ?_
    exact .bind hR (pick_keeps hR _ lines) hgoto
  | onGosub index lines =>
    refine .bind hR (number_keeps hR index) fun x => ?_
    exact .bind hR (pick_keeps hR _ lines) (gosub_keeps hR hreturns p here)
  | define | dim | forLoop | next | input | letTo | assign | assignElement | print | read
  | restore => cases h

/-- What neither talks nor reads DATA changes what is stored, the stacks and the random stream. -/
theorem execute_keeps_internal {R : Machine → Machine → Prop} (hR : Storing R)
    (hloops : ∀ m loops, R m { m with loops }) (hreturns : ∀ m returns, R m { m with returns })
    (h : st.isInternal = true) : Keeps R (execute p s line here st) := by
  have hM := hR.toMild
  have hnext {x : Execution Unit} (hx : Keeps R x) :
      Keeps R (do x; return Flow.next : Execution Flow) := .bind hM hx fun _ => .pure hM _
  have hnextLoop (var : Option String) : Keeps R (nextLoop var) :=
    nextLoop_keeps hM hloops (fun m _ _ _ _ => hR.vars m _) var
  cases st with
  | define name params body => exact hnext (setFunction_keeps hR name _)
  | dim arrays => exact hnext (.forM hM (dimension_keeps hR) arrays)
  | forLoop var first limit step =>
    exact beginLoop_keeps hM hloops (fun x => setVariable_keeps hR var _) here first limit step
  | next vars =>
    cases vars with
    | nil => exact hnextLoop none
    | cons var rest => exact nextLoops_keeps hM (fun var => hnextLoop (some var)) (var :: rest)
  | letTo target e =>
    exact .bind hM (value_keeps hM e) fun v => hnext (store_keeps hR v target)
  | assign var e => exact .bind hM (value_keeps hM e) fun v => hnext (setVariable_keeps hR var v)
  | assignElement target e =>
    exact .bind hM (value_keeps hM e) fun v => hnext (storeElement_keeps hR target v)
  | print | input | read | restore => cases h
  | _ => exact execute_keeps_moves hM hreturns rfl

theorem lineNumbered_ok {number : Nat} {target : Position} {m m' : Machine}
    (h : lineNumbered p number m = .ok target m') :
    m' = m ∧ ∃ i, p.findLine? number = some i ∧ target = p.lineStart i := by
  unfold lineNumbered at h
  cases hi : p.findLine? number with
  | none =>
    rw [hi] at h
    cases h
  | some i =>
    rw [hi] at h
    cases h
    exact ⟨rfl, i, rfl, rfl⟩

/-- A jump to a numbered line goes to the start of a line of the program. -/
theorem jump_ok {number : Nat} {flow : Flow} {m m' : Machine}
    (h : (do return Flow.jump (← lineNumbered p number) : Execution Flow) m = .ok flow m') :
    ∃ i, p.findLine? number = some i ∧ flow = .jump (p.lineStart i) := by
  obtain ⟨target, m₁, h₁, h₂⟩ := bind_ok h
  obtain ⟨-, i, hi, rfl⟩ := lineNumbered_ok h₁
  cases h₂
  exact ⟨i, hi, rfl⟩

theorem next_ok {x : Execution Unit} {flow : Flow} {m m' : Machine}
    (h : (do x; return Flow.next : Execution Flow) m = .ok flow m') : flow = .next := by
  obtain ⟨_, m₁, -, h₂⟩ := bind_ok h
  cases h₂
  rfl

theorem next_error {x : Execution Unit} {e : RuntimeError} {m m' : Machine}
    (h : (do x; return Flow.next : Execution Flow) m = .error e m') : x m = .error e m' := by
  rcases bind_error h with hrun | ⟨_, m₁, -, hpure⟩
  · exact hrun
  · cases hpure

theorem execute_plain {flow : Flow} {m m' : Machine} (hst : st.isPlain = true)
    (h : execute p s line here st m = .ok flow m') : Effect p line here st m flow m' := by
  have hcalm : Calm m m' := (execute_keeps hst).ok h
  -- All but the jumps go on with the next statement, whatever they do on the way.
  have hnext : flow = .next → Effect p line here st m flow m' := fun hf => hf ▸ .pass hst hcalm
  have hjump : (∃ number i, p.findLine? number = some i ∧ flow = .jump (p.lineStart i)) →
      Effect p line here st m flow m' := by
    rintro ⟨number, i, hi, rfl⟩
    exact .goto hst hcalm hi
  cases st with
  | data values => cases h; exact hnext rfl
  | define name params body => exact hnext (next_ok h)
  | dim arrays => exact hnext (next_ok h)
  | finish => cases h; exact .finish
  | forLoop var first limit step => cases hst
  | gosub number => cases hst
  | goto number => exact hjump ⟨number, jump_ok h⟩
  | ifLine condition number =>
    obtain ⟨v, m₁, -, h₂⟩ := bind_ok h
    split at h₂
    · exact hjump ⟨number, jump_ok h₂⟩
    · cases h₂
      exact hnext rfl
  | ifElseLine condition number elseNumber =>
    obtain ⟨v, m₁, -, h₂⟩ := bind_ok h
    exact hjump ⟨_, jump_ok h₂⟩
  | ifThen condition block =>
    obtain ⟨v, m₁, -, h₂⟩ := bind_ok h
    split at h₂
    · cases h₂
      exact .enter hst hcalm (by simp [Statement.branches])
    · cases h₂
      exact hnext rfl
  | ifElse condition block elseBlock =>
    obtain ⟨v, m₁, -, h₂⟩ := bind_ok h
    split at h₂
    all_goals
      cases h₂
      exact .enter hst hcalm (by simp [Statement.branches])
  | input prompt targets => exact hnext (next_ok h)
  | letTo target e =>
    obtain ⟨v, m₁, -, h₂⟩ := bind_ok h
    exact hnext (next_ok h₂)
  | next vars => cases hst
  | onGosub index lines => cases hst
  | onGoto index lines =>
    obtain ⟨x, m₁, -, h₂⟩ := bind_ok h
    obtain ⟨number, m₂, -, h₃⟩ := bind_ok h₂
    exact hjump ⟨number, jump_ok h₃⟩
  | print items => exact hnext (next_ok h)
  | read targets => exact hnext (next_ok h)
  | remark text => cases h; exact hnext rfl
  | restore => exact hnext (next_ok h)
  | returnFrom => cases hst
  | stop => cases h; exact .stop
  | assign var e =>
    obtain ⟨v, m₁, -, h₂⟩ := bind_ok h
    exact hnext (next_ok h₂)
  | assignElement target e =>
    obtain ⟨v, m₁, -, h₂⟩ := bind_ok h
    exact hnext (next_ok h₂)

/-! ## Loops -/

theorem fromLoop_suffix (var : Option String) (loops : List Loop) :
    fromLoop var loops <:+ loops := by
  cases var with
  | none => exact List.suffix_rfl
  | some name => exact List.dropWhile_suffix _

theorem beginLoop_ok {var : String} {first limit step : Expr} {flow : Flow} {m m' : Machine}
    (h : beginLoop here var first limit step m = .ok flow m') :
    Effect p line here (.forLoop var first limit step) m flow m' := by
  have hC := Calm.indifferent
  obtain ⟨x, m₁, h₁, h⟩ := bind_ok h
  obtain ⟨y, m₂, h₂, h⟩ := bind_ok h
  obtain ⟨z, m₃, h₃, h⟩ := bind_ok h
  obtain ⟨_, m₄, h₄, h⟩ := bind_ok h
  have hcalm : Calm m m₄ :=
    hC.trans ((number_keeps hC first).ok h₁) (hC.trans ((number_keeps hC limit).ok h₂)
      (hC.trans ((number_keeps hC step).ok h₃) ((setVariable_keeps hC var _).ok h₄)))
  have heffect : Effect p line here (.forLoop var first limit step) m .next _ :=
    .beginLoop y z hcalm
  rw [← hcalm.loops] at heffect
  cases h
  exact heffect

theorem beginLoop_error {var : String} {first limit step : Expr} {e : RuntimeError}
    {m m' : Machine} (h : beginLoop here var first limit step m = .error e m') : Calm m m' := by
  have hC := Calm.indifferent
  obtain h | ⟨x, m₁, h₁, h⟩ := bind_error h
  · exact (number_keeps hC first).error h
  refine hC.trans ((number_keeps hC first).ok h₁) ?_
  obtain h | ⟨y, m₂, h₂, h⟩ := bind_error h
  · exact (number_keeps hC limit).error h
  refine hC.trans ((number_keeps hC limit).ok h₂) ?_
  obtain h | ⟨z, m₃, h₃, h⟩ := bind_error h
  · exact (number_keeps hC step).error h
  cases h

/-- What NEXT does with one loop: it fails and changes nothing, the loop is over, or it goes on. -/
theorem nextLoop_cases (var : Option String) (m : Machine) :
    (∃ e, nextLoop var m = .error e m) ∨
      (∃ m', nextLoop var m = .ok .next m' ∧ Unwinds m m') ∨
      ∃ m' l outer, nextLoop var m = .ok (.jump l.resume) m' ∧ Unwinds m m' ∧
        m'.loops = l :: outer := by
  rcases nextLoop_results var m with he | ⟨l, outer, x, hfrom, -, hover | hon⟩
  · exact .inl he
  · have houter : outer <:+ m.loops :=
      (List.suffix_cons l outer).trans (hfrom ▸ fromLoop_suffix var m.loops)
    exact .inr (.inl ⟨_, hover, ⟨rfl, houter, rfl, rfl, List.suffix_rfl⟩⟩)
  · have hloops : l :: outer <:+ m.loops := hfrom ▸ fromLoop_suffix var m.loops
    exact .inr (.inr ⟨_, l, outer, hon, ⟨rfl, hloops, rfl, rfl, List.suffix_rfl⟩, rfl⟩)

theorem nextLoop_ok {var : Option String} {vars : List String} {flow : Flow} {m m' : Machine}
    (h : nextLoop var m = .ok flow m') : Effect p line here (.next vars) m flow m' := by
  obtain ⟨e, he⟩ | ⟨m₁, h₁, hm⟩ | ⟨m₁, l, outer, h₁, hm, hl⟩ := nextLoop_cases var m
  · rw [he] at h
    cases h
  · rw [h₁] at h
    cases h
    exact .endLoops hm
  · rw [h₁] at h
    cases h
    exact .repeatLoop hm hl

theorem nextLoops_ok {vars all : List String} {flow : Flow} {m m' : Machine}
    (h : nextLoops vars m = .ok flow m') : Effect p line here (.next all) m flow m' := by
  induction vars generalizing m with
  | nil =>
    cases h
    exact .endLoops (.refl _)
  | cons var rest ih =>
    obtain ⟨e, he⟩ | ⟨m₁, h₁, hm⟩ | ⟨m₁, l, outer, h₁, hm, hl⟩ := nextLoop_cases (some var) m
    · rw [nextLoops, bind_of_error he] at h
      cases h
    · rw [nextLoops, bind_of_ok h₁] at h
      -- The loops after this one end within those that it has left.
      cases ih h with
      | pass hst _ | goto hst _ _ | enter hst _ _ | call hst _ _ => cases hst
      | endLoops hm' => exact .endLoops (hm.trans hm')
      | repeatLoop hm' hl => exact .repeatLoop (hm.trans hm') hl
    · rw [nextLoops, bind_of_ok h₁] at h
      cases h
      exact .repeatLoop hm hl

theorem nextLoops_error {vars : List String} {e : RuntimeError} {m m' : Machine}
    (h : nextLoops vars m = .error e m') : Unwinds m m' := by
  induction vars generalizing m with
  | nil => cases h
  | cons var rest ih =>
    obtain ⟨e, he⟩ | ⟨m₁, h₁, hm⟩ | ⟨m₁, l, outer, h₁, hm, hl⟩ := nextLoop_cases (some var) m
    · rw [nextLoops, bind_of_error he] at h
      cases h
      exact .refl _
    · rw [nextLoops, bind_of_ok h₁] at h
      exact hm.trans (ih h)
    · rw [nextLoops, bind_of_ok h₁] at h
      cases h

/-! ## Subroutines -/

theorem gosub_ok {number : Nat} {flow : Flow} {m m' : Machine}
    (h : gosub p here number m = .ok flow m') :
    ∃ i, p.findLine? number = some i ∧ flow = .jump (p.lineStart i) ∧
      m' = { m with returns := here.next :: m.returns } := by
  obtain ⟨target, m₁, h₁, h⟩ := bind_ok h
  obtain ⟨rfl, i, hi, rfl⟩ := lineNumbered_ok h₁
  cases h
  exact ⟨i, hi, rfl, rfl⟩

theorem gosub_error {number : Nat} {e : RuntimeError} {m m' : Machine}
    (h : gosub p here number m = .error e m') : Calm m m' := by
  obtain h | ⟨target, m₁, h₁, h⟩ := bind_error h
  · exact (lineNumbered_keeps Calm.indifferent p number).error h
  · cases h

/-! ## All statements -/

/-- **What a statement that succeeds does.** -/
theorem execute_effect {flow : Flow} {m m' : Machine}
    (h : execute p s line here st m = .ok flow m') : Effect p line here st m flow m' := by
  have hC := Calm.indifferent
  cases st with
  | forLoop var first limit step => exact beginLoop_ok h
  | next vars =>
    cases vars with
    | nil => exact nextLoop_ok h
    | cons var rest => exact nextLoops_ok h
  | gosub number =>
    obtain ⟨i, hi, rfl, rfl⟩ := gosub_ok h
    exact .call rfl (hC.refl m) hi
  | onGosub index lines =>
    obtain ⟨x, m₁, h₁, h⟩ := bind_ok h
    obtain ⟨number, m₂, h₂, h⟩ := bind_ok h
    have hcalm : Calm m m₂ :=
      hC.trans ((number_keeps hC index).ok h₁) ((pick_keeps hC _ lines).ok h₂)
    obtain ⟨i, hi, rfl, rfl⟩ := gosub_ok h
    rw [hcalm.returns]
    exact .call rfl hcalm hi
  | returnFrom =>
    simp only [execute, get_bind] at h
    cases hreturns : m.returns with
    | nil =>
      rw [hreturns] at h
      cases h
    | cons target returns =>
      rw [hreturns] at h
      cases h
      exact .returnFrom hreturns
  | _ => exact execute_plain rfl h

/-- **What a statement that fails does**: some loops may have ended. -/
theorem execute_error {e : RuntimeError} {m m' : Machine}
    (h : execute p s line here st m = .error e m') : Unwinds m m' := by
  have hC := Calm.indifferent
  cases st with
  | forLoop var first limit step => exact (beginLoop_error h).unwinds
  | next vars =>
    cases vars with
    | nil =>
      obtain ⟨e, he⟩ | ⟨m₁, h₁, -⟩ | ⟨m₁, l, outer, h₁, -⟩ := nextLoop_cases none m
      · rw [execute, he] at h
        cases h
        exact .refl _
      · rw [execute, h₁] at h
        cases h
      · rw [execute, h₁] at h
        cases h
    | cons var rest => exact nextLoops_error h
  | gosub number => exact (gosub_error h).unwinds
  | onGosub index lines =>
    obtain h | ⟨x, m₁, h₁, h⟩ := bind_error h
    · exact ((number_keeps hC.toMild index).error h).unwinds
    refine Unwinds.trans ((number_keeps hC.toMild index).ok h₁).unwinds ?_
    obtain h | ⟨number, m₂, h₂, h⟩ := bind_error h
    · exact ((pick_keeps hC.toMild _ lines).error h).unwinds
    exact (hC.trans ((pick_keeps hC _ lines).ok h₂) (gosub_error h)).unwinds
  | returnFrom =>
    simp only [execute, get_bind] at h
    cases hreturns : m.returns with
    | nil =>
      rw [hreturns] at h
      cases h
      exact .refl _
    | cons target returns =>
      rw [hreturns] at h
      cases h
  | _ => exact ((execute_keeps rfl).error h).unwinds

/-! ## What all effects have in common -/

namespace Effect

variable {flow : Flow} {m m' : Machine}

theorem steps (h : Effect p line here st m flow m') : m'.steps = m.steps := by
  cases h with
  | pass _ hm | goto _ hm _ | enter _ hm _ | beginLoop _ _ hm | call _ hm _ => exact hm.steps
  | endLoops hm | repeatLoop hm _ => exact hm.steps
  | finish | stop | returnFrom _ => rfl

theorem position (h : Effect p line here st m flow m') : m'.position = m.position := by
  cases h with
  | pass _ hm | goto _ hm _ | enter _ hm _ | beginLoop _ _ hm | call _ hm _ => exact hm.position
  | endLoops hm | repeatLoop hm _ => exact hm.position
  | finish | stop | returnFrom _ => rfl

theorem log (h : Effect p line here st m flow m') : m.console.log <:+ m'.console.log := by
  cases h with
  | pass _ hm | goto _ hm _ | enter _ hm _ | beginLoop _ _ hm | call _ hm _ => exact hm.log
  | endLoops hm | repeatLoop hm _ => exact hm.log
  | finish | stop | returnFrom _ => exact List.suffix_rfl

/-- Loops end from the inside, or FOR begins one in place of an older one over its variable. -/
theorem loops (h : Effect p line here st m flow m') :
    m'.loops <:+ m.loops ∨
      ∃ l first limit step, st = .forLoop l.var first limit step ∧ l.resume = here.next ∧
        m'.loops = l :: outsideLoop l.var m.loops := by
  cases h with
  | pass _ hm | goto _ hm _ | enter _ hm _ | call _ hm _ => exact .inl hm.unwinds.loops
  | endLoops hm | repeatLoop hm _ => exact .inl hm.loops
  | beginLoop _ _ hm => exact .inr ⟨_, _, _, _, rfl, rfl, rfl⟩
  | finish | stop | returnFrom _ => exact .inl List.suffix_rfl

/-- At most one subroutine is called or left. -/
theorem returns (h : Effect p line here st m flow m') :
    m'.returns = m.returns ∨ (st.isCall = true ∧ m'.returns = here.next :: m.returns) ∨
      ∃ target, m.returns = target :: m'.returns := by
  cases h with
  | pass _ hm | goto _ hm _ | enter _ hm _ | beginLoop _ _ hm => exact .inl hm.returns
  | endLoops hm | repeatLoop hm _ => exact .inl hm.returns
  | call hcall _ _ => exact .inr (.inl ⟨hcall, rfl⟩)
  | returnFrom hm => exact .inr (.inr ⟨_, hm⟩)
  | finish | stop => exact .inl rfl

end Effect

end

end Machine

end ClassicBasic
