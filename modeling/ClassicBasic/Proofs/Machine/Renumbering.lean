import ClassicBasic.Proofs.Machine.Budget
import ClassicBasic.Proofs.Machine.Placeless
import Mathlib.Logic.Equiv.Basic

/-!
# Renumbering a program

The numbers of lines are names: a program in which they are exchanged for others, in front of the
lines and in the jumps, does the same. `run_renumber` states it for all runs. Only `findLine?`
looks at a number, and it only asks which line is the first with a given one; so it is enough that
different numbers stay different.

`Mirrors r f x x'` says that `x'` does to a renumbered machine what `x` does to the machine, ending
with the renumbered result. A sequence mirrors another if its parts do. What knows of no places
mirrors itself (`Blind`), so only jumps, calls and loops are walked through.
-/

namespace ClassicBasic

variable (r : Nat → Nat)

/-! ## Renumbered programs and machines -/

namespace Statement

mutual

/-- The statement with other numbers in its jumps. -/
def renumber : Statement → Statement
  | .gosub line => .gosub (r line)
  | .goto line => .goto (r line)
  | .ifLine condition line => .ifLine condition (r line)
  | .ifElseLine condition line elseLine => .ifElseLine condition (r line) (r elseLine)
  | .ifThen condition block => .ifThen condition (renumberBlock block)
  | .ifElse condition block elseBlock =>
    .ifElse condition (renumberBlock block) (renumberBlock elseBlock)
  | .onGosub index lines => .onGosub index (lines.map r)
  | .onGoto index lines => .onGoto index (lines.map r)
  | st => st

def renumberBlock : Block → Block
  | [] => []
  | st :: rest => st.renumber :: renumberBlock rest

end

end Statement

def Line.renumber (l : Line) : Line :=
  { l with number := r l.number, block := Statement.renumberBlock r l.block }

/-- The program with other numbers in front of its lines and in its jumps. -/
def Program.renumber (p : Program) : Program := ⟨p.lines.map (Line.renumber r)⟩

def Position.renumber (q : Position) : Position :=
  { q with block := Statement.renumberBlock r q.block }

def Loop.renumber (l : Loop) : Loop := { l with resume := l.resume.renumber r }

/-- The machine in the renumbered program: only the places it knows are others. -/
def Machine.renumber (m : Machine) : Machine :=
  { m with
    position := m.position.renumber r
    loops := m.loops.map (Loop.renumber r)
    returns := m.returns.map (Position.renumber r) }

def RuntimeError.renumber : RuntimeError → RuntimeError
  | .undefinedLine number => .undefinedLine (r number)
  | e => e

def Outcome.renumber : Outcome → Outcome
  | .stopped line => .stopped (r line)
  | outcome => outcome

def Failure.renumber (f : Failure) : Failure :=
  { f with
    location := { f.location with line := r f.location.line }
    cause := f.cause.renumber r }

def Ending.renumber : Ending → Ending
  | .finished outcome => .finished (outcome.renumber r)
  | .failed failure => .failed (failure.renumber r)

def Flow.renumber : Flow → Flow
  | .next => .next
  | .jump target => .jump (target.renumber r)
  | .halt outcome => .halt (outcome.renumber r)

def Step.renumber : Step → Step
  | .running m => .running (m.renumber r)
  | .ended ending m => .ended (ending.renumber r) (m.renumber r)

/-! ## Places -/

theorem Statement.renumberBlock_eq (b : Block) : renumberBlock r b = b.map (renumber r) := by
  induction b with
  | nil => rfl
  | cons st rest ih => rw [renumberBlock, ih, List.map_cons]

section
variable {r}

mutual

theorem Statement.constants_renumber (st : Statement) :
    (st.renumber r).constants = st.constants := by
  cases st with
  | ifThen condition block =>
    rw [Statement.renumber, Statement.constants, Statement.constants,
      blockConstants_renumber block]
  | ifElse condition block elseBlock =>
    rw [Statement.renumber, Statement.constants, Statement.constants,
      blockConstants_renumber block, blockConstants_renumber elseBlock]
  | _ => rfl

theorem blockConstants_renumber (b : Block) :
    blockConstants (Statement.renumberBlock r b) = blockConstants b := by
  cases b with
  | nil => rfl
  | cons st rest =>
    rw [Statement.renumberBlock, blockConstants, blockConstants, Statement.constants_renumber st,
      blockConstants_renumber rest]

end

namespace Program

variable (p : Program)

theorem constants_renumber : (p.renumber r).constants = p.constants := by
  have hline (l : Line) : blockConstants (l.renumber r).block = blockConstants l.block :=
    blockConstants_renumber l.block
  simp only [constants, renumber, List.flatMap_map, hline]

theorem lineStart_renumber (i : Nat) :
    (p.renumber r).lineStart i = (p.lineStart i).renumber r := by
  unfold lineStart Position.renumber renumber
  rw [List.getElem?_map]
  cases p.lines[i]? <;> rfl

theorem skipEmpty_renumber (i : Nat) : (p.renumber r).skipEmpty i = p.skipEmpty i := by
  have hempty : (fun l : Line => l.block.isEmpty) ∘ Line.renumber r = fun l => l.block.isEmpty := by
    funext l
    simp [Line.renumber, Statement.renumberBlock_eq]
  unfold skipEmpty renumber
  rw [← List.map_drop, List.takeWhile_map, List.length_map, hempty]

theorem settle_renumber (q : Position) :
    (p.renumber r).settle (q.renumber r) = (p.settle q).renumber r := by
  have hlines : (p.renumber r).lines.length = p.lines.length := by simp [renumber]
  have hblock : (q.renumber r).block.length = q.block.length := by
    simp [Position.renumber, Statement.renumberBlock_eq]
  unfold settle
  rw [hlines, hblock, skipEmpty_renumber, lineStart_renumber, apply_ite (Position.renumber r)]
  rfl

/-- Numbers that are different stay so, and the first line with a number is still the first. -/
theorem findLine?_renumber (hr : Function.Injective r) (number : Nat) :
    (p.renumber r).findLine? (r number) = p.findLine? number := by
  have hnumber : (fun l : Line => l.number == r number) ∘ Line.renumber r =
      fun l => l.number == number := by
    funext l
    simp [Line.renumber, hr.eq_iff]
  unfold findLine? renumber
  rw [List.findIdx?_map, hnumber]

end Program

end

@[simp]
theorem Loop.renumber_var (l : Loop) : (l.renumber r).var = l.var := rfl

@[simp]
theorem Loop.renumber_step (l : Loop) : (l.renumber r).step = l.step := rfl

@[simp]
theorem Loop.goesOn_renumber (l : Loop) (x : Float) : (l.renumber r).goesOn x = l.goesOn x := rfl

namespace Machine

@[simp]
theorem renumber_workspace (m : Machine) : (m.renumber r).workspace = m.workspace := rfl

theorem renumber_eq_moved (m : Machine) : m.renumber r = m.moved (m.position.renumber r)
    (m.loops.map (Loop.renumber r)) (m.returns.map (Position.renumber r)) := rfl

variable {r} {α β α' β' : Type}

/-! ## Mirrored executions -/

/-- `x'` does to the renumbered machine what `x` does to the machine, and `f` renumbers its
result. -/
structure Mirrors (r : Nat → Nat) (f : α → α') (x : Execution α) (x' : Execution α') : Prop where
  ok : ∀ {m a m'}, x m = .ok a m' → x' (m.renumber r) = .ok (f a) (m'.renumber r)
  error : ∀ {m e m'}, x m = .error e m' → x' (m.renumber r) = .error (e.renumber r) (m'.renumber r)

/-- `x` does the same to a renumbered machine. -/
abbrev Blind (r : Nat → Nat) (x : Execution α) : Prop := Mirrors r id x x

namespace Mirrors

variable {f : α → α'} {g : β → β'} {x : Execution α} {x' : Execution α'}

theorem pure (f : α → α') (a : α) : Mirrors r f (Pure.pure a) (Pure.pure (f a)) where
  ok h := by cases h; rfl
  error h := by cases h

theorem throw (e : RuntimeError) :
    Mirrors r f (throw e : Execution α) (throw (e.renumber r) : Execution α') where
  ok h := by cases h
  error h := by cases h; rfl

theorem get : Mirrors r (Machine.renumber r) get get where
  ok h := by cases h; rfl
  error h := by cases h

theorem modify {g g' : Machine → Machine} (h : ∀ m, g' (m.renumber r) = (g m).renumber r) :
    Mirrors r id (modify g : Execution Unit) (modify g' : Execution Unit) where
  ok {m a m'} hm := by
    cases hm
    exact congrArg (EStateM.Result.ok ()) (h m)
  error hm := by cases hm

theorem bind {k : α → Execution β} {k' : α' → Execution β'} (hx : Mirrors r f x x')
    (hk : ∀ a, Mirrors r g (k a) (k' (f a))) : Mirrors r g (x >>= k) (x' >>= k') where
  ok h := by
    obtain ⟨a, m₁, h₁, h₂⟩ := bind_ok h
    rw [bind_of_ok (hx.ok h₁)]
    exact (hk a).ok h₂
  error h := by
    obtain h | ⟨a, m₁, h₁, h₂⟩ := bind_error h
    · exact bind_of_error (hx.error h)
    · rw [bind_of_ok (hx.ok h₁)]
      exact (hk a).error h₂

/-- What knows of no places does the same to a renumbered machine. -/
theorem of_placeless (hx : Placeless (fun e => e.renumber r = e) x) : Blind r x where
  ok {m a m'} h := by
    obtain ⟨hposition, hloops, hreturns⟩ := hx.places_ok h
    rw [renumber_eq_moved, renumber_eq_moved, hposition, hloops, hreturns]
    exact hx.ok h _ _ _
  error {m e m'} h := by
    obtain ⟨hposition, hloops, hreturns⟩ := hx.places_error h
    obtain ⟨he, hmoved⟩ := hx.error h
    rw [renumber_eq_moved, renumber_eq_moved, hposition, hloops, hreturns, he]
    exact hmoved _ _ _

/-- After what knows of no places, both go on with the same result. -/
theorem after {k : α → Execution β} {k' : α → Execution β'}
    (hx : Placeless (fun e => e.renumber r = e) x) (hk : ∀ a, Mirrors r g (k a) (k' a)) :
    Mirrors r g (x >>= k) (x >>= k') :=
  .bind (.of_placeless hx) hk

end Mirrors

/-! ## Jumps and loops -/

/-- Renumbering changes no fault of evaluating, storing and talking. -/
theorem everyday_renumber : Everyday (fun e => e.renumber r = e) where
  expression _ := rfl
  array _ _ := rfl
  unknownArray _ := rfl
  notNumeric _ _ := rfl
  inputClosed := rfl
  console _ := rfl

theorem pick_mirrors (index : Int) (lines : List Nat) :
    Mirrors r r (pick index lines) (pick index (lines.map r)) := by
  unfold pick
  have hline : (if 1 ≤ index then (lines.map r)[(index - 1).toNat]? else none) =
      (if 1 ≤ index then lines[(index - 1).toNat]? else none).map r := by
    split <;> simp
  rw [hline, List.length_map]
  cases (if 1 ≤ index then lines[(index - 1).toNat]? else none) with
  | none => exact .throw (.onIndex index lines.length)
  | some line => exact .pure r line

section
variable {p : Program} (hr : Function.Injective r)
include hr

theorem lineNumbered_mirrors (number : Nat) :
    Mirrors r (Position.renumber r) (lineNumbered p number)
      (lineNumbered (p.renumber r) (r number)) := by
  unfold lineNumbered
  rw [p.findLine?_renumber hr]
  cases p.findLine? number with
  | none => exact .throw (.undefinedLine number)
  | some i =>
    simp only [p.lineStart_renumber]
    exact .pure (Position.renumber r) (p.lineStart i)

/-- A jump to a line. -/
theorem jump_mirrors (number : Nat) :
    Mirrors r (Flow.renumber r) (do return Flow.jump (← lineNumbered p number) : Execution Flow)
      (do return Flow.jump (← lineNumbered (p.renumber r) (r number)) : Execution Flow) :=
  .bind (lineNumbered_mirrors hr number) fun target => .pure (Flow.renumber r) (.jump target)

theorem gosub_mirrors (here : Position) (number : Nat) :
    Mirrors r (Flow.renumber r) (gosub p here number)
      (gosub (p.renumber r) (here.renumber r) (r number)) :=
  .bind (lineNumbered_mirrors hr number) fun target =>
    .bind (.modify fun _ => rfl) fun _ => .pure (Flow.renumber r) (.jump target)

end

theorem dropWhile_renumber (name : String) (loops : List Loop) :
    (loops.map (Loop.renumber r)).dropWhile (fun l => l.var != name) =
      (loops.dropWhile fun l => l.var != name).map (Loop.renumber r) :=
  List.dropWhile_map ..

theorem beginLoop_mirrors (here : Position) (var : String) (first limit step : Expr) :
    Mirrors r (Flow.renumber r) (beginLoop here var first limit step)
      (beginLoop (here.renumber r) var first limit step) := by
  have hE := everyday_renumber (r := r)
  refine .after (number_placeless hE first) fun x => .after (number_placeless hE limit) fun y => ?_
  refine .after (number_placeless hE step) fun z => ?_
  refine .after (setVariable_placeless var (.number x)) fun _ => ?_
  refine .bind (.modify fun m => ?_) fun _ => .pure (Flow.renumber r) .next
  have houtside : outsideLoop var (m.loops.map (Loop.renumber r)) =
      (outsideLoop var m.loops).map (Loop.renumber r) := by
    unfold outsideLoop
    rw [dropWhile_renumber]
    cases m.loops.dropWhile fun l => l.var != var <;> rfl
  simp only [renumber, houtside, List.map_cons]
  rfl

theorem nextLoop_mirrors (var : Option String) :
    Mirrors r (Flow.renumber r) (nextLoop var) (nextLoop var) := by
  refine .bind .get fun m => ?_
  have hfrom : fromLoop var (m.renumber r).loops =
      (fromLoop var m.loops).map (Loop.renumber r) := by
    cases var with
    | none => rfl
    | some name => exact dropWhile_renumber name m.loops
  rw [hfrom]
  cases fromLoop var m.loops with
  | nil => exact .throw (.nextWithoutFor var)
  | cons l outer =>
    simp only [List.map_cons, renumber_workspace, Loop.renumber_var, Loop.renumber_step,
      Loop.goesOn_renumber]
    cases m.workspace.vars.get? l.var with
    | none => exact .throw (.loopVariable l.var)
    | some v =>
      cases v with
      | text t => exact .throw (.loopVariable l.var)
      | number x =>
        by_cases hon : l.goesOn (x + l.step) = true
        · simp only [hon, if_true]
          refine .after (setVariable_placeless l.var _) fun _ => ?_
          refine .bind (.modify fun _ => rfl) fun _ => ?_
          exact .pure (Flow.renumber r) (.jump l.resume)
        · simp only [hon]
          refine .bind (.modify fun _ => rfl) fun _ => ?_
          exact .pure (Flow.renumber r) .next

theorem nextLoops_mirrors (vars : List String) :
    Mirrors r (Flow.renumber r) (nextLoops vars) (nextLoops vars) := by
  induction vars with
  | nil => exact .pure (Flow.renumber r) .next
  | cons var rest ih =>
    refine .bind (nextLoop_mirrors (some var)) fun flow => ?_
    cases flow with
    | next => exact ih
    | jump target => exact .pure (Flow.renumber r) (.jump target)
    | halt outcome => exact .pure (Flow.renumber r) (.halt outcome)

/-! ## Statements -/

section
variable {p : Program} {s : Settings} {m : Machine} (hr : Function.Injective r)
include hr

theorem execute_mirrors (line : Line) (here : Position) (st : Statement) :
    Mirrors r (Flow.renumber r) (execute p s line here st)
      (execute (p.renumber r) s (line.renumber r) (here.renumber r) (st.renumber r)) := by
  have hreturn (flow : Flow) : Mirrors r (Flow.renumber r) (return flow : Execution Flow)
      (return flow.renumber r : Execution Flow) := .pure (Flow.renumber r) flow
  have hE := everyday_renumber (r := r)
  have hnext {x : Execution Unit} (hx : Placeless (fun e => e.renumber r = e) x) :
      Mirrors r (Flow.renumber r) (do x; return Flow.next) (do x; return Flow.next) :=
    .after hx fun _ => hreturn .next
  cases st with
  | data | remark => exact hreturn .next
  | finish => exact hreturn (.halt .ended)
  | stop => exact hreturn (.halt (.stopped line.number))
  | define name params body => exact hnext (setFunction_placeless name _)
  | dim arrays => exact hnext (.forM (dimension_placeless hE) arrays)
  | forLoop var first limit step => exact beginLoop_mirrors here var first limit step
  | next vars =>
    cases vars with
    | nil => exact nextLoop_mirrors none
    | cons var rest => exact nextLoops_mirrors (var :: rest)
  | goto number => exact jump_mirrors hr number
  | gosub number => exact gosub_mirrors hr here number
  | returnFrom =>
    refine .bind .get fun m => ?_
    have hreturns : (m.renumber r).returns = m.returns.map (Position.renumber r) := rfl
    rw [hreturns]
    cases m.returns with
    | nil => exact .throw .returnWithoutGosub
    | cons target returns => exact .bind (.modify fun _ => rfl) fun _ => hreturn (.jump target)
  | ifLine condition number =>
    refine .after (value_placeless hE condition) fun v => ?_
    split
    · exact jump_mirrors hr number
    · exact hreturn .next
  | ifElseLine condition number elseNumber =>
    refine .after (value_placeless hE condition) fun v => ?_
    change Mirrors r _ _ (do
      return Flow.jump (← lineNumbered _ (if v.isTrue then r number else r elseNumber)))
    rw [← apply_ite r]
    exact jump_mirrors hr _
  | ifThen condition block =>
    refine .after (value_placeless hE condition) fun v => ?_
    split
    · exact hreturn (.jump (here.enter block))
    · exact hreturn .next
  | ifElse condition block elseBlock =>
    refine .after (value_placeless hE condition) fun v => ?_
    split
    · exact hreturn (.jump (here.enter block))
    · exact hreturn (.jump (here.enter elseBlock))
  | input prompt targets => exact hnext (input_placeless hE prompt targets)
  | letTo target e =>
    exact .after (value_placeless hE e) fun v => hnext (store_placeless hE v target)
  | assign var e => exact .after (value_placeless hE e) fun v => hnext (setVariable_placeless var v)
  | assignElement target e =>
    exact .after (value_placeless hE e) fun v => hnext (storeElement_placeless hE target v)
  | onGoto index lines =>
    exact .after (number_placeless hE index) fun x => .bind (pick_mirrors _ lines) (jump_mirrors hr)
  | onGosub index lines =>
    refine .after (number_placeless hE index) fun x => ?_
    exact .bind (pick_mirrors _ lines) (gosub_mirrors hr here)
  | print items => exact hnext (print_placeless hE s items)
  | read targets => exact hnext (.forM (readInto_placeless hE rfl) targets)
  | restore => exact hnext (.modify fun _ _ _ _ => rfl)

/-! ## Steps and runs -/

theorem step_renumber : (m.renumber r).step (p.renumber r) s = (m.step p s).renumber r := by
  have hhere : (p.renumber r).settle (m.renumber r).position = (p.settle m.position).renumber r :=
    p.settle_renumber m.position
  have hpending : (m.renumber r).pending? (p.renumber r) =
      (m.pending? p).map fun next => (next.1.renumber r, next.2.renumber r) := by
    unfold pending?
    rw [hhere]
    simp only [Program.renumber, Position.renumber, Statement.renumberBlock_eq, List.getElem?_map]
    cases p.lines[(p.settle m.position).line]? <;>
      cases (p.settle m.position).block[(p.settle m.position).index]? <;> rfl
  have hbegun : (m.renumber r).begun (p.renumber r) = (m.begun p).renumber r := by
    unfold begun
    rw [hhere]
    rfl
  cases hnext : m.pending? p with
  | none =>
    rw [hnext] at hpending
    rw [step_fellOff hnext, step_fellOff hpending, hhere]
    rfl
  | some next =>
    obtain ⟨line, st⟩ := next
    rw [hnext] at hpending
    by_cases hs : s.allows (m.steps + 1) = true
    · have hmirror := execute_mirrors (p := p) (s := s) hr line (p.settle m.position) st
      rw [step_allowed hnext hs, step_allowed hpending hs, hhere, hbegun]
      cases hexec : execute p s line (p.settle m.position) st (m.begun p) with
      | ok flow m' =>
        rw [hmirror.ok hexec]
        cases flow <;> rfl
      | error e m' =>
        rw [hmirror.error hexec]
        rfl
    · obtain ⟨limit, hmax, hlimit⟩ := Settings.exists_limit hs
      rw [step_refused hnext hmax hlimit, step_refused hpending hmax hlimit, hbegun]
      rfl

theorem advance?_renumber (n : Nat) :
    (m.renumber r).advance? (p.renumber r) s n = (m.advance? p s n).map (Machine.renumber r) := by
  induction n generalizing m with
  | zero => rfl
  | succ n ih =>
    rw [advance?, advance?, step_renumber hr]
    cases m.step p s with
    | running m' => exact ih
    | ended ending m' => rfl

theorem run_from_renumber (fuel : Nat) :
    (m.renumber r).run (p.renumber r) s fuel =
      (m.run p s fuel).map fun result => (result.1.renumber r, result.2.renumber r) := by
  induction fuel generalizing m with
  | zero => rfl
  | succ fuel ih =>
    rw [run, run, step_renumber hr]
    cases m.step p s with
    | running m' => exact ih
    | ended ending m' => rfl

end

theorem start_renumber (p : Program) (random : Random) (console : Console) :
    start (p.renumber r) random console = (start p random console).renumber r := by
  unfold start
  rw [p.constants_renumber, p.lineStart_renumber]
  rfl

/-- **Renumbering a program changes nothing but the numbers.** Let `r` give different numbers to
different ones, whatever their order, and exchange the numbers of a program by it: those in front of
the lines, of which several may be equal, and those that jumps lead to, whether there is such a line
or not. From the same start, after any number of statements both runs have come to the same machine,
with the same variables, console and count of statements, up to the places in the program that it
knows; one ends when the other does, and in the same way, with `r` applied to the line where it
stopped or failed and to the number of a line that is not there. -/
theorem run_renumber (hr : Function.Injective r) (p : Program) (s : Settings) (random : Random)
    (console : Console) :
    (∀ n, (start (p.renumber r) random console).advance? (p.renumber r) s n =
      ((start p random console).advance? p s n).map (Machine.renumber r)) ∧
    ∀ fuel, (start (p.renumber r) random console).run (p.renumber r) s fuel =
      ((start p random console).run p s fuel).map fun result =>
        (result.1.renumber r, result.2.renumber r) := by
  rw [start_renumber]
  exact ⟨advance?_renumber hr, run_from_renumber hr⟩

/-- Lines in no order, two of them with the same number. -/
def unsortedLines : Program :=
  ⟨[⟨30, 1, "GOSUB 20", [.gosub 20]⟩, ⟨10, 2, "STOP", [.stop]⟩, ⟨20, 3, "GOTO 10", [.goto 10]⟩,
    ⟨20, 4, "END", [.finish]⟩]⟩

/-- With 10 and 20 exchanged the program stops where it did, in the line that is now numbered 20. -/
theorem run_renumber_unsortedLines :
    Function.Injective (Equiv.swap 10 20) ∧
      ((start unsortedLines (.ofSeed 0) {}).run unsortedLines {} 3).map Prod.fst =
        some (.finished (.stopped 10)) ∧
      ((start (unsortedLines.renumber (Equiv.swap 10 20)) (.ofSeed 0) {}).run
        (unsortedLines.renumber (Equiv.swap 10 20)) {} 3).map Prod.fst =
          some (.finished (.stopped 20)) := by
  refine ⟨Equiv.injective _, rfl, ?_⟩
  rw [(run_renumber (Equiv.injective (Equiv.swap 10 20)) unsortedLines {} (.ofSeed 0) {}).2 3]
  rfl

end Machine

end ClassicBasic
