import ClassicBasic.Proofs.Expr.NumericCheck
import ClassicBasic.Proofs.Machine.ArrayHistory

/-!
# Kinds and names

A name that ends in `$` stands for texts and any other for numbers. Arrays keep to this: a new array
holds elements of the kind of its name, and storing checks the kind. READ and INPUT convert what
they store. Variables, however, stray: LET and assignment store what their expression gives, of
whatever kind it is, and FOR stores a number under whatever name.

`Reachable.kinds` says that there is no other way. A variable of the wrong kind got it from a LET, an
assignment or a FOR (`Mixes`), and has been of the wrong kind ever since; and each of these, executed
with a value of the wrong kind, does make its variable stray.
-/

namespace ClassicBasic

/-! ## Arrays -/

/-- Arrays hold elements of the kind of their name. -/
def Workspace.ArraysNamed (w : Workspace) : Prop :=
  ∀ name g, w.arrays.get? name = some g → g.kind = Kind.ofName name ∧ g.Uniform

theorem ArrayEvent.Applies.arraysNamed {e : ArrayEvent} {w w' : Workspace} (he : e.Applies w w')
    (hw : w.ArraysNamed) : w'.ArraysNamed := by
  intro name g hg
  cases e with
  | dimensioned name' =>
    obtain ⟨sizes, g', hmake, -, harrays⟩ := he
    rw [harrays] at hg
    rcases Table.get?_insert_some hg with ⟨rfl, rfl⟩ | ⟨-, hold⟩
    · exact Grid.make_uniform hmake
    · exact hw name g hold
  | defined name' =>
    obtain ⟨params, body, -, harrays⟩ := he
    rw [harrays] at hg
    exact hw name g hg
  | stored name' cs v =>
    obtain ⟨g₀, g', hg₀, hset, -, harrays⟩ := he
    rw [harrays] at hg
    rcases Table.get?_insert_some hg with ⟨rfl, rfl⟩ | ⟨-, hold⟩
    · obtain ⟨hkind, huniform⟩ := hw name g₀ hg₀
      obtain ⟨hsame, huniform'⟩ := huniform.set hset
      exact ⟨hsame.trans hkind, huniform'⟩
    · exact hw name g hold

theorem Written.arraysNamed {es : List ArrayEvent} {w w' : Workspace} (h : Written w es w')
    (hw : w.ArraysNamed) : w'.ArraysNamed := by
  induction h with
  | nil hf ha =>
    intro name g hg
    exact hw name g (ha ▸ hg)
  | cons he _ ih => exact ih (he.arraysNamed hw)

namespace Machine

theorem Reachable.arraysNamed {p : Program} {s : Settings} {m : Machine} (h : Reachable p s m) :
    m.workspace.ArraysNamed := by
  induction h with
  | start random console =>
    intro name g hg
    cases hg
  | step _ ih => exact (step_writes p s _).arraysNamed ih
  | restart _ ih => exact ih
  | console _ _ ih => exact ih

/-! ## Variables -/

/-- The variable `name` holds a value of the kind that its name does not stand for. -/
def Strays (m : Machine) (name : String) : Prop :=
  ∃ v, m.workspace.vars.get? name = some v ∧ v.kind ≠ Kind.ofName name

/-- No variable strays in `m'` that does not in `m`. -/
def KeepsKinds (m m' : Machine) : Prop := ∀ name, Strays m' name → Strays m name

theorem KeepsKinds.quiet : Quiet KeepsKinds where
  refl _ _ h := h
  trans h₁ h₂ name h := h₁ name (h₂ name h)
  random _ _ _ h := h
  column _ _ _ h := h
  write _ _ h := h
  read _ _ h := h

theorem KeepsKinds.declaring : Declaring KeepsKinds where
  toMild := KeepsKinds.quiet.toMild
  functions _ _ _ h := h
  arrays _ _ _ h := h

/-- The machine once `v` is stored in the variable `name`. -/
abbrev withVariable (m : Machine) (name : String) (v : Value) : Machine :=
  { m with workspace := { m.workspace with vars := m.workspace.vars.insert name v } }

theorem strays_withVariable {m : Machine} {name var : String} {v : Value}
    (h : Strays (m.withVariable var v) name) :
    name = var ∧ v.kind ≠ Kind.ofName var ∨ Strays m name := by
  obtain ⟨u, hu, hkind⟩ := h
  rcases Table.get?_insert_some hu with ⟨rfl, rfl⟩ | ⟨-, hold⟩
  · exact .inl ⟨rfl, hkind⟩
  · exact .inr ⟨u, hold, hkind⟩

theorem withVariable_strays {m : Machine} {name : String} {v : Value}
    (h : v.kind ≠ Kind.ofName name) : Strays (m.withVariable name v) name :=
  ⟨v, (Table.get?_insert _ _ _ _).trans (if_pos rfl), h⟩

theorem store_keepsKinds {v : Value} (t : Target) (h : v.kind = Kind.ofName t.name) :
    Keeps KeepsKinds (store v t) := by
  cases t with
  | scalar var =>
    refine .modify fun m name hname => ?_
    rcases strays_withVariable hname with ⟨rfl, hkind⟩ | hold
    · exact absurd h hkind
    · exact hold
  | element a => exact storeElement_keeps KeepsKinds.declaring a v

/-- READ converts what it stores. -/
theorem readInto_keepsKinds (t : Target) : Keeps KeepsKinds (readInto t) := by
  have hM := KeepsKinds.quiet.toMild
  refine .bind hM (.get hM) fun m => ?_
  split
  · rename_i c data hread
    refine .bind hM (.modify fun _ _ h => h) fun _ => ?_
    cases hv : convertFor t.name c with
    | ok v => exact store_keepsKinds t (convertFor_kind hv)
    | error e => exact .throw hM e
  · exact .throw hM _

theorem converted_kinds {targets : List Target} {pieces : List (List Char)} {values : List Value}
    (h : ((targets.zip pieces).mapM fun (target, piece) =>
      (convertFor target.name (.text (replyPiece piece))).toOption) = some values) :
    ∀ tv ∈ targets.zip values, tv.2.kind = Kind.ofName tv.1.name := by
  induction targets generalizing pieces values with
  | nil => simp
  | cons t targets ih =>
    cases pieces with
    | nil =>
      obtain rfl : values = [] := by simpa using h.symm
      simp
    | cons piece pieces =>
      rw [List.zip_cons_cons, List.mapM_cons] at h
      obtain ⟨v, hv, h⟩ := Option.bind_eq_some_iff.mp h
      obtain ⟨vs, hvs, h⟩ := Option.bind_eq_some_iff.mp h
      cases h
      rw [List.zip_cons_cons]
      refine List.forall_mem_cons.mpr ⟨convertFor_kind (c := .text (replyPiece piece)) ?_, ih hvs⟩
      cases hconvert : convertFor t.name (.text (replyPiece piece)) with
      | ok u =>
        simp only [hconvert] at hv
        cases hv
        rfl
      | error e =>
        simp only [hconvert] at hv
        cases hv

/-- A reply that fits is made of values of the targets' kinds. -/
theorem reply?_kinds {targets : List Target} {line : String} {values : List Value}
    (h : reply? targets line = some values) :
    ∀ tv ∈ targets.zip values, tv.2.kind = Kind.ofName tv.1.name :=
  converted_kinds (Option.ite_none_right_eq_some.mp h).2

theorem ask_reply {prompt : String} {targets : List Target} {attempts : Nat} {values : List Value}
    {m m' : Machine} (h : ask prompt targets attempts m = .ok values m') :
    ∃ line, reply? targets line = some values := by
  induction attempts generalizing m with
  | zero => cases h
  | succ attempts ih =>
    obtain ⟨_, m₁, -, h⟩ := bind_ok h
    obtain ⟨line, m₂, -, h⟩ := bind_ok h
    cases hreply : reply? targets line with
    | some values' =>
      rw [hreply] at h
      cases h
      exact ⟨line, hreply⟩
    | none =>
      rw [hreply] at h
      obtain ⟨_, m₃, -, h⟩ := bind_ok h
      exact ih h

/-- INPUT converts what it stores. -/
theorem input_keepsKinds (prompt : Option String) (targets : List Target) :
    Keeps KeepsKinds (input prompt targets) := by
  have hQ := KeepsKinds.quiet
  refine .bind hQ (.get hQ) fun m => .bindOf hQ (ask_keeps hQ _ targets _) fun hask => ?_
  obtain ⟨line, hreply⟩ := ask_reply hask
  exact .forM_of_mem hQ fun tv htv => store_keepsKinds tv.1 (reply?_kinds hreply tv htv)

/-! ## Statements that mix the kinds -/

/-- Executed in `m`, the statement stores a value in the variable `name` whose kind is not that of
the name. -/
inductive Mixes (m : Machine) (name : String) : Statement → Prop
  | assign {e : Expr} {v : Value} {m' : Machine} :
      value e m = .ok v m' → v.kind ≠ Kind.ofName name → Mixes m name (.assign name e)
  | letTo {e : Expr} {v : Value} {m' : Machine} :
      value e m = .ok v m' → v.kind ≠ Kind.ofName name → Mixes m name (.letTo (.scalar name) e)
  | forLoop {first limit step : Expr} {x y z : Float} {m₁ m₂ m₃ : Machine} :
      number first m = .ok x m₁ → number limit m₁ = .ok y m₂ → number step m₂ = .ok z m₃ →
      (Value.number x).kind ≠ Kind.ofName name → Mixes m name (.forLoop name first limit step)

section
variable {p : Program} {s : Settings} {line : Line} {here : Position}

theorem setAsIs_strays {st : Statement} {var : String} {e : Expr}
    (hst : ∀ {m v m'}, value e m = .ok v m' → v.kind ≠ Kind.ofName var → Mixes m var st) :
    Keeps (fun m m' => ∀ name, Strays m' name → Strays m name ∨ Mixes m name st)
      (do setVariable var (← value e); return Flow.next : Execution Flow) := by
  have hvalue := value_keeps KeepsKinds.quiet.toMild e
  refine ⟨fun {m flow m'} h name hname => ?_, fun {m e' m'} h name hname => ?_⟩
  · obtain ⟨v, m₁, hv, h⟩ := bind_ok h
    cases h
    rcases strays_withVariable hname with ⟨rfl, hkind⟩ | hold
    · exact .inr (hst hv hkind)
    · exact .inl (hvalue.ok hv name hold)
  · rcases bind_error h with hv | ⟨v, m₁, hv, h⟩
    · exact .inl (hvalue.error hv name hname)
    · cases h

/-- A variable that strays after a statement did so before, or the statement mixes the kinds. -/
theorem execute_strays (st : Statement) :
    Keeps (fun m m' => ∀ name, Strays m' name → Strays m name ∨ Mixes m name st)
      (execute p s line here st) := by
  have hQ := KeepsKinds.quiet
  have hkeeps {x : Execution Flow} (hx : Keeps KeepsKinds x) :
      Keeps (fun m m' => ∀ name, Strays m' name → Strays m name ∨ Mixes m name st) x :=
    hx.imp fun h name hname => .inl (h name hname)
  have hnext {x : Execution Unit} (hx : Keeps KeepsKinds x) :
      Keeps KeepsKinds (do x; return Flow.next : Execution Flow) := .bind hQ hx fun _ => .pure hQ _
  have hnumber := number_keeps KeepsKinds.quiet.toMild
  have hnextLoop (var : Option String) : Keeps KeepsKinds (nextLoop var) := by
    refine nextLoop_keeps hQ (fun _ _ _ h => h) (fun m var x y hx name hname => ?_) var
    rcases strays_withVariable hname with ⟨rfl, hkind⟩ | hold
    · exact ⟨.number x, hx, hkind⟩
    · exact hold
  cases st with
  | assign var e => exact setAsIs_strays .assign
  | letTo target e =>
    cases target with
    | scalar var => exact setAsIs_strays .letTo
    | element a =>
      exact hkeeps (.bind hQ (value_keeps hQ.toMild e) fun v =>
        hnext (storeElement_keeps KeepsKinds.declaring a v))
  | forLoop var first limit step =>
    refine ⟨fun {m flow m'} h name hname => ?_, fun {m e m'} h name hname => ?_⟩
    · obtain ⟨x, m₁, hx, h⟩ := bind_ok h
      obtain ⟨y, m₂, hy, h⟩ := bind_ok h
      obtain ⟨z, m₃, hz, h⟩ := bind_ok h
      cases h
      have hm₃ : KeepsKinds m m₃ :=
        hQ.trans ((hnumber first).ok hx) (hQ.trans ((hnumber limit).ok hy) ((hnumber step).ok hz))
      have hname : Strays (m₃.withVariable var (.number x)) name := hname
      rcases strays_withVariable hname with ⟨rfl, hkind⟩ | hold
      · exact .inr (.forLoop hx hy hz hkind)
      · exact .inl (hm₃ name hold)
    · have hatomic : Atomic (execute p s line here (.forLoop var first limit step)) :=
        execute_atomic rfl
      rw [Strays, (hatomic.error h).workspace] at hname
      exact .inl hname
  | define name params body => exact hkeeps (hnext (setFunction_keeps KeepsKinds.declaring name _))
  | dim arrays =>
    exact hkeeps (hnext (.forM hQ (dimension_keeps KeepsKinds.declaring) arrays))
  | next vars =>
    cases vars with
    | nil => exact hkeeps (hnextLoop none)
    | cons var rest =>
      exact hkeeps (nextLoops_keeps hQ (fun var => hnextLoop (some var)) (var :: rest))
  | assignElement a e =>
    exact hkeeps (.bind hQ (value_keeps hQ.toMild e) fun v =>
      hnext (storeElement_keeps KeepsKinds.declaring a v))
  | input prompt targets => exact hkeeps (hnext (input_keepsKinds prompt targets))
  | read targets => exact hkeeps (hnext (.forM hQ readInto_keepsKinds targets))
  | print items => exact hkeeps (hnext (print_keeps hQ s items))
  | restore => exact hkeeps (hnext (.modify fun _ _ h => h))
  | _ => exact hkeeps (execute_keeps_moves hQ.toMild (fun _ _ _ h => h) rfl)

/-- A statement that mixes the kinds succeeds, and its variable strays. -/
theorem Mixes.execute {st : Statement} {m : Machine} {name : String} (h : Mixes m name st)
    (p : Program) (s : Settings) (line : Line) (here : Position) :
    ∃ m', execute p s line here st m = .ok .next m' ∧ Strays m' name := by
  cases h with
  | assign hv hkind => exact ⟨_, bind_of_ok hv, withVariable_strays hkind⟩
  | letTo hv hkind => exact ⟨_, bind_of_ok hv, withVariable_strays hkind⟩
  | @forLoop first limit step x y z m₁ m₂ m₃ hx hy hz hkind =>
    have hstrays : Strays (m₃.withVariable name (.number x)) name := withVariable_strays hkind
    exact ⟨_, (bind_of_ok hx).trans ((bind_of_ok hy).trans (bind_of_ok hz)), hstrays⟩

/-! ## Runs -/

/-- The next step from `m` stores a value of the wrong kind in the variable `name`. -/
def Slips (p : Program) (s : Settings) (m : Machine) (name : String) : Prop :=
  s.allows (m.steps + 1) = true ∧
    ∃ line st, m.pending? p = some (line, st) ∧ Mixes (m.begun p) name st

variable {m : Machine} {name : String}

theorem step_strays (h : Strays (m.step p s).machine name) : Strays m name ∨ Slips p s m name := by
  by_cases hs : s.allows (m.steps + 1) = true
  · cases hnext : m.pending? p with
    | none =>
      obtain ⟨position, steps, hstep⟩ := step_idle (s := s) (.inl hnext)
      rw [hstep] at h
      exact .inl h
    | some next =>
      obtain ⟨line, st⟩ := next
      obtain ⟨m', position, hm', hstep⟩ := step_executed hnext hs (execute_strays st)
      rw [hstep] at h
      rcases hm' name h with hold | hmixes
      · exact .inl hold
      · exact .inr ⟨hs, line, st, hnext, hmixes⟩
  · obtain ⟨position, steps, hstep⟩ := step_idle (p := p) (.inr hs)
    rw [hstep] at h
    exact .inl h

theorem Slips.step (h : Slips p s m name) : Strays (m.step p s).machine name := by
  obtain ⟨hs, line, st, hnext, hmixes⟩ := h
  obtain ⟨m', hrun, hm'⟩ := hmixes.execute p s line (p.settle m.position)
  rw [step_allowed hnext hs, hrun]
  exact hm'

/-- Runs of `p` lead from `m₀` to `m`, and all machines on the way have `P`. -/
inductive Leads (p : Program) (s : Settings) (P : Machine → Prop) (m₀ : Machine) : Machine → Prop
  | refl : P m₀ → Leads p s P m₀ m₀
  | step {m : Machine} : Leads p s P m₀ m → P (m.step p s).machine →
      Leads p s P m₀ (m.step p s).machine
  | restart {m : Machine} : Leads p s P m₀ m → P (m.restart p) → Leads p s P m₀ (m.restart p)
  | console {m : Machine} (console : Console) : Leads p s P m₀ m → P { m with console } →
      Leads p s P m₀ { m with console }

theorem Reachable.slipped (h : Reachable p s m) (hm : Strays m name) :
    ∃ m₀, Reachable p s m₀ ∧ Slips p s m₀ name ∧
      Leads p s (Strays · name) (m₀.step p s).machine m := by
  induction h with
  | start random console =>
    obtain ⟨v, hv, -⟩ := hm
    cases hv
  | @step m h ih =>
    rcases step_strays hm with hold | hslips
    · obtain ⟨m₀, hm₀, hslips, hleads⟩ := ih hold
      exact ⟨m₀, hm₀, hslips, hleads.step hm⟩
    · exact ⟨m, h, hslips, .refl hm⟩
  | restart _ ih =>
    obtain ⟨m₀, hm₀, hslips, hleads⟩ := ih hm
    exact ⟨m₀, hm₀, hslips, hleads.restart hm⟩
  | console console _ ih =>
    obtain ⟨m₀, hm₀, hslips, hleads⟩ := ih hm
    exact ⟨m₀, hm₀, hslips, hleads.console console hm⟩

/-- **Where names and kinds differ.** In all runs of a program the elements of arrays have the kind
that the name of the array stands for. A variable need not: but if it holds a value of the wrong kind,
a LET, an assignment or a FOR has stored one there, and it has been of the wrong kind since. And when
one of these is executed with a value of the wrong kind, its variable does hold one afterwards. -/
theorem Reachable.kinds (h : Reachable p s m) :
    (∀ name g cs v, m.workspace.arrays.get? name = some g → g.get cs = .ok v →
        v.kind = Kind.ofName name) ∧
      (∀ name, Strays m name → ∃ m₀, Reachable p s m₀ ∧ Slips p s m₀ name ∧
        Leads p s (Strays · name) (m₀.step p s).machine m) ∧
      ∀ name, Slips p s m name → Strays (m.step p s).machine name := by
  refine ⟨fun name g cs v hg hv => ?_, fun name hm => h.slipped hm, fun name hslips => hslips.step⟩
  obtain ⟨hkind, huniform⟩ := h.arraysNamed name g hg
  exact (huniform.get hv).trans hkind

end

/-- A number is assigned to a name for texts. -/
def numberInText : Program :=
  ⟨[⟨10, 1, "A$=5", [.assign "A$" ⟨"5", .single (.number 5)⟩]⟩]⟩

/-- After the assignment, and in the next run, the text variable holds a number, and it was a slip
that made it so. -/
theorem kinds_numberInText :
    ∃ m, Reachable numberInText {} m ∧ m.workspace.vars.get? "A$" = some (.number 5) ∧
      Strays m "A$" ∧ ∃ m₀, Reachable numberInText {} m₀ ∧ Slips numberInText {} m₀ "A$" ∧
        Leads numberInText {} (Strays · "A$") (m₀.step numberInText {}).machine m := by
  have hstart : Reachable numberInText {} (start numberInText (.ofSeed 0) {}) :=
    .start (.ofSeed 0) {}
  have hvalue : ∃ m', value ⟨"5", .single (.number 5)⟩
      ((start numberInText (.ofSeed 0) {}).begun numberInText) = .ok (.number 5) m' := ⟨_, rfl⟩
  obtain ⟨m', hvalue⟩ := hvalue
  have hslips : Slips numberInText {} (start numberInText (.ofSeed 0) {}) "A$" :=
    ⟨rfl, _, _, rfl, .assign hvalue (by decide)⟩
  have hstrays := hstart.kinds.2.2 "A$" hslips
  have hagain := hstart.step.restart
  exact ⟨_, hagain, rfl, hstrays, hagain.kinds.2.1 "A$" hstrays⟩

end Machine

end ClassicBasic
