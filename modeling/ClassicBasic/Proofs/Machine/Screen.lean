import ClassicBasic.Proofs.Machine.Stepping

/-!
# The column on the screen

PRINT goes by the column, which the machine counts as it writes. `Session.column_eq` says that the
count is right: it is the number of characters behind the last line end of all that is on the
screen, where each reply to INPUT ends its line. So a comma leads to the next tab stop.

`Shows` relates two machines if all that was written and read in between is in the log and a column
that was right is so again. Writing and reading a line do this as a whole; nothing else changes the
console or the column (`Silent`).
-/

namespace ClassicBasic

/-! ## What is on the screen -/

/-- What an event puts on the screen. The reply to a question ends its line. -/
def Event.shown : Event → List Char
  | .wrote text => text.toList
  | .read _ => ['\n']

/-- What some events put on the screen, the latest of which comes first. -/
def transcript (events : List Event) : List Char := events.reverse.flatMap Event.shown

/-- The number of characters behind the last line end. -/
def lastLineLength (cs : List Char) : Nat := (cs.reverse.takeWhile (· != '\n')).length

theorem transcript_append (later earlier : List Event) :
    transcript (later ++ earlier) = transcript earlier ++ transcript later := by
  simp [transcript]

theorem lastLineLength_concat (cs : List Char) (c : Char) :
    lastLineLength (cs ++ [c]) = if c == '\n' then 0 else lastLineLength cs + 1 := by
  by_cases hc : c = '\n'
  · simp [lastLineLength, hc]
  · simp [lastLineLength, hc]

theorem Console.write?_of_unlimited {c : Console} (h : c.writesLeft = none) (s : String) :
    c.write? s = some { c with log := .wrote s :: c.log } := by
  simp [write?, use?, h]

namespace Machine

/-- Counting on from a column that is right gives the right one. -/
theorem columnAfter_lastLineLength (cs : List Char) (s : String) :
    columnAfter (lastLineLength cs) s = lastLineLength (cs ++ s.toList) := by
  unfold columnAfter
  generalize s.toList = ds
  induction ds generalizing cs with
  | nil => rw [List.foldl_nil, List.append_nil]
  | cons c ds ih =>
    rw [List.foldl_cons, ← lastLineLength_concat, ih, List.append_assoc, List.singleton_append]

/-! ## Executions and the screen -/

/-- Unless a write may fail, all that happens on the console from `m` to `m'` is in the log, and a
column that is right in `m` is right in `m'`. -/
def Shows (m m' : Machine) : Prop :=
  m.console.writesLeft = none → m'.console.writesLeft = none ∧
    ∃ events, m'.console.log = events ++ m.console.log ∧
      ∀ cs, m.column = lastLineLength cs → m'.column = lastLineLength (cs ++ transcript events)

/-- `m'` has the console and the column of `m`. -/
def Silent (m m' : Machine) : Prop := m'.console = m.console ∧ m'.column = m.column

theorem Silent.storing : Storing Silent where
  refl _ := ⟨rfl, rfl⟩
  trans h₁ h₂ := ⟨h₂.1.trans h₁.1, h₂.2.trans h₁.2⟩
  random _ _ := ⟨rfl, rfl⟩
  functions _ _ := ⟨rfl, rfl⟩
  arrays _ _ := ⟨rfl, rfl⟩
  vars _ _ := ⟨rfl, rfl⟩

theorem Silent.shows {m m' : Machine} (h : Silent m m') : Shows m m' := by
  intro hwrites
  refine ⟨h.1 ▸ hwrites, [], by rw [h.1]; rfl, fun cs hcs => ?_⟩
  simp [transcript, h.2, hcs]

theorem Shows.mild : Mild Shows where
  refl m := Silent.shows ⟨rfl, rfl⟩
  trans {m₁ m₂ m₃} h₁ h₂ := by
    intro hwrites
    obtain ⟨hwrites₂, events₁, hlog₁, hcolumn₁⟩ := h₁ hwrites
    obtain ⟨hwrites₃, events₂, hlog₂, hcolumn₂⟩ := h₂ hwrites₂
    refine ⟨hwrites₃, events₂ ++ events₁, by rw [hlog₂, hlog₁, List.append_assoc], fun cs hcs => ?_⟩
    rw [hcolumn₂ _ (hcolumn₁ cs hcs), transcript_append, List.append_assoc]
  random _ _ := Silent.shows ⟨rfl, rfl⟩

theorem write_ok {m : Machine} (h : m.console.writesLeft = none) (s : String) :
    write s m = .ok () { m with
      column := columnAfter m.column s
      console := { m.console with log := .wrote s :: m.console.log } } := by
  rw [write_eq, Console.write?_of_unlimited h]

theorem write_shows (s : String) : Keeps Shows (write s) where
  ok {m u m'} h := by
    intro hwrites
    rw [write_ok hwrites] at h
    cases h
    refine ⟨hwrites, [.wrote s], rfl, fun cs hcs => ?_⟩
    show columnAfter m.column s = _
    rw [hcs, columnAfter_lastLineLength]
    simp [transcript, Event.shown]
  error {m e m'} h := by
    intro hwrites
    rw [write_ok hwrites] at h
    cases h

theorem readLine_shows : Keeps Shows readLine := by
  -- The device breaks down, or there is no line left, or there is one. Only the last succeeds.
  refine ⟨fun {m line m'} h => ?_, fun {m e m'} h => ?_⟩
  · rw [readLine_eq] at h
    rcases hread : m.console.read? with _ | ⟨_ | line, console⟩
    all_goals rw [hread] at h; cases h
    intro hwrites
    obtain ⟨hleft, hlog⟩ := Console.read?_some hread
    refine ⟨hleft.trans hwrites, [.read line], hlog, fun cs _ => ?_⟩
    simp [transcript, Event.shown, lastLineLength_concat]
  · rw [readLine_eq] at h
    rcases hread : m.console.read? with _ | ⟨_ | line, console⟩
    all_goals rw [hread] at h; cases h
    · exact Shows.mild.refl m
    · intro hwrites
      obtain ⟨hleft, hlog⟩ := Console.read?_some hread
      refine ⟨hleft.trans hwrites, [], hlog, fun cs hcs => ?_⟩
      simp [transcript, hcs]

theorem printItem_shows (s : Settings) (item : PrintItem) : Keeps Shows (printItem s item) := by
  have hS := Shows.mild
  cases item with
  | expr e => exact .bind hS (value_keeps hS e) fun v => write_shows _
  | comma => exact .bind hS (.get hS) fun m => write_shows _
  | semicolon => exact .pure hS ()

theorem print_shows (s : Settings) (items : List PrintItem) : Keeps Shows (print s items) := by
  have hS := Shows.mild
  refine .bind hS (.forM hS (printItem_shows s) items) fun _ => ?_
  split
  · exact .pure hS ()
  · exact write_shows "\n"

theorem ask_shows (prompt : String) (targets : List Target) (attempts : Nat) :
    Keeps Shows (ask prompt targets attempts) := by
  have hS := Shows.mild
  induction attempts with
  | zero => exact .throw hS _
  | succ attempts ih =>
    refine .bind hS (write_shows _) fun _ => .bind hS readLine_shows fun line => ?_
    split
    · exact .pure hS _
    · exact .bind hS (write_shows _) fun _ => ih

theorem input_shows (prompt : Option String) (targets : List Target) :
    Keeps Shows (input prompt targets) := by
  have hS := Shows.mild
  refine .bind hS (.get hS) fun m => .bind hS (ask_shows _ targets _) fun values => ?_
  have hstore (tv : Target × Value) : Keeps Silent (store tv.2 tv.1) :=
    store_keeps Silent.storing tv.2 tv.1
  exact (Keeps.forM Silent.storing.toMild hstore (targets.zip values)).imp Silent.shows

section
variable {p : Program} {s : Settings} {line : Line} {here : Position}

theorem execute_shows (st : Statement) : Keeps Shows (execute p s line here st) := by
  have hS := Shows.mild
  have hnext {x : Execution Unit} (hx : Keeps Shows x) :
      Keeps Shows (do x; return Flow.next : Execution Flow) := .bind hS hx fun _ => .pure hS _
  cases st with
  | print items => exact hnext (print_shows s items)
  | input prompt targets => exact hnext (input_shows prompt targets)
  | read targets =>
    have hread (t : Target) : Keeps Silent (readInto t) :=
      readInto_keeps Silent.storing (fun _ _ => ⟨rfl, rfl⟩) t
    exact hnext ((Keeps.forM Silent.storing.toMild hread targets).imp Silent.shows)
  | restore => exact hnext (.modify fun _ => Silent.shows ⟨rfl, rfl⟩)
  | _ =>
    -- What neither writes nor asks keeps the console and the column as they are.
    exact (execute_keeps_internal Silent.storing (fun _ _ => ⟨rfl, rfl⟩) (fun _ _ => ⟨rfl, rfl⟩)
      rfl).imp Silent.shows

theorem step_shows (p : Program) (s : Settings) (m : Machine) : Shows m (m.step p s).machine :=
  step_keeps Shows.mild (fun _ _ => Silent.shows ⟨rfl, rfl⟩) (fun _ _ => Silent.shows ⟨rfl, rfl⟩)
    fun _ st _ => execute_shows st

/-! ## Sessions -/

/-- What has happened on the console from `m` to `m'`. -/
def newEvents (m m' : Machine) : List Event :=
  m'.console.log.take (m'.console.log.length - m.console.log.length)

theorem newEvents_of_append {m m' : Machine} {events : List Event}
    (h : m'.console.log = events ++ m.console.log) : newEvents m m' = events := by
  simp [newEvents, h]

theorem Shows.log {m m' : Machine} (h : Shows m m') (hwrites : m.console.writesLeft = none) :
    m'.console.log = newEvents m m' ++ m.console.log := by
  obtain ⟨-, events, hlog, -⟩ := h hwrites
  rw [newEvents_of_append hlog, hlog]

theorem Shows.column {m m' : Machine} {events : List Event} (h : Shows m m')
    (hwrites : m.console.writesLeft = none) (hm : m.column = lastLineLength (transcript events)) :
    m'.column = lastLineLength (transcript (newEvents m m' ++ events)) := by
  obtain ⟨-, new, hlog, hcolumn⟩ := h hwrites
  rw [newEvents_of_append hlog, transcript_append]
  exact hcolumn _ hm

/-- The machines that come about as `p` is run, and run again, on consoles whose writes succeed, each
with all that has happened on them so far, the latest first. -/
inductive Session (p : Program) (s : Settings) : List Event → Machine → Prop
  | start (random : Random) {console : Console} :
      console.writesLeft = none → Session p s [] (start p random console)
  | step {events : List Event} {m : Machine} : Session p s events m →
      Session p s (newEvents m (m.step p s).machine ++ events) (m.step p s).machine
  | restart {events : List Event} {m : Machine} :
      Session p s events m → Session p s events (m.restart p)
  | console {events : List Event} {m : Machine} {console : Console} : console.writesLeft = none →
      Session p s events m → Session p s events { m with console }

theorem Session.writesLeft {events : List Event} {m : Machine} (h : Session p s events m) :
    m.console.writesLeft = none := by
  induction h with
  | start _ hconsole => exact hconsole
  | step _ ih => exact (step_shows p s _ ih).1
  | restart _ ih => exact ih
  | console hconsole _ _ => exact hconsole

theorem Session.column {events : List Event} {m : Machine} (h : Session p s events m) :
    m.column = lastLineLength (transcript events) := by
  induction h with
  | start => rfl
  | step h ih => exact (step_shows p s _).column h.writesLeft ih
  | restart _ ih => exact ih
  | console _ _ ih => exact ih

end

/-! ## Tab stops -/

/-- `stop` is the first multiple of `tab` behind `column`. -/
structure NextTabStop (tab column stop : Nat) : Prop where
  behind : column < stop
  multiple : tab ∣ stop
  least : ∀ n, column < n → tab ∣ n → stop ≤ n

theorem nextTabStop {tab : Nat} (htab : 0 < tab) (column : Nat) :
    NextTabStop tab column (column + (tab - column % tab)) := by
  have hlt : column % tab < tab := Nat.mod_lt column htab
  have hcolumn : tab * (column / tab) + column % tab = column := Nat.div_add_mod column tab
  have hstop : column + (tab - column % tab) = tab * (column / tab + 1) := by
    rw [Nat.mul_succ]
    omega
  refine ⟨by omega, ⟨_, hstop⟩, fun n hn hdvd => ?_⟩
  obtain ⟨k, rfl⟩ := hdvd
  have hk : column / tab < k := (Nat.div_lt_iff_lt_mul htab).mpr (by rwa [Nat.mul_comm])
  rw [hstop]
  exact Nat.mul_le_mul_left tab hk

theorem columnAfter_blanks (column k : Nat) :
    columnAfter column (String.ofList (List.replicate k ' ')) = column + k := by
  unfold columnAfter
  rw [String.toList_ofList]
  induction k generalizing column with
  | zero => rfl
  | succ k ih =>
    rw [List.replicate_succ, List.foldl_cons, if_neg (by decide), ih]
    omega

/-- A comma writes at least one blank and comes to the next tab stop. -/
theorem printItem_comma (s : Settings) {m : Machine} (hwrites : m.console.writesLeft = none) :
    ∃ k m', printItem s .comma m = .ok () m' ∧ 1 ≤ k ∧ k ≤ max 1 s.tabWidth ∧
      m'.console.log = .wrote (String.ofList (List.replicate k ' ')) :: m.console.log ∧
      NextTabStop (max 1 s.tabWidth) m.column m'.column := by
  have htab : 0 < max 1 s.tabWidth := by omega
  have hlt := Nat.mod_lt m.column htab
  refine ⟨max 1 s.tabWidth - m.column % max 1 s.tabWidth, _, write_ok hwrites _, by omega, by omega,
    rfl, ?_⟩
  show NextTabStop _ _ (columnAfter m.column (padding s.tabWidth m.column))
  rw [padding, columnAfter_blanks]
  exact nextTabStop htab m.column

/-- **The column is the screen's.** At any time in a session the column is the number of characters
behind the last line end of all that was written, where each line read ends a line as well; and
nothing that happens on the console is lost. In the midst of a PRINT this is so too, and its next
comma writes some blanks, at least one and no more than a tab's width, up to the next tab stop. -/
theorem Session.column_eq {p : Program} {s : Settings} {events : List Event} {m : Machine}
    (h : Session p s events m) :
    m.column = lastLineLength (transcript events) ∧
      (m.step p s).machine.console.log =
        newEvents m (m.step p s).machine ++ m.console.log ∧
      ∀ line before after m₁, m.pending? p = some (line, .print (before ++ .comma :: after)) →
        before.forM (printItem s) (m.begun p) = .ok () m₁ →
        m₁.column = lastLineLength (transcript (newEvents m m₁ ++ events)) ∧
        ∃ k m₂, printItem s .comma m₁ = .ok () m₂ ∧ 1 ≤ k ∧ k ≤ max 1 s.tabWidth ∧
          m₂.console.log = .wrote (String.ofList (List.replicate k ' ')) :: m₁.console.log ∧
          NextTabStop (max 1 s.tabWidth) m₁.column m₂.column := by
  refine ⟨h.column, (step_shows p s m).log h.writesLeft, fun _ before _ m₁ _ hbefore => ?_⟩
  have hbegun : Shows m (m.begun p) := Silent.shows ⟨rfl, rfl⟩
  have hshows : Shows m m₁ :=
    Shows.mild.trans hbegun ((Keeps.forM Shows.mild (printItem_shows s) before).ok hbefore)
  exact ⟨hshows.column h.writesLeft h.column, printItem_comma s (hshows h.writesLeft).1⟩

/-- A question, and a text with a comma behind it. -/
def askThenTab : Program :=
  ⟨[⟨10, 1, "INPUT A$:PRINT A$,",
    [.input none [.scalar "A$"], .print [.expr ⟨"A$", .var "A$"⟩, .comma]]⟩]⟩

/-- The machine once the question is answered. -/
def askThenTabAsked : Machine :=
  ((start askThenTab (.ofSeed 0) { input := ["HI"] }).step askThenTab {}).machine

/-- The reply has ended its line, so the text that is printed has no prompt before it, and the comma
behind its two characters leads to the tenth column. -/
theorem column_eq_askThenTab :
    Session askThenTab {} [.read "HI", .wrote "? "] askThenTabAsked ∧
      askThenTabAsked.column = lastLineLength (transcript [.read "HI", .wrote "? "]) ∧
      ∃ m₁ m₂, printItem {} (.expr ⟨"A$", .var "A$"⟩) (askThenTabAsked.begun askThenTab) = .ok () m₁ ∧
        m₁.column = 2 ∧ printItem {} .comma m₁ = .ok () m₂ ∧ NextTabStop 10 2 m₂.column := by
  have hstart : Session askThenTab {} [] (start askThenTab (.ofSeed 0) { input := ["HI"] }) :=
    .start (.ofSeed 0) rfl
  have hsession : Session askThenTab {} [.read "HI", .wrote "? "] askThenTabAsked := hstart.step
  obtain ⟨hcolumn, -, hcomma⟩ := hsession.column_eq
  have hbefore : ∃ m₁, printItem {} (.expr ⟨"A$", .var "A$"⟩) (askThenTabAsked.begun askThenTab) =
      .ok () m₁ ∧ m₁.column = 2 := ⟨_, rfl, rfl⟩
  obtain ⟨m₁, hbefore, htwo⟩ := hbefore
  obtain ⟨-, k, m₂, hm₂, -, -, -, hstop⟩ :=
    hcomma _ [.expr ⟨"A$", .var "A$"⟩] [] m₁ rfl (by simpa using hbefore)
  exact ⟨hsession, hcolumn, m₁, m₂, hbefore, htwo, hm₂, htwo ▸ hstop⟩

end Machine

end ClassicBasic
