import ClassicBasic.Proofs.Machine.Screen
import ClassicBasic.Proofs.Machine.Termination
import ClassicBasic.Proofs.Pattern

/-!
# Replies to INPUT

INPUT asks until a reply fits its targets. `input_first_fit` says what comes of it on a console that
works: the lines up to the first one that fits are read, with a question before each and a request
to start again behind each but the last, and nothing is stored until then. The values of the reply
are stored in turn after that (`StoresInTurn`). If no line fits, all of them are read, and then the
input is closed.

What is said and read is a list of events, and `Talked events` relates the machines before and after
it. The rounds of INPUT are those of `Repeats`, so the induction is on the lines that are refused.
What a reply must look like to fit is said by `Fits`, in terms of its pieces.
-/

namespace ClassicBasic

/-! ## Consoles that work -/

/-- No write and no read fails. -/
structure Console.Works (c : Console) : Prop where
  writes : c.writesLeft = none
  reads : c.readsLeft = none

/-- The line that an event took from the input. -/
def Event.line? : Event → Option String
  | .wrote _ => none
  | .read line => some line

namespace Machine

/-- From `m` to `m'` the console worked and these events happened, the earliest first. Nothing but
the console and the column has changed. -/
structure Talked (events : List Event) (m m' : Machine) : Prop where
  works : m'.console.Works
  input : m.console.input = events.filterMap Event.line? ++ m'.console.input
  log : m'.console.log = events.reverse ++ m.console.log
  unchanged : m' = { m with console := m'.console, column := m'.column }

section
variable {events later : List Event} {line : String} {m m₁ m' : Machine}

theorem Talked.trans (h : Talked events m m₁) (h' : Talked later m₁ m') :
    Talked (events ++ later) m m' where
  works := h'.works
  input := by rw [h.input, h'.input, List.filterMap_append, List.append_assoc]
  log := by rw [h'.log, h.log, List.reverse_append, List.append_assoc]
  unchanged := by rw [h'.unchanged, h.unchanged]

theorem Talked.output (h : Talked events m m') :
    m'.console.output = m.console.output ++ String.join (events.map Console.textOf) := by
  rw [Console.output, Console.output, h.log, List.reverse_append, List.reverse_reverse,
    List.map_append, String.join_append]

theorem write_talked (hworks : m.console.Works) (s : String) :
    ∃ m', write s m = .ok () m' ∧ Talked [.wrote s] m m' :=
  ⟨_, write_ok hworks.writes s, ⟨hworks.writes, hworks.reads⟩, rfl, rfl, rfl⟩

theorem readLine_talked (hworks : m.console.Works) {rest : List String}
    (hinput : m.console.input = line :: rest) :
    ∃ m', readLine m = .ok line m' ∧ Talked [.read line] m m' := by
  have hread : m.console.read? = some (some line,
      { m.console with input := rest, log := .read line :: m.console.log }) := by
    simp [Console.read?, Console.use?, hworks.reads, hinput]
  rw [readLine_eq, hread]
  exact ⟨_, rfl, ⟨hworks.writes, hworks.reads⟩, hinput, rfl, rfl⟩

theorem readLine_closed (hworks : m.console.Works) (hinput : m.console.input = []) :
    ∃ m', readLine m = .error .inputClosed m' ∧ Talked [] m m' := by
  have hread : m.console.read? = some (none, { m.console with readsLeft := none }) := by
    simp [Console.read?, Console.use?, hworks.reads, hinput]
  rw [readLine_eq, hread]
  exact ⟨_, rfl, ⟨hworks.writes, rfl⟩, rfl, rfl, rfl⟩

end

/-! ## Rounds -/

/-- The events while a question is asked and each of the lines `refused` is given in reply, up to
the question that is asked for another one. -/
def exchange (prompt : String) (refused : List String) : List Event :=
  refused.flatMap (fun line =>
    [.wrote (prompt ++ "? "), .read line, .wrote "?REDO FROM START\n"]) ++ [.wrote (prompt ++ "? ")]

/-- What is written meanwhile. -/
def questions (prompt : String) (refusals : Nat) : String :=
  String.join (List.replicate refusals (prompt ++ "? " ++ "?REDO FROM START\n")) ++ (prompt ++ "? ")

section
variable (prompt : String) {targets : List Target} {refused rest : List String} {line : String}
  {values : List Value} {m m' : Machine}

theorem exchange_cons (line : String) (refused : List String) :
    exchange prompt (line :: refused) =
      [.wrote (prompt ++ "? "), .read line, .wrote "?REDO FROM START\n"] ++
        exchange prompt refused := by
  rw [exchange, List.flatMap_cons, List.append_assoc, ← exchange]

theorem lines_exchange (refused : List String) :
    (exchange prompt refused).filterMap Event.line? = refused := by
  induction refused with
  | nil => rfl
  | cons line refused ih =>
    rw [exchange_cons, List.filterMap_append, ih]
    rfl

theorem join_exchange (refused : List String) :
    String.join ((exchange prompt refused).map Console.textOf) = questions prompt refused.length := by
  induction refused with
  | nil => simp [exchange, questions, Console.textOf]
  | cons line refused ih =>
    rw [exchange_cons, List.map_append, String.join_append, ih, questions, questions,
      List.length_cons, List.replicate_succ, String.join_cons, String.append_assoc]
    simp [Console.textOf, String.append_assoc]

/-- A round that a fitting reply ends. -/
theorem askOnce_fit (hworks : m.console.Works) (hinput : m.console.input = line :: rest)
    (hreply : reply? targets line = some values) :
    ∃ m', askOnce prompt targets m = .ok (some values) m' ∧
      Talked [.wrote (prompt ++ "? "), .read line] m m' := by
  obtain ⟨m₁, hwrite, hasked⟩ := write_talked hworks (prompt ++ "? ")
  obtain ⟨m₂, hread, hanswered⟩ := readLine_talked hasked.works (hasked.input.symm.trans hinput)
  refine ⟨m₂, ?_, hasked.trans hanswered⟩
  rw [askOnce, bind_of_ok hwrite, bind_of_ok hread, hreply]
  rfl

/-- A round after which the question is asked again. -/
theorem askOnce_refused (hworks : m.console.Works) (hinput : m.console.input = line :: rest)
    (hreply : reply? targets line = none) :
    ∃ m', askOnce prompt targets m = .ok none m' ∧
      Talked [.wrote (prompt ++ "? "), .read line, .wrote "?REDO FROM START\n"] m m' := by
  obtain ⟨m₁, hwrite, hasked⟩ := write_talked hworks (prompt ++ "? ")
  obtain ⟨m₂, hread, hanswered⟩ := readLine_talked hasked.works (hasked.input.symm.trans hinput)
  obtain ⟨m₃, hredo, hagain⟩ := write_talked hanswered.works "?REDO FROM START\n"
  refine ⟨m₃, ?_, hasked.trans (hanswered.trans hagain)⟩
  rw [askOnce, bind_of_ok hwrite, bind_of_ok hread, hreply]
  exact bind_of_ok hredo

/-- A round for which no line is left. -/
theorem askOnce_closed (hworks : m.console.Works) (hinput : m.console.input = []) :
    ∃ m', askOnce prompt targets m = .error .inputClosed m' ∧
      Talked [.wrote (prompt ++ "? ")] m m' := by
  obtain ⟨m₁, hwrite, hasked⟩ := write_talked hworks (prompt ++ "? ")
  obtain ⟨m₂, hread, hclosed⟩ := readLine_closed hasked.works (hasked.input.symm.trans hinput)
  refine ⟨m₂, ?_, hasked.trans hclosed⟩
  rw [askOnce, bind_of_ok hwrite, bind_of_error hread]

/-- The rounds up to the first line that fits. -/
theorem repeats_fit (hworks : m.console.Works) (hinput : m.console.input = refused ++ line :: rest)
    (hrefused : ∀ l ∈ refused, reply? targets l = none) (hreply : reply? targets line = some values) :
    ∃ m', Repeats (askOnce prompt targets) m (.ok values m') ∧
      Talked (exchange prompt refused ++ [.read line]) m m' := by
  induction refused generalizing m with
  | nil =>
    obtain ⟨m', hround, htalked⟩ := askOnce_fit prompt hworks hinput hreply
    exact ⟨m', .done hround, htalked⟩
  | cons l refused ih =>
    obtain ⟨hl, hrefused⟩ := List.forall_mem_cons.mp hrefused
    obtain ⟨m₁, hround, htalked⟩ := askOnce_refused prompt hworks hinput hl
    have hinput₁ : m₁.console.input = refused ++ line :: rest :=
      (List.cons.inj (htalked.input.symm.trans hinput)).2
    obtain ⟨m', hrounds, hlater⟩ := ih htalked.works hinput₁ hrefused
    refine ⟨m', .again hround hrounds, ?_⟩
    rw [exchange_cons, List.append_assoc]
    exact htalked.trans hlater

/-- The rounds when no line fits. -/
theorem repeats_closed (hworks : m.console.Works)
    (hrefused : ∀ l ∈ m.console.input, reply? targets l = none) :
    ∃ m', Repeats (askOnce prompt targets) m (.error .inputClosed m') ∧
      Talked (exchange prompt m.console.input) m m' := by
  induction hinput : m.console.input generalizing m with
  | nil =>
    obtain ⟨m', hround, htalked⟩ := askOnce_closed prompt hworks hinput
    exact ⟨m', .failed hround, htalked⟩
  | cons l rest ih =>
    rw [hinput] at hrefused
    obtain ⟨hl, hrest⟩ := List.forall_mem_cons.mp hrefused
    obtain ⟨m₁, hround, htalked⟩ := askOnce_refused prompt hworks hinput hl
    have hinput₁ : m₁.console.input = rest :=
      (List.cons.inj (htalked.input.symm.trans hinput)).2
    obtain ⟨m', hrounds, hlater⟩ := ih htalked.works (hinput₁ ▸ hrest) hinput₁
    refine ⟨m', .again hround hrounds, ?_⟩
    rw [exchange_cons]
    exact htalked.trans hlater

end

/-! ## Storing the values -/

/-- The values are stored in their targets from left to right, which ends with the last of them or
at the first element that refuses its value. -/
inductive StoresInTurn : List (Target × Value) → Machine → Option RuntimeError → Machine → Prop
  | done {m : Machine} : StoresInTurn [] m none m
  | stored {t v later m m₁ fault m'} : store v t m = .ok () m₁ → StoresInTurn later m₁ fault m' →
      StoresInTurn ((t, v) :: later) m fault m'
  | refused {a v later m e m'} : storeElement a v m = .error e m' →
      StoresInTurn ((.element a, v) :: later) m (some e) m'

/-- How a statement ends that goes on to the next one unless there is a fault. -/
def nextUnless : Option RuntimeError → Machine → EStateM.Result RuntimeError Machine Flow
  | none, m => .ok .next m
  | some e, m => .error e m

theorem StoresInTurn.silent {pairs : List (Target × Value)} {fault : Option RuntimeError}
    {m m' : Machine} (h : StoresInTurn pairs m fault m') : Silent m m' := by
  have hS := Silent.storing
  induction h with
  | done => exact hS.refl _
  | stored hstore _ ih => exact hS.trans ((store_keeps hS _ _).ok hstore) ih
  | refused hstore => exact (storeElement_keeps hS _ _).error hstore

theorem exists_storesInTurn (pairs : List (Target × Value)) (m : Machine) :
    ∃ fault m', StoresInTurn pairs m fault m' ∧
      (do pairs.forM fun (t, v) => store v t; return Flow.next : Execution Flow) m =
        nextUnless fault m' := by
  induction pairs generalizing m with
  | nil => exact ⟨none, m, .done, rfl⟩
  | cons tv later ih =>
    obtain ⟨t, v⟩ := tv
    cases hstore : store v t m with
    | ok u m₁ =>
      obtain ⟨fault, m', hlater, hrun⟩ := ih m₁
      refine ⟨fault, m', .stored hstore hlater, ?_⟩
      rw [List.forM_eq_forM, List.forM_cons, bind_assoc]
      exact (bind_of_ok hstore).trans hrun
    | error e m' =>
      cases t with
      | scalar name => cases hstore
      | element a =>
        refine ⟨some e, m', .refused hstore, ?_⟩
        rw [List.forM_eq_forM, List.forM_cons, bind_assoc]
        exact bind_of_error hstore

/-! ## Replies that fit -/

/-- What a piece of a reply says: it counts without the blanks around it, and without the quotes if
it stands between two of them. -/
inductive Says (piece : List Char) : List Char → Prop
  | quoted {body : List Char} : Text.trim piece = '"' :: body ++ ['"'] → Says piece body
  | bare : (∀ body, Text.trim piece ≠ '"' :: body ++ ['"']) → Says piece (Text.trim piece)

/-- The value of a text for a target of this name: the text itself, or the number it reads as, if it
does. -/
inductive ReadsAs (name : String) (cs : List Char) : Value → Prop
  | text : isTextName name = true → ReadsAs name cs (.text (String.ofList cs))
  | number {x : Float} : isTextName name = false → Numeral.number? (Text.trim cs) = some x →
      ReadsAs name cs (.number x)

/-- The reply has a piece for each target, and each piece gives its target a value. -/
structure Fits (targets : List Target) (line : String) (values : List Value) : Prop where
  count : (Text.splitOutsideQuotes ',' line.toList).length = targets.length
  pieces : List.Forall₂ (fun tp v => ∃ cs, Says tp.2 cs ∧ ReadsAs tp.1.name cs v)
    (targets.zip (Text.splitOutsideQuotes ',' line.toList)) values

theorem unquote?_eq_some {cs body : List Char} :
    Clause.unquote? cs = some body ↔ cs = '"' :: body ++ ['"'] := by
  unfold Clause.unquote?
  split
  · rename_i rest
    rw [Option.ite_none_right_eq_some, List.getLast?_eq_some_iff]
    constructor
    · rintro ⟨⟨init, rfl⟩, hbody⟩
      rw [List.dropLast_concat] at hbody
      rw [Option.some.inj hbody]
      rfl
    · intro h
      obtain rfl : rest = body ++ ['"'] := (List.cons.inj h).2
      exact ⟨⟨body, rfl⟩, by rw [List.dropLast_concat]⟩
  · rename_i hnot
    constructor
    · nofun
    · rintro rfl
      exact absurd rfl (hnot _)

theorem says_iff {piece cs : List Char} : Says piece cs ↔ (replyPiece piece).toList = cs := by
  rw [replyPiece, String.toList_ofList]
  cases hunquote : Clause.unquote? (Text.trim piece) with
  | some body =>
    rw [Option.getD_some]
    constructor
    · rintro (hquoted | hbare)
      · rw [← unquote?_eq_some, hunquote] at hquoted
        exact Option.some.inj hquoted
      · exact absurd (unquote?_eq_some.mp hunquote) (hbare body)
    · rintro rfl
      exact .quoted (unquote?_eq_some.mp hunquote)
  | none =>
    rw [Option.getD_none]
    have hbare : ∀ body, Text.trim piece ≠ '"' :: body ++ ['"'] := by
      intro body hbody
      rw [← unquote?_eq_some, hunquote] at hbody
      cases hbody
    constructor
    · rintro (hquoted | _)
      · exact absurd hquoted (hbare cs)
      · rfl
    · rintro rfl
      exact .bare hbare

theorem readsAs_iff {name : String} {cs : List Char} {v : Value} :
    ReadsAs name cs v ↔ convertFor name (.text (String.ofList cs)) = .ok v := by
  rw [convertFor, String.toList_ofList]
  cases hname : isTextName name with
  | true =>
    rw [if_pos rfl]
    constructor
    · rintro (_ | ⟨hnumber, -⟩)
      · rfl
      · rw [hname] at hnumber
        cases hnumber
    · rintro ⟨⟩
      exact .text hname
  | false =>
    rw [if_neg Bool.false_ne_true]
    constructor
    · rintro (htext | ⟨-, hx⟩)
      · rw [hname] at htext
        cases htext
      · rw [hx]
    · intro h
      cases hx : Numeral.number? (Text.trim cs) with
      | some x =>
        rw [hx] at h
        cases h
        exact .number hname hx
      | none =>
        rw [hx] at h
        cases h

theorem fits_iff {targets : List Target} {line : String} {values : List Value} :
    Fits targets line values ↔ reply? targets line = some values := by
  have hpiece (tp : Target × List Char) (v : Value) :
      (∃ cs, Says tp.2 cs ∧ ReadsAs tp.1.name cs v) ↔
        (convertFor tp.1.name (.text (replyPiece tp.2))).toOption = some v := by
    simp only [says_iff, exists_eq_left', readsAs_iff, String.ofList_toList, toOption_eq_some]
  rw [reply?, Option.ite_none_right_eq_some, beq_iff_eq, mapM_eq_some]
  constructor
  · rintro ⟨hcount, hpieces⟩
    exact ⟨hcount, hpieces.imp fun tp v => (hpiece tp v).mp⟩
  · rintro ⟨hcount, hpieces⟩
    exact ⟨hcount, hpieces.imp fun tp v => (hpiece tp v).mpr⟩

/-! ## INPUT -/

section
variable (p : Program) (s : Settings) (line : Line) (here : Position) (prompt : Option String)
  {targets : List Target} {refused rest : List String} {reply : String} {values : List Value}
  {m : Machine}

theorem execute_input_fit (hworks : m.console.Works)
    (hinput : m.console.input = refused ++ reply :: rest)
    (hrefused : ∀ l ∈ refused, reply? targets l = none)
    (hreply : reply? targets reply = some values) :
    ∃ m₀ fault m', Talked (exchange (prompt.getD "") refused ++ [.read reply]) m m₀ ∧
      StoresInTurn (targets.zip values) m₀ fault m' ∧
      execute p s line here (.input prompt targets) m = nextUnless fault m' := by
  obtain ⟨m₀, hrounds, htalked⟩ :=
    repeats_fit (prompt.getD "") hworks hinput hrefused hreply
  obtain ⟨fault, m', hstores, hrun⟩ := exists_storesInTurn (targets.zip values) m₀
  refine ⟨m₀, fault, m', htalked, hstores, ?_⟩
  rw [execute, input, bind_assoc, get_bind, bind_assoc, bind_of_ok (repeats_iff.mp hrounds)]
  exact hrun

theorem execute_input_closed (hworks : m.console.Works)
    (hrefused : ∀ l ∈ m.console.input, reply? targets l = none) :
    ∃ m', Talked (exchange (prompt.getD "") m.console.input) m m' ∧
      execute p s line here (.input prompt targets) m = .error .inputClosed m' := by
  obtain ⟨m', hrounds, htalked⟩ := repeats_closed (prompt.getD "") hworks hrefused
  refine ⟨m', htalked, ?_⟩
  rw [execute, input, bind_assoc, get_bind, bind_assoc, bind_of_error (repeats_iff.mp hrounds)]

end

/-- **INPUT takes the first reply that fits.** On a console that works, let lines be left that do not
fit and then one that does. INPUT reads all of these and no more, asks before each of them, asks to
start again behind each that does not fit, and changes nothing else meanwhile; then it stores the
values of the last one in turn, up to the first element that refuses its value. If no line fits, it
reads all of them in this way, stores nothing, and fails since the input is closed. A reply fits
exactly if it has one piece for each target, and each piece for a target that does not take texts
reads as a number without the blanks and the quotes around it. -/
theorem input_first_fit (p : Program) (s : Settings) (line : Line) (here : Position) {m : Machine}
    (hworks : m.console.Works) (prompt : Option String) (targets : List Target) :
    (∀ refused reply rest values, m.console.input = refused ++ reply :: rest →
      (∀ l ∈ refused, reply? targets l = none) → reply? targets reply = some values →
      ∃ m₀ fault m', Talked (exchange (prompt.getD "") refused ++ [.read reply]) m m₀ ∧
        StoresInTurn (targets.zip values) m₀ fault m' ∧
        execute p s line here (.input prompt targets) m = nextUnless fault m' ∧
        m'.console.input = rest ∧
        m'.console.output = m.console.output ++ questions (prompt.getD "") refused.length) ∧
      ((∀ l ∈ m.console.input, reply? targets l = none) →
        ∃ m', Talked (exchange (prompt.getD "") m.console.input) m m' ∧
          execute p s line here (.input prompt targets) m = .error .inputClosed m' ∧
          m'.console.input = [] ∧
          m'.console.output =
            m.console.output ++ questions (prompt.getD "") m.console.input.length) ∧
      ∀ reply values, reply? targets reply = some values ↔ Fits targets reply values := by
  refine ⟨fun refused reply rest values hinput hrefused hreply => ?_, fun hrefused => ?_,
    fun reply values => fits_iff.symm⟩
  · obtain ⟨m₀, fault, m', htalked, hstores, hrun⟩ :=
      execute_input_fit p s line here prompt hworks hinput hrefused hreply
    have hlines := htalked.input
    rw [List.filterMap_append, lines_exchange, hinput, List.append_assoc] at hlines
    refine ⟨m₀, fault, m', htalked, hstores, hrun, ?_, ?_⟩
    · rw [hstores.silent.1]
      exact (List.cons.inj (List.append_cancel_left hlines)).2.symm
    · rw [hstores.silent.1, htalked.output, List.map_append, String.join_append, join_exchange]
      simp [Console.textOf]
  · obtain ⟨m', htalked, hrun⟩ := execute_input_closed p s line here prompt hworks hrefused
    have hlines := htalked.input
    rw [lines_exchange] at hlines
    refine ⟨m', htalked, hrun, List.self_eq_append_right.mp hlines, ?_⟩
    rw [htalked.output, join_exchange]

/-- A text, and an element of an array that there is not. -/
def pairTargets : List Target := [.scalar "A$", .element ⟨"B", []⟩]

/-- A machine with replies for them: a piece too few, no number, a text and a number, and one more. -/
def pairAsked : Machine :=
  start ⟨[]⟩ (.ofSeed 0) { input := ["1", "X,Y", " HI,\" 7 \"", "9"] }

/-- The third line is the first that fits. Its text is stored, its number is refused, and the last
line is not read. -/
theorem input_first_fit_pair :
    pairAsked.console.Works ∧ reply? pairTargets "1" = none ∧ reply? pairTargets "X,Y" = none ∧
      ∃ m', execute ⟨[]⟩ {} default default (.input (some "P") pairTargets) pairAsked =
          .error (.unknownArray "B") m' ∧
        m'.workspace.vars.get? "A$" = some (.text "HI") ∧ m'.console.input = ["9"] ∧
        m'.console.output = "P? ?REDO FROM START\nP? ?REDO FROM START\nP? " := by
  have hworks : pairAsked.console.Works := ⟨rfl, rfl⟩
  have hfits : ∃ values, reply? pairTargets " HI,\" 7 \"" = some values := ⟨_, rfl⟩
  obtain ⟨values, hvalues⟩ := hfits
  have hrefused : ∀ l ∈ ["1", "X,Y"], reply? pairTargets l = none :=
    List.forall_mem_cons.mpr ⟨rfl, List.forall_mem_singleton.mpr rfl⟩
  obtain ⟨_, fault, m', -, -, hrun, hinput, houtput⟩ :=
    (input_first_fit ⟨[]⟩ {} default default hworks (some "P") pairTargets).1 ["1", "X,Y"] _ ["9"]
      values rfl hrefused hvalues
  have hfault : ∃ m'', execute ⟨[]⟩ {} default default (.input (some "P") pairTargets) pairAsked =
      .error (.unknownArray "B") m'' ∧ m''.workspace.vars.get? "A$" = some (.text "HI") :=
    ⟨_, rfl, rfl⟩
  obtain ⟨m'', hfault, hstored⟩ := hfault
  cases fault with
  | none =>
    rw [hfault] at hrun
    cases hrun
  | some e =>
    obtain ⟨-, rfl⟩ := EStateM.Result.error.inj (hfault.symm.trans hrun)
    exact ⟨hworks, rfl, rfl, m'', hfault, hstored, hinput, houtput.trans (by decide +kernel)⟩

end Machine

end ClassicBasic
