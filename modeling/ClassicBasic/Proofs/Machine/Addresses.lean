import ClassicBasic.Proofs.Machine.Stepping

/-!
# The places that a run keeps

A machine keeps places of its program: where it stands, where its subroutines return to and where
its loops resume. `Addressed` says that they are places of the program: each stands in a block of
its own line, the places to return to behind a call and those to resume behind a FOR over the loop's
variable. Places come from the start of a line, the next statement, the branch of an IF and the two
stacks, and every step keeps them so (`Addressed.step`).
-/

namespace ClassicBasic

/-! ## Places of a program -/

/-- The blocks of a line: its statements, and the branches of all IFs in them. -/
inductive Line.HasBlock (line : Line) : Block → Prop
  | statements : HasBlock line line.block
  | branch {b b' : Block} {st : Statement} : HasBlock line b → st ∈ b → b' ∈ st.branches →
      HasBlock line b'

/-- The statement that a place stands behind; none at the start of a block. -/
def Position.behind? (q : Position) : Option Statement :=
  match q.index with
  | 0 => none
  | i + 1 => q.block[i]?

namespace Program

/-- `q` stands before or behind a statement of a block of its own line. -/
structure HasPlace (p : Program) (q : Position) : Prop where
  block : ∃ line, p.lines[q.line]? = some line ∧ line.HasBlock q.block
  index : q.index ≤ q.block.length

/-- `q` stands past the last line. -/
structure PastEnd (p : Program) (q : Position) : Prop where
  line : q.line = p.lines.length
  block : q.block = []
  index : q.index = 0

/-- `q` is where a subroutine of the program returns to. -/
structure IsReturn (p : Program) (q : Position) : Prop where
  place : p.HasPlace q
  call : ∃ st, q.behind? = some st ∧ st.isCall = true

/-- `l` is a loop of the program, which resumes behind its FOR. -/
structure IsLoop (p : Program) (l : Loop) : Prop where
  place : p.HasPlace l.resume
  begun : ∃ first limit step, l.resume.behind? = some (.forLoop l.var first limit step)

section
variable {p : Program} {here : Position} {st : Statement}

theorem hasPlace_lineStart {i : Nat} (h : i < p.lines.length) : p.HasPlace (p.lineStart i) := by
  have hline : p.lines[i]? = some p.lines[i] := List.getElem?_eq_getElem h
  refine ⟨⟨p.lines[i], hline, ?_⟩, Nat.zero_le _⟩
  simp only [lineStart, hline, Option.map_some, Option.getD_some]
  exact .statements

theorem lineStart_cases {i : Nat} (h : i ≤ p.lines.length) :
    p.HasPlace (p.lineStart i) ∨ p.PastEnd (p.lineStart i) := by
  rcases Nat.lt_or_eq_of_le h with h | rfl
  · exact .inl (hasPlace_lineStart h)
  · exact .inr ⟨rfl, by simp [lineStart], rfl⟩

theorem findLine?_lt {number i : Nat} (h : p.findLine? number = some i) : i < p.lines.length :=
  (List.findIdx?_eq_some_iff_getElem.mp h).1

theorem skipEmpty_le {i : Nat} (h : i ≤ p.lines.length) : p.skipEmpty i ≤ p.lines.length := by
  have hle : ((p.lines.drop i).takeWhile fun l => l.block.isEmpty).length ≤
      (p.lines.drop i).length :=
    (List.takeWhile_prefix _).length_le
  unfold skipEmpty
  rw [List.length_drop] at hle
  omega

/-- Moving on from a block that is done leads to the start of a line or past the last one. -/
theorem settle_cases {q : Position} (h : p.HasPlace q ∨ p.PastEnd q) :
    p.HasPlace (p.settle q) ∨ p.PastEnd (p.settle q) := by
  unfold settle
  split
  · exact h
  · exact lineStart_cases (skipEmpty_le (by omega))

theorem HasPlace.next (h : p.HasPlace here) (hst : here.block[here.index]? = some st) :
    p.HasPlace here.next ∧ here.next.behind? = some st :=
  ⟨⟨h.block, (List.getElem?_eq_some_iff.mp hst).1⟩, hst⟩

theorem HasPlace.enter (h : p.HasPlace here) (hst : here.block[here.index]? = some st) {b : Block}
    (hb : b ∈ st.branches) : p.HasPlace (here.enter b) := by
  obtain ⟨line, hline, hblock⟩ := h.block
  exact ⟨⟨line, hline, hblock.branch (List.mem_of_getElem? hst) hb⟩, Nat.zero_le _⟩

end

end Program

/-! ## What a step keeps -/

namespace Machine

/-- All places that a machine keeps are places of the program. -/
structure Addressed (p : Program) (m : Machine) : Prop where
  position : p.HasPlace m.position ∨ p.PastEnd m.position
  returns : ∀ q ∈ m.returns, p.IsReturn q
  loops : ∀ l ∈ m.loops, p.IsLoop l

section
variable {p : Program} {s : Settings} {m m' : Machine} {line : Line} {here : Position}
  {st : Statement} {flow : Flow}

theorem start_addressed (random : Random) (console : Console) :
    (start p random console).Addressed p where
  position := Program.lineStart_cases (Nat.zero_le _)
  returns q h := by simp [start] at h
  loops l h := by simp [start] at h

/-- Where there is a statement to execute there is a line, whose block it stands in. -/
theorem Addressed.hasPlace (h : m.Addressed p)
    (hst : (p.settle m.position).block[(p.settle m.position).index]? = some st) :
    p.HasPlace (p.settle m.position) := by
  obtain hplace | hend := Program.settle_cases h.position
  · exact hplace
  · rw [hend.block] at hst
    simp at hst

theorem outsideLoop_suffix (var : String) (loops : List Loop) :
    outsideLoop var loops <:+ loops := by
  unfold outsideLoop
  split
  · exact List.suffix_rfl
  · rename_i l outer hloops
    exact (List.suffix_cons l outer).trans (hloops ▸ List.dropWhile_suffix _)

namespace Effect

theorem isReturn (h : Effect p line here st m flow m') (hhere : p.HasPlace here)
    (hst : here.block[here.index]? = some st) (hm : ∀ q ∈ m.returns, p.IsReturn q) :
    ∀ q ∈ m'.returns, p.IsReturn q := by
  obtain hsame | ⟨hcall, hpush⟩ | ⟨target, hpop⟩ := h.returns
  · rw [hsame]
    exact hm
  · rw [hpush]
    obtain ⟨hnext, hbehind⟩ := hhere.next hst
    exact List.forall_mem_cons.mpr ⟨⟨hnext, st, hbehind, hcall⟩, hm⟩
  · rw [hpop] at hm
    exact (List.forall_mem_cons.mp hm).2

theorem isLoop (h : Effect p line here st m flow m') (hhere : p.HasPlace here)
    (hst : here.block[here.index]? = some st) (hm : ∀ l ∈ m.loops, p.IsLoop l) :
    ∀ l ∈ m'.loops, p.IsLoop l := by
  obtain hsuffix | ⟨l, first, limit, step, rfl, hresume, hpush⟩ := h.loops
  · exact fun l hl => hm l (hsuffix.subset hl)
  · rw [hpush]
    obtain ⟨hnext, hbehind⟩ := hhere.next hst
    rw [← hresume] at hnext hbehind
    refine List.forall_mem_cons.mpr ⟨⟨hnext, first, limit, step, hbehind⟩, fun l hl => ?_⟩
    exact hm l ((outsideLoop_suffix _ _).subset hl)

/-- A run goes on at a place of the program: behind the statement, at the start of a line or branch,
or where one of the stacks has it. -/
theorem target_hasPlace (h : Effect p line here st m flow m') (hhere : p.HasPlace here)
    (hst : here.block[here.index]? = some st) (hreturns : ∀ q ∈ m.returns, p.IsReturn q)
    (hloops : ∀ l ∈ m.loops, p.IsLoop l) : p.HasPlace (flow.target here) := by
  cases h with
  | pass _ _ | beginLoop _ _ _ | endLoops _ => exact (hhere.next hst).1
  | goto _ _ hi | call _ _ hi => exact Program.hasPlace_lineStart (Program.findLine?_lt hi)
  | enter _ _ hb => exact hhere.enter hst hb
  | finish | stop => exact hhere
  | repeatLoop hm hl => exact (hloops _ (hm.loops.subset (hl ▸ List.mem_cons_self))).place
  | returnFrom hm => exact (hreturns _ (hm ▸ List.mem_cons_self)).place

end Effect

/-- **A step keeps all places of the program.** -/
theorem Addressed.step (s : Settings) (h : m.Addressed p) : (m.step p s).machine.Addressed p := by
  obtain ⟨-, hm⟩ | ⟨line, st, hnext, ⟨flow, m', heffect, hm⟩ | hm⟩ := step_machine p s m
  · rw [hm]
    exact ⟨Program.settle_cases h.position, h.returns, h.loops⟩
  · have hst := (pending?_eq_some.mp hnext).2
    have hhere := h.hasPlace hst
    rw [hm]
    exact ⟨.inl (heffect.target_hasPlace hhere hst h.returns h.loops),
      heffect.isReturn hhere hst h.returns, heffect.isLoop hhere hst h.loops⟩
  · refine ⟨?_, ?_, ?_⟩
    · rw [hm.position]
      exact Program.settle_cases h.position
    · rw [hm.returns]
      exact h.returns
    · exact fun l hl => h.loops l (hm.loops.subset hl)

theorem Reachable.addressed (h : Reachable p s m) : m.Addressed p := by
  induction h with
  | start random console => exact start_addressed random console
  | step _ ih => exact ih.step s
  | restart _ ih => exact ⟨Program.lineStart_cases (Nat.zero_le _), ih.returns, ih.loops⟩
  | console _ _ ih => exact ⟨ih.position, ih.returns, ih.loops⟩

/-- **The places that a run keeps are places of its program.** Hence every statement that is
executed stands in a block of a line that exists, which is the line that STOP and failures name. -/
theorem Reachable.places_valid (h : Reachable p s m) :
    m.Addressed p ∧
      (∀ st, (p.settle m.position).block[(p.settle m.position).index]? = some st →
        ∃ line, p.lines[(p.settle m.position).line]? = some line ∧
          line.HasBlock (p.settle m.position).block ∧
          (st = .stop → s.allows (m.steps + 1) = true →
            m.step p s = .ended (.finished (.stopped line.number)) (m.begun p))) ∧
      ∀ f m', m.step p s = .ended (.failed f) m' →
        ∃ line st, p.lines[(p.settle m.position).line]? = some line ∧
          line.HasBlock (p.settle m.position).block ∧
          (p.settle m.position).block[(p.settle m.position).index]? = some st ∧
          (do tick s; execute p s line (p.settle m.position) st : Execution Flow)
            { m with position := p.settle m.position } = .error f.cause m' ∧
          f.location = ⟨line.number, line.sourceLine⟩ ∧ f.text = line.text := by
  have haddr := h.addressed
  refine ⟨haddr, fun st hst => ?_, fun f m' hfail => ?_⟩
  · obtain ⟨line, hline, hblock⟩ := (haddr.hasPlace hst).block
    refine ⟨line, hline, hblock, ?_⟩
    rintro rfl hs
    exact step_allowed (pending?_eq_some.mpr ⟨hline, hst⟩) hs
  · obtain ⟨line, st, hnext, hcause, hlocation, htext⟩ := step_failed hfail
    obtain ⟨hline, hst⟩ := pending?_eq_some.mp hnext
    obtain ⟨line', hline', hblock⟩ := (haddr.hasPlace hst).block
    obtain rfl : line' = line := Option.some.inj (hline'.symm.trans hline)
    exact ⟨line', st, hline, hblock, hst, hcause, hlocation, htext⟩

end

/-- A loop that calls a subroutine from the branch of an IF. -/
def branchCall : Program :=
  let one : Expr := ⟨"1", .single (.number 1)⟩
  ⟨[⟨10, 1, "FOR I=1 TO 1:IF 1 THEN GOSUB 20", [.forLoop "I" one one one, .ifThen one [.gosub 20]]⟩,
    ⟨20, 2, "GOTO 30", [.goto 30]⟩]⟩

/-- The machine that has come to the subroutine. -/
def inBranchCall : Machine :=
  ((((start branchCall (.ofSeed 0) {}).step branchCall {}).machine.step branchCall {}).machine.step
    branchCall {}).machine

/-- Both stacks hold a place, that to return to in the branch, and the GOTO that fails in the
subroutine is blamed on its own line. -/
theorem places_valid_branchCall :
    Program.parse "10 FOR I=1 TO 1:IF 1 THEN GOSUB 20\n20 GOTO 30".toList = .ok branchCall ∧
      Reachable branchCall {} inBranchCall ∧ inBranchCall.loops.length = 1 ∧
      inBranchCall.returns = [⟨0, [.gosub 20], 1⟩] ∧ inBranchCall.Addressed branchCall ∧
      ∃ f, inBranchCall.step branchCall {} = .ended (.failed f) (inBranchCall.begun branchCall) ∧
        f.location = ⟨20, 2⟩ ∧ f.text = "GOTO 30" := by
  have hm : Reachable branchCall {} inBranchCall := .step (.step (.step (.start (.ofSeed 0) {})))
  have hnext : inBranchCall.pending? branchCall = some (⟨20, 2, "GOTO 30", [.goto 30]⟩, .goto 30) :=
    rfl
  have hgoto : ∀ line here m,
      execute branchCall {} line here (.goto 30) m = .error (.undefinedLine 30) m :=
    fun _ _ _ => rfl
  have hstep := step_allowed (s := {}) hnext rfl
  rw [hgoto] at hstep
  obtain ⟨haddr, -, hfailed⟩ := hm.places_valid
  obtain ⟨line, st, hline, -, -, -, hlocation, htext⟩ := hfailed _ _ hstep
  obtain rfl : ⟨20, 2, "GOTO 30", [.goto 30]⟩ = line := Option.some.inj hline
  exact ⟨rfl, hm, rfl, rfl, haddr, _, hstep, hlocation, htext⟩

end Machine

end ClassicBasic
