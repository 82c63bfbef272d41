import ClassicBasic.Proofs.Expr.BigStep
import ClassicBasic.Proofs.Grid
import ClassicBasic.Proofs.Machine.ArrayHistory
import ClassicBasic.Proofs.Workspace

/-!
# Elements of arrays are read back

An expression reads an array through the function of its name, with the values of the arguments; a
statement writes it through the table of arrays, with the coordinates that it computes from the
subscripts. `History.readBack` says that the two agree: what is read at some coordinates is what was
stored there last since the array was made, and it can be read where it can be stored.

The invariant is `Tracked`: every array holds what its history says. It is kept by each event
(`Tracked.apply`) and so by runs.
-/

namespace ClassicBasic

open ArrayEvent

/-! ## Arrays hold what was stored -/

/-- The arrays of `w` hold what was stored in them last, and the names by which arrays are read are
names of arrays. -/
structure Tracked (log : List ArrayEvent) (w : Workspace) : Prop where
  array : ∀ name, w.functions.get? name = some .array → ∃ g, w.arrays.get? name = some g
  kind : ∀ name g, w.arrays.get? name = some g → g.kind = Kind.ofName name
  wellFormed : ∀ name g, w.arrays.get? name = some g → g.WellFormed
  last : ∀ name g, w.arrays.get? name = some g → ∀ cs v, g.get cs = .ok v →
    v = (lastStored? name cs log).getD (Value.unset (Kind.ofName name))

namespace Tracked

variable {log es : List ArrayEvent} {w w' : Workspace} {e : ArrayEvent}

theorem builtins : Tracked [] ({} : Workspace).withBuiltins where
  array name h := by
    obtain ⟨b, hb, -⟩ | hold := Workspace.withBuiltins_get? h
    · cases hb
    · cases hold
  kind _ _ h := by cases h
  wellFormed _ _ h := by cases h
  last _ _ h := by cases h

theorem congr (h : Tracked log w) (hf : w'.functions = w.functions) (ha : w'.arrays = w.arrays) :
    Tracked log w' where
  array := by rw [hf, ha]; exact h.array
  kind := by rw [ha]; exact h.kind
  wellFormed := by rw [ha]; exact h.wellFormed
  last := by rw [ha]; exact h.last

theorem dimensioned {name : String} (h : Tracked log w)
    (he : Applies w w' (.dimensioned name)) : Tracked (.dimensioned name :: log) w' := by
  obtain ⟨sizes, g, hmake, hf, ha⟩ := he
  have hfind (name' : String) (g' : Grid) (hg' : w'.arrays.get? name' = some g') :
      name' = name ∧ g' = g ∨ name' ≠ name ∧ w.arrays.get? name' = some g' :=
    Table.get?_insert_some (ha ▸ hg')
  refine ⟨fun name' hname' => ?_, fun name' g' hg' => ?_, fun name' g' hg' => ?_,
    fun name' g' hg' cs v hv => ?_⟩
  · rw [ha, Table.get?_insert]
    rw [hf, Table.get?_insert] at hname'
    split
    · exact ⟨g, rfl⟩
    · rename_i hne
      rw [if_neg hne] at hname'
      exact h.array name' hname'
  · obtain ⟨rfl, rfl⟩ | ⟨-, hold⟩ := hfind name' g' hg'
    · rw [Grid.make_ok hmake]
    · exact h.kind name' g' hold
  · obtain ⟨rfl, rfl⟩ | ⟨-, hold⟩ := hfind name' g' hg'
    · exact Grid.make_wellFormed hmake
    · exact h.wellFormed name' g' hold
  · obtain ⟨rfl, rfl⟩ | ⟨hne, hold⟩ := hfind name' g' hg'
    · simp only [lastStored?, if_true, Option.getD_none]
      exact Grid.get_make hmake hv
    · simp only [lastStored?, if_neg hne.symm]
      exact h.last name' g' hold cs v hv

theorem defined {name : String} (h : Tracked log w) (he : Applies w w' (.defined name)) :
    Tracked (.defined name :: log) w' := by
  obtain ⟨params, body, hf, ha⟩ := he
  refine ⟨fun name' hname' => ?_, by rw [ha]; exact h.kind, by rw [ha]; exact h.wellFormed,
    by rw [ha]; exact h.last⟩
  rw [hf, Table.get?_insert] at hname'
  rw [ha]
  split at hname'
  · cases hname'
  · exact h.array name' hname'

theorem stored {name : String} {cs : List Nat} {v : Value} (h : Tracked log w)
    (he : Applies w w' (.stored name cs v)) : Tracked (.stored name cs v :: log) w' := by
  obtain ⟨g, g', hg, hset, hf, ha⟩ := he
  have hfind (name' : String) (g₁ : Grid) (hg₁ : w'.arrays.get? name' = some g₁) :
      name' = name ∧ g₁ = g' ∨ name' ≠ name ∧ w.arrays.get? name' = some g₁ :=
    Table.get?_insert_some (ha ▸ hg₁)
  obtain ⟨-, i, -, hg'⟩ := Grid.set_ok hset
  refine ⟨fun name' hname' => ?_, fun name' g₁ hg₁ => ?_, fun name' g₁ hg₁ => ?_,
    fun name' g₁ hg₁ cs' u hu => ?_⟩
  · rw [hf] at hname'
    obtain ⟨g₁, hg₁⟩ := h.array name' hname'
    rw [ha, Table.get?_insert]
    split
    · exact ⟨g', rfl⟩
    · exact ⟨g₁, hg₁⟩
  · obtain ⟨rfl, rfl⟩ | ⟨-, hold⟩ := hfind name' g₁ hg₁
    · rw [hg']
      exact h.kind name' g hg
    · exact h.kind name' g₁ hold
  · obtain ⟨rfl, rfl⟩ | ⟨-, hold⟩ := hfind name' g₁ hg₁
    · exact (h.wellFormed name' g hg).set hset
    · exact h.wellFormed name' g₁ hold
  · obtain ⟨rfl, rfl⟩ | ⟨hne, hold⟩ := hfind name' g₁ hg₁
    · by_cases hcs : cs = cs'
      · subst hcs
        rw [Grid.get_set_self (h.wellFormed name' g hg) hset] at hu
        cases hu
        simp [lastStored?]
      · rw [Grid.get_set_of_ne hset (Ne.symm hcs)] at hu
        simp only [lastStored?, hcs, and_false, if_false]
        exact h.last name' g hg cs' u hu
    · simp only [lastStored?, hne.symm, false_and, if_false]
      exact h.last name' g₁ hold cs' u hu

theorem apply (h : Tracked log w) (he : e.Applies w w') : Tracked (e :: log) w' := by
  cases e with
  | dimensioned name => exact h.dimensioned he
  | defined name => exact h.defined he
  | stored name cs v => exact h.stored he

theorem written (h : Tracked log w) (hw : Written w es w') : Tracked (es.reverse ++ log) w' := by
  induction hw generalizing log with
  | nil hf ha => exact h.congr hf ha
  | @cons _ _ _ e es he _ ih =>
    rw [List.reverse_cons, List.append_assoc]
    exact ih (h.apply he)

end Tracked

theorem Machine.History.tracked {p : Program} {s : Settings} {log : List ArrayEvent} {m : Machine}
    (h : History p s log m) : Tracked log m.workspace := by
  induction h with
  | start random console => exact .builtins
  | step _ ih => exact ih.written (step_writes p s _)
  | restart _ ih => exact ih
  | console _ _ ih => exact ih

/-! ## Events elsewhere -/

section
variable {name : String} {cs : List Nat} {w w' : Workspace}

/-- An event that replaces nothing at `cs` leaves the array there as it is. -/
theorem ArrayEvent.Applies.get_eq {e : ArrayEvent} (he : e.Applies w w')
    (hne : ¬ e.Replaces name cs) (hf : w.functions.get? name = some .array) {g : Grid}
    (hg : w.arrays.get? name = some g) :
    w'.functions.get? name = some .array ∧
      ∃ g', w'.arrays.get? name = some g' ∧ g'.get cs = g.get cs := by
  cases e with
  | dimensioned name' =>
    obtain ⟨sizes, g', -, hf', ha'⟩ := he
    have hname : name ≠ name' := Ne.symm hne
    rw [hf', ha', Table.get?_insert, Table.get?_insert, if_neg hname, if_neg hname]
    exact ⟨hf, g, hg, rfl⟩
  | defined name' =>
    obtain ⟨params, body, hf', ha'⟩ := he
    have hname : name ≠ name' := Ne.symm hne
    rw [hf', ha', Table.get?_insert, if_neg hname]
    exact ⟨hf, g, hg, rfl⟩
  | stored name' cs' v =>
    obtain ⟨g₁, g', hg₁, hset, hf', ha'⟩ := he
    rw [hf', ha', Table.get?_insert]
    refine ⟨hf, ?_⟩
    by_cases hname : name = name'
    · subst hname
      rw [hg] at hg₁
      cases hg₁
      have hcs : cs ≠ cs' := fun hcs => hne ⟨rfl, hcs.symm⟩
      exact ⟨g', if_pos rfl, Grid.get_set_of_ne hset hcs⟩
    · exact ⟨g, (if_neg hname).trans hg, rfl⟩

theorem Written.get_eq {es : List ArrayEvent} (h : Written w es w')
    (hne : ∀ e ∈ es, ¬ e.Replaces name cs) (hf : w.functions.get? name = some .array) {g : Grid}
    (hg : w.arrays.get? name = some g) :
    w'.functions.get? name = some .array ∧
      ∃ g', w'.arrays.get? name = some g' ∧ g'.get cs = g.get cs := by
  induction h generalizing g with
  | nil hf' ha' =>
    rw [hf', ha']
    exact ⟨hf, g, hg, rfl⟩
  | cons he _ ih =>
    obtain ⟨hnow, hlater⟩ := List.forall_mem_cons.mp hne
    obtain ⟨hf₁, g₁, hg₁, hget₁⟩ := he.get_eq hnow hf hg
    obtain ⟨hf', g', hg', hget'⟩ := ih hlater hf₁ hg₁
    exact ⟨hf', g', hg', hget'.trans hget₁⟩

end

/-! ## Reading -/

namespace Workspace

variable {w : Workspace} {name : String} {g : Grid}

/-- In all expressions, a call of `name` whose arguments have the values `args` gives `x`. -/
def ReadsAs (w : Workspace) (name : String) (args : Args) (x : Except CallError Value) : Prop :=
  ∀ room bound ts r r', Tree.evalAll w bound (w.applyWithin bound room) ts r = .ok args r' →
    w.evalWithin room bound (.call name ts) r =
      match x with
      | .ok v => .ok v r'
      | .error e => .error (.call name e) r'

theorem readsAs_array (hf : w.functions.get? name = some .array)
    (hg : w.arrays.get? name = some g) (args : Args) :
    w.ReadsAs name args (readElement g args) := by
  intro room bound ts r r' hts
  rw [evalWithin_applyWithin, Tree.evalWith]
  simp only [hf]
  rw [bind_of_ok hts, adaptExcept_inCall, applyWithin_array, hg]
  simp only
  cases readElement g args <;> rfl

theorem coordinatesFrom_eq_ok {position : Nat} {args : Args} {cs : List Nat} :
    coordinatesFrom position args = .ok cs ↔
      ∃ xs : List Float, args = xs.map .number ∧ xs.mapM Grid.coordinate = .ok cs := by
  induction args generalizing position cs with
  | nil =>
    rw [coordinatesFrom]
    constructor
    · intro h
      cases h
      exact ⟨[], rfl, rfl⟩
    · rintro ⟨xs, hxs, hcs⟩
      obtain rfl := List.map_eq_nil_iff.mp hxs.symm
      cases hcs
      rfl
  | cons v args ih =>
    cases v with
    | text t =>
      rw [coordinatesFrom]
      · refine ⟨nofun, ?_⟩
        rintro ⟨xs, hxs, -⟩
        cases xs <;> cases hxs
      · nofun
    | number x =>
      rw [coordinatesFrom]
      constructor
      · intro h
        cases hc : Grid.coordinate x with
        | error e =>
          rw [hc] at h
          cases h
        | ok c =>
          rw [hc] at h
          obtain ⟨cs', hcs', h⟩ := bind_eq_ok.mp h
          cases h
          obtain ⟨xs, rfl, hxs⟩ := ih.mp hcs'
          refine ⟨x :: xs, rfl, ?_⟩
          rw [List.mapM_cons, hc, hxs]
          rfl
      · rintro ⟨xs, hxs, hcs⟩
        cases xs with
        | nil => cases hxs
        | cons y ys =>
          cases hxs
          rw [List.mapM_cons] at hcs
          obtain ⟨c, hc, hcs⟩ := bind_eq_ok.mp hcs
          obtain ⟨cs', hcs', hcs⟩ := bind_eq_ok.mp hcs
          cases hcs
          rw [hc]
          exact bind_eq_ok.mpr ⟨cs', ih.mpr ⟨ys, rfl, hcs'⟩, rfl⟩

/-- Reading succeeds with numbers that are coordinates in the grid. -/
theorem readElement_eq_ok {args : Args} {v : Value} :
    readElement g args = .ok v ↔
      ∃ (xs : List Float) (cs : List Nat), args = xs.map .number ∧
        xs.mapM Grid.coordinate = .ok cs ∧ g.get cs = .ok v := by
  unfold readElement
  rw [bind_eq_ok]
  constructor
  · rintro ⟨cs, hcs, h⟩
    obtain ⟨xs, hxs, hmap⟩ := coordinatesFrom_eq_ok.mp hcs
    refine ⟨xs, cs, hxs, hmap, ?_⟩
    cases hget : g.get cs with
    | ok u =>
      rw [hget] at h
      cases h
      rfl
    | error e =>
      rw [hget] at h
      cases h
  · rintro ⟨xs, cs, hxs, hmap, hget⟩
    exact ⟨cs, coordinatesFrom_eq_ok.mpr ⟨xs, hxs, hmap⟩, by rw [hget]⟩

/-- What is read depends on the element only. -/
theorem readElement_congr {g' : Grid} {args : Args} {xs : List Float} {cs : List Nat}
    (hxs : args = xs.map .number) (hcs : xs.mapM Grid.coordinate = .ok cs)
    (h : g'.get cs = g.get cs) : readElement g' args = readElement g args := by
  have hcoordinates : coordinatesFrom 1 args = .ok cs :=
    coordinatesFrom_eq_ok.mpr ⟨xs, hxs, hcs⟩
  unfold readElement
  rw [hcoordinates]
  simp only [bind, Except.bind, h]

end Workspace

/-! ## Storing -/

namespace Machine

section
variable {p : Program} {s : Settings} {line : Line} {here : Position} {m m₁ m₂ : Machine}
  {a : Element} {v : Value} {st : Statement} {xs : List Float}

/-- Executing a statement in `m` comes to storing `v` in the element `a`, in the machine `m₁`. These
are the ways in which an element is stored. -/
inductive ComesToStoring (a : Element) (v : Value) (m : Machine) : Statement → Machine → Prop
  | letTo {e m₁} : value e m = .ok v m₁ → ComesToStoring a v m (.letTo (.element a) e) m₁
  | assign {e m₁} : value e m = .ok v m₁ → ComesToStoring a v m (.assignElement a e) m₁
  | read {constant data} : m.data.read? = some (constant, data) →
      convertFor a.name constant = .ok v → ComesToStoring a v m (.read [.element a]) { m with data }
  | input {prompt m₁} :
      ask (prompt.getD "") [.element a] (m.console.input.length + 1) m = .ok [v] m₁ →
      ComesToStoring a v m (.input prompt [.element a]) m₁

theorem ComesToStoring.workspace (h : ComesToStoring a v m st m₁) : m₁.workspace = m.workspace := by
  have hU := Untouched.quiet
  cases h with
  | letTo he | assign he => exact ((value_keeps hU.toMild _).ok he).workspace
  | read => rfl
  | input hask => exact ((ask_keeps hU _ _ _).ok hask).workspace

theorem forM_singleton {α : Type} (f : α → Execution Unit) (x : α) (m : Machine) :
    [x].forM f m = f x m := by
  change (f x >>= fun _ => pure ()) m = f x m
  simp only [bind, EStateM.bind]
  cases f x m <;> rfl

theorem exists_next_iff {x : Execution Unit} :
    (∃ m', (do x; return Flow.next : Execution Flow) m = .ok .next m') ↔ ∃ m', x m = .ok () m' := by
  constructor
  · rintro ⟨m', h⟩
    obtain ⟨u, m₁, h₁, -⟩ := bind_ok h
    exact ⟨m₁, h₁⟩
  · rintro ⟨m', h⟩
    exact ⟨m', bind_of_ok h⟩

/-- A statement that comes to storing succeeds when storing does. -/
theorem ComesToStoring.exists_execute_iff (h : ComesToStoring a v m st m₁) :
    (∃ m', execute p s line here st m = .ok .next m') ↔ ∃ m', storeElement a v m₁ = .ok () m' := by
  cases h with
  | letTo he | assign he =>
    simp only [execute]
    rw [bind_of_ok he]
    exact exists_next_iff
  | @read constant data hread hconvert =>
    have hone : readInto (.element a) m = storeElement a v { m with data } := by
      rw [readInto_eq, hread]
      simp only [Target.name, hconvert]
      rfl
    simp only [execute]
    rw [exists_next_iff, forM_singleton, hone]
  | @input prompt _ hask =>
    have hone : Machine.input prompt [.element a] m = storeElement a v m₁ := by
      unfold Machine.input
      rw [get_bind, bind_of_ok hask]
      exact forM_singleton (fun tv : Target × Value => store tv.2 tv.1) (.element a, v) m₁
    simp only [execute]
    rw [exists_next_iff, hone]

/-- The coordinates of an element are those of the numbers that its subscripts give. -/
theorem coordinates_cases {name : String} {subscripts : List Expr} {m m₂ : Machine}
    {xs : List Float} (hxs : subscripts.mapM number m = .ok xs m₂) :
    (∃ cs, xs.mapM Grid.coordinate = .ok cs ∧ coordinates ⟨name, subscripts⟩ m = .ok cs m₂) ∨
    ∃ e m', xs.mapM Grid.coordinate = .error e ∧
      coordinates ⟨name, subscripts⟩ m = .error (.array name e) m' := by
  induction subscripts generalizing m xs with
  | nil =>
    cases hxs
    exact .inl ⟨[], rfl, rfl⟩
  | cons sub subs ih =>
    rw [List.mapM_cons] at hxs
    obtain ⟨x, m', hx, hxs⟩ := bind_ok hxs
    obtain ⟨xs', m'', hxs', hxs⟩ := bind_ok hxs
    cases hxs
    unfold coordinates at ih ⊢
    rw [List.mapM_cons, List.mapM_cons]
    have hfirst : (do onArray name (Grid.coordinate (← number sub)) : Execution Nat) m =
        onArray name (Grid.coordinate x) m' := bind_of_ok hx
    cases hc : Grid.coordinate x with
    | error e =>
      rw [hc] at hfirst
      exact .inr ⟨e, m', rfl, bind_of_error hfirst⟩
    | ok c =>
      rw [hc] at hfirst
      obtain ⟨cs, hcs, hrest⟩ | ⟨e, m₃, he, hrest⟩ := ih hxs'
      · refine .inl ⟨c :: cs, ?_, ?_⟩
        · rw [hcs]
          rfl
        · exact (bind_of_ok hfirst).trans (bind_of_ok hrest)
      · refine .inr ⟨e, m₃, ?_, ?_⟩
        · rw [he]
          rfl
        · exact (bind_of_ok hfirst).trans (bind_of_error hrest)

/-- An element can be stored where it can be read. -/
theorem exists_storeElement_iff (hxs : a.subscripts.mapM number m = .ok xs m₂) {g : Grid}
    (hg : m.workspace.arrays.get? a.name = some g) (hv : v.kind = g.kind) :
    (∃ m', storeElement a v m = .ok () m') ↔
      ∃ u, Workspace.readElement g (xs.map .number) = .ok u := by
  constructor
  · rintro ⟨m', h⟩
    obtain ⟨cs, m₁, hcs, g₁, g', hg₁, hset, -, -⟩ := storeElement_ok h
    rw [hg] at hg₁
    cases hg₁
    obtain ⟨u, hu⟩ := (Grid.exists_set_iff hv).mp ⟨g', hset⟩
    obtain ⟨cs', hcs', hcoordinates⟩ | ⟨e, m₃, -, hcoordinates⟩ := coordinates_cases hxs
    · rw [hcs] at hcoordinates
      cases hcoordinates
      exact ⟨u, Workspace.readElement_eq_ok.mpr ⟨xs, cs, rfl, hcs', hu⟩⟩
    · rw [hcs] at hcoordinates
      cases hcoordinates
  · rintro ⟨u, h⟩
    obtain ⟨xs', cs, hmap, hcs, hu⟩ := Workspace.readElement_eq_ok.mp h
    obtain rfl : xs = xs' := List.map_injective_iff.mpr (fun _ _ h => Value.number.inj h) hmap
    obtain ⟨g', hset⟩ := (Grid.exists_set_iff hv).mpr ⟨u, hu⟩
    obtain ⟨cs', hcs', hcoordinates⟩ | ⟨e, m₃, he, -⟩ := coordinates_cases hxs
    · rw [hcs] at hcs'
      cases hcs'
      have hsame := ((subscripts_untouched a Grid.coordinate).ok hcoordinates).workspace
      have hg₂ : m₂.workspace.arrays.get? a.name = some g := hsame ▸ hg
      refine ⟨{ m₂ with workspace :=
          { m₂.workspace with arrays := m₂.workspace.arrays.insert a.name g' } },
        (bind_of_ok hcoordinates).trans ?_⟩
      rw [get_bind, hg₂]
      simp only [hset]
      rfl
    · rw [hcs] at he
      cases he

/-! ## Reading back -/

/-- What reading the element of the array `name` at the values `args` gives in `m`, where `log` has
happened. -/
structure ReadBack (p : Program) (s : Settings) (log : List ArrayEvent) (m : Machine)
    (name : String) (args : Args) (x : Except CallError Value) : Prop where
  /-- It is `x` in all expressions. -/
  reads : m.workspace.ReadsAs name args x
  /-- Where it succeeds, the arguments are numbers, and the value is the one that was last stored at
  their coordinates since the array was made; if there was none, it is zero or the empty text. -/
  last : ∀ v, x = .ok v → ∃ (xs : List Float) (cs : List Nat), args = xs.map .number ∧
    xs.mapM Grid.coordinate = .ok cs ∧
      v = (lastStored? name cs log).getD (Value.unset (Kind.ofName name))
  /-- With numbers it succeeds exactly when a statement does that stores a value of the array's kind
  there. -/
  accepted : ∀ (xs : List Float) (a : Element) (v : Value) (st : Statement) (m₁ m₂ : Machine)
    (line : Line) (here : Position), args = xs.map .number → a.name = name →
    v.kind = Kind.ofName name → ComesToStoring a v m st m₁ →
    a.subscripts.mapM number m₁ = .ok xs m₂ →
    ((∃ u, x = .ok u) ↔ ∃ m', execute p s line here st m = .ok .next m')
  /-- A step that neither stores there nor makes the name anew does not change it. -/
  kept : ∀ (xs : List Float) (cs : List Nat), args = xs.map .number →
    xs.mapM Grid.coordinate = .ok cs → (∀ e ∈ m.stepEvents p s, ¬ e.Replaces name cs) →
    (m.step p s).machine.workspace.ReadsAs name args x

/-- **Elements of arrays are read back.** In all machines that runs come to, if `name` was last
declared by a DIM, reading it with any values of arguments gives what `ReadBack` says. -/
theorem History.readBack {log : List ArrayEvent} (h : History p s log m) {name : String}
    (harray : m.workspace.functions.get? name = some .array) (args : Args) :
    ∃ x, ReadBack p s log m name args x := by
  have htracked := h.tracked
  obtain ⟨g, hg⟩ := htracked.array name harray
  refine ⟨Workspace.readElement g args, Workspace.readsAs_array harray hg args, ?_, ?_, ?_⟩
  · intro v hv
    obtain ⟨xs, cs, hxs, hcs, hget⟩ := Workspace.readElement_eq_ok.mp hv
    exact ⟨xs, cs, hxs, hcs, htracked.last name g hg cs v hget⟩
  · rintro xs a v st m₁ m₂ line here rfl rfl hkind hstores hxs
    have hkind' : v.kind = g.kind := hkind.trans (htracked.kind a.name g hg).symm
    rw [← hstores.workspace] at hg
    rw [hstores.exists_execute_iff]
    exact (exists_storeElement_iff hxs hg hkind').symm
  · intro xs cs hxs hcs hnone
    obtain ⟨hf, g', hg', hget⟩ := (step_writes p s m).get_eq hnone harray hg
    rw [← Workspace.readElement_congr hxs hcs hget]
    exact Workspace.readsAs_array hf hg' args

end

/-- An array of two dimensions, in which two numbers are stored. -/
def twoStored : Program :=
  ⟨[⟨10, 1, "DIM A(3,3)", [.dim [⟨"A", [⟨"3", .number 3⟩, ⟨"3", .number 3⟩]⟩]]⟩,
    ⟨20, 2, "A(1,2)=5",
      [.assignElement ⟨"A", [⟨"1", .number 1⟩, ⟨"2", .number 2⟩]⟩ ⟨"5", .number 5⟩]⟩,
    ⟨30, 3, "A(2,1)=7",
      [.assignElement ⟨"A", [⟨"2", .number 2⟩, ⟨"1", .number 1⟩]⟩ ⟨"7", .number 7⟩]⟩]⟩

def twoStoredLog : List ArrayEvent :=
  [.stored "A" [2, 1] (.number 7), .stored "A" [1, 2] (.number 5), .dimensioned "A"]

def twoStoredRun : Machine :=
  ((((start twoStored (.ofSeed 0) {}).step twoStored {}).machine.step twoStored {}).machine.step
    twoStored {}).machine

/-- The first number is read back, with subscripts that are not whole and behind the store of the
second. -/
theorem readBack_twoStored :
    History twoStored {} twoStoredLog twoStoredRun ∧
      twoStoredRun.workspace.functions.get? "A" = some .array ∧
      lastStored? "A" [1, 2] twoStoredLog = some (.number 5) ∧
      ReadBack twoStored {} twoStoredLog twoStoredRun "A" [.number 1.5, .number 2.5]
        (.ok (.number 5)) := by
  have hhistory : History twoStored {} twoStoredLog twoStoredRun :=
    .step (.step (.step (.start (.ofSeed 0) {})))
  have harray : twoStoredRun.workspace.functions.get? "A" = some .array := rfl
  obtain ⟨x, hback⟩ := hhistory.readBack harray [.number 1.5, .number 2.5]
  have hreads := hback.reads maxCallDepth [] [.number 1.5, .number 2.5] (Random.ofSeed 0)
    (Random.ofSeed 0) rfl
  have hvalue : twoStoredRun.workspace.evalWithin maxCallDepth []
      (.call "A" [.number 1.5, .number 2.5]) (Random.ofSeed 0) =
        .ok (.number 5) (Random.ofSeed 0) := rfl
  refine ⟨hhistory, harray, rfl, ?_⟩
  rw [hvalue] at hreads
  cases x with
  | error e => cases hreads
  | ok v =>
    cases hreads
    exact hback

end Machine

end ClassicBasic
