import ClassicBasic.Proofs.Contract

/-!
# What built-in functions give

A built-in function gives a value of one kind, its `Builtin.kind`, or fails on its arguments; no
fault of a function's body comes from it. The kind is that of the function's name, with one
exception: `TAB` gives a text under a name without `$`.
-/

namespace ClassicBasic

/-- Whether the fault is of the call itself, and not of the body of what it calls. -/
def CallError.isOwn : CallError → Bool
  | .body _ => false
  | _ => true

namespace Args

/-! ## Arguments -/

section
variable (args : Args) (i : Nat)

theorem expectBetween_faults (least most : Nat) :
    FaultsAre (·.isOwn = true) (args.expectBetween least most) := by
  unfold expectBetween
  split
  · exact .error rfl
  · exact .ok ()

theorem expect_faults (n : Nat) : FaultsAre (·.isOwn = true) (args.expect n) :=
  expectBetween_faults args n n

theorem number_faults : FaultsAre (·.isOwn = true) (args.number i) := by
  unfold number
  split
  · exact .ok _
  · exact .error rfl
  · exact .error rfl

theorem text_faults : FaultsAre (·.isOwn = true) (args.text i) := by
  unfold text
  split
  · exact .ok _
  · exact .error rfl
  · exact .error rfl

theorem int_faults : FaultsAre (·.isOwn = true) (args.int i) :=
  .bind (number_faults args i) fun _ => .ok _

theorem count_faults (what : String) : FaultsAre (·.isOwn = true) (args.count i what) := by
  refine .bind (int_faults args i) fun n => ?_
  split
  · exact .error rfl
  · exact .ok _

theorem oneNumber_faults : FaultsAre (·.isOwn = true) args.oneNumber :=
  .bind (expect_faults args 1) fun _ => number_faults args 0

theorem oneText_faults : FaultsAre (·.isOwn = true) args.oneText :=
  .bind (expect_faults args 1) fun _ => text_faults args 0

end

end Args

/-! ## Functions -/

namespace Builtin

/-- The kind of what a function gives. -/
def kind : Builtin → Kind
  | .abs | .atn | .cos | .exp | .int | .sin | .tan | .sgn | .log | .sqr | .val | .rnd | .asc
  | .len => .number
  | .chr | .left | .right | .mid | .str | .tab => .text

theorem kind_of_givesNumber {b : Builtin} (h : b.givesNumber = true) : b.kind = .number := by
  revert h
  cases b <;> decide

/-- All functions but `TAB` are named for what they give. -/
theorem ofName_name {b : Builtin} (h : b ≠ .tab) : Kind.ofName b.name = b.kind := by
  revert h
  cases b <;> decide

/-- What the value of a call is, and why it has none. -/
abbrev Gives (b : Builtin) (x : EStateM CallError Random Value) : Prop :=
  Meets (fun _ => True) (fun v => v.kind = b.kind) (·.isOwn = true) x

/-- A function of one number. -/
theorem gives_number {b : Builtin} (hb : b.kind = .number) (args : Args) (f : Float → Float) :
    b.Gives (do return .number (f (← args.oneNumber))) :=
  .bind (.lift args.oneNumber_faults) fun _ _ => .pure hb.symm

theorem apply_gives (args : Args) (b : Builtin) : b.Gives (b.apply args) := by
  cases b with
  | abs | atn | cos | exp | int | sin | tan | sgn => exact gives_number rfl args _
  | log | sqr =>
    refine .bind (.lift args.oneNumber_faults) fun x _ => ?_
    split
    · exact .throw rfl
    · exact .pure rfl
  | val =>
    refine .bind (.lift args.oneText_faults) fun s _ => ?_
    simp only
    split
    · exact .pure rfl
    · exact .throw rfl
  | rnd =>
    refine .bind (.lift (args.expectBetween_faults 0 1)) fun _ _ => .bind .get fun r _ => ?_
    exact .bind (.set trivial) fun _ _ => .pure rfl
  | asc =>
    refine .bind (.lift args.oneText_faults) fun s _ => ?_
    split
    · exact .pure rfl
    · exact .throw rfl
  | chr =>
    refine .bind (.lift (args.expect_faults 1)) fun _ _ => .bind (.lift (args.int_faults 0))
      fun n _ => ?_
    split
    · exact .pure rfl
    · exact .throw rfl
  | len => exact .bind (.lift args.oneText_faults) fun _ _ => .pure rfl
  | left =>
    refine .bind (.lift (args.expect_faults 2)) fun _ _ => .bind (.lift (args.count_faults 1 _))
      fun n _ => ?_
    exact .bind (.lift (args.text_faults 0)) fun _ _ => .pure rfl
  | right =>
    refine .bind (.lift (args.expect_faults 2)) fun _ _ => .bind (.lift (args.text_faults 0))
      fun s _ => ?_
    exact .bind (.lift (args.count_faults 1 _)) fun _ _ => .pure rfl
  | mid =>
    refine .bind (.lift (args.expectBetween_faults 2 3)) fun _ _ => ?_
    refine .bind (.lift (args.text_faults 0)) fun s _ => ?_
    refine .bind (.lift (args.count_faults 1 _)) fun start _ => ?_
    simp only
    split
    · exact .bind (Q := fun _ => False) (.throw rfl) nofun
    · split
      · exact .bind (.lift (args.count_faults 2 _)) fun _ _ => .pure rfl
      · exact .pure rfl
  | str => exact .bind (.lift args.oneNumber_faults) fun _ _ => .pure rfl
  | tab =>
    refine .bind (.lift (args.expect_faults 1)) fun _ _ => ?_
    exact .bind (.lift (args.int_faults 0)) fun _ _ => .pure rfl

end Builtin

end ClassicBasic
