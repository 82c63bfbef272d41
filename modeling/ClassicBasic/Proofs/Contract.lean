import ClassicBasic.Expr.Builtin
import ClassicBasic.Proofs.Except

/-!
# Contracts

`Meets I Q E x`: started in a state with `I`, the computation `x` leaves one with `I`, whether it
succeeds or fails; a result has `Q` and a fault has `E`. `Yields Q x` and `FaultsAre E x` are the
two halves for a computation without a state. A computation made of several meets a contract if its
parts do, so each function is walked through once, along its text.
-/

namespace ClassicBasic

variable {ε σ α β : Type}

/-! ## Without a state -/

/-- What `x` gives, if it succeeds, has `Q`. -/
def Yields (Q : α → Prop) (x : Except ε α) : Prop := ∀ a, x = .ok a → Q a

namespace Yields

variable {Q : α → Prop} {R : β → Prop} {x : Except ε α} {f : α → Except ε β}

theorem ok {a : α} (h : Q a) : Yields Q (.ok a : Except ε α) := by
  rintro a' ⟨⟩
  exact h

theorem error (e : ε) : Yields Q (.error e : Except ε α) := nofun

theorem bind (hx : Yields Q x) (hf : ∀ a, Q a → Yields R (f a)) : Yields R (x >>= f) := by
  cases x with
  | ok a => exact hf a (hx a rfl)
  | error e => exact .error e

/-- Nothing need be known of the first computation. -/
theorem skip (hf : ∀ a, Yields R (f a)) : Yields R (x >>= f) :=
  .bind (Q := fun _ => True) (fun _ _ => trivial) fun a _ => hf a

theorem mapM (hf : ∀ a, Yields R (f a)) (as : List α) :
    Yields (fun bs => ∀ b ∈ bs, R b) (as.mapM f) := by
  induction as with
  | nil => exact .ok (by simp)
  | cons a as ih =>
    rw [List.mapM_cons]
    exact .bind (hf a) fun b hb => .bind ih fun bs hbs =>
      .ok (List.forall_mem_cons.mpr ⟨hb, hbs⟩)

end Yields

/-- What faults of `x` there are have `E`. -/
def FaultsAre (E : ε → Prop) (x : Except ε α) : Prop := ∀ e, x = .error e → E e

namespace FaultsAre

variable {E : ε → Prop} {x : Except ε α}

theorem ok (a : α) : FaultsAre E (.ok a : Except ε α) := nofun

theorem error {e : ε} (h : E e) : FaultsAre E (.error e : Except ε α) := by
  rintro e' ⟨⟩
  exact h

theorem bind {f : α → Except ε β} (hx : FaultsAre E x) (hf : ∀ a, FaultsAre E (f a)) :
    FaultsAre E (x >>= f) := by
  cases x with
  | ok a => exact hf a
  | error e => exact .error (hx e rfl)

theorem mapM {f : α → Except ε β} (hf : ∀ a, FaultsAre E (f a)) (as : List α) :
    FaultsAre E (as.mapM f) := by
  induction as with
  | nil => exact .ok _
  | cons a as ih =>
    rw [List.mapM_cons]
    exact .bind (hf a) fun b => .bind ih fun bs => .ok _

end FaultsAre

/-! ## Contracts of computations -/

structure Meets (I : σ → Prop) (Q : α → Prop) (E : ε → Prop) (x : EStateM ε σ α) : Prop where
  ok : ∀ {s a s'}, I s → x s = .ok a s' → I s' ∧ Q a
  error : ∀ {s e s'}, I s → x s = .error e s' → I s' ∧ E e

namespace Meets

variable {I : σ → Prop} {Q Q' : α → Prop} {R : β → Prop} {E : ε → Prop} {x : EStateM ε σ α}

theorem imp (hx : Meets I Q E x) (h : ∀ a, Q a → Q' a) : Meets I Q' E x where
  ok hs hrun := (hx.ok hs hrun).imp_right (h _)
  error := hx.error

theorem pure {a : α} (h : Q a) : Meets I Q E (Pure.pure a) where
  ok hs hrun := by
    cases hrun
    exact ⟨hs, h⟩
  error _ hrun := by cases hrun

theorem throw {e : ε} (h : E e) : Meets I Q E (throw e) where
  ok _ hrun := by cases hrun
  error hs hrun := by
    cases hrun
    exact ⟨hs, h⟩

theorem get : Meets I I E (get : EStateM ε σ σ) where
  ok hs hrun := by
    cases hrun
    exact ⟨hs, hs⟩
  error _ hrun := by cases hrun

theorem modify {f : σ → σ} (h : ∀ s, I s → I (f s)) :
    Meets I (fun _ => True) E (modify f : EStateM ε σ Unit) where
  ok hs hrun := by
    cases hrun
    exact ⟨h _ hs, trivial⟩
  error _ hrun := by cases hrun

theorem set {s : σ} (h : I s) : Meets I (fun _ => True) E (set s : EStateM ε σ PUnit) where
  ok _ hrun := by
    cases hrun
    exact ⟨h, trivial⟩
  error _ hrun := by cases hrun

theorem bind {f : α → EStateM ε σ β} (hx : Meets I Q E x) (hf : ∀ a, Q a → Meets I R E (f a)) :
    Meets I R E (x >>= f) where
  ok hs hrun := by
    obtain ⟨a, s₁, hfirst, hrest⟩ := bind_ok hrun
    obtain ⟨hs₁, ha⟩ := hx.ok hs hfirst
    exact (hf a ha).ok hs₁ hrest
  error hs hrun := by
    rcases bind_error hrun with hfirst | ⟨a, s₁, hfirst, hrest⟩
    · exact hx.error hs hfirst
    · obtain ⟨hs₁, ha⟩ := hx.ok hs hfirst
      exact (hf a ha).error hs₁ hrest

theorem lift {y : Except ε α} (h : FaultsAre E y) :
    Meets I (fun a => y = .ok a) E (liftM y : EStateM ε σ α) := by
  cases y with
  | ok a => exact .pure rfl
  | error e => exact .throw (h e rfl)

theorem mapM {f : α → EStateM ε σ β} {as : List α} (hf : ∀ a ∈ as, Meets I R E (f a)) :
    Meets I (fun bs => ∀ b ∈ bs, R b) E (as.mapM f) := by
  induction as with
  | nil => exact .pure (by simp)
  | cons a as ih =>
    rw [List.mapM_cons]
    obtain ⟨ha, has⟩ := List.forall_mem_cons.mp hf
    refine .bind ha fun b hb => .bind (ih has) fun bs hbs => .pure ?_
    exact List.forall_mem_cons.mpr ⟨hb, hbs⟩

theorem forM {f : α → EStateM ε σ PUnit} {as : List α}
    (hf : ∀ a ∈ as, Meets I (fun _ => True) E (f a)) :
    Meets I (fun _ => True) E (as.forM f) := by
  induction as with
  | nil => exact .pure trivial
  | cons a as ih =>
    obtain ⟨ha, has⟩ := List.forall_mem_cons.mp hf
    exact .bind ha fun _ _ => ih has

end Meets

end ClassicBasic
