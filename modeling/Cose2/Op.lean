import Cose2.Cbor.Except

/-! # Operations on a mutable value

An operation reads and changes a value and may fail.  What it changed before it
failed stays changed, so both outcomes come with the value that is left behind.
-/

/-- A fallible operation on a mutable value. -/
def Op (ε σ α : Type) := σ → Except ε α × σ

namespace Op

variable {ε σ τ α β : Type}

/-- The operation that a function computes. -/
def of (f : σ → Except ε α × σ) : Op ε σ α := f

/-- The outcome of an operation and the value it leaves behind. -/
def run (x : Op ε σ α) (s : σ) : Except ε α × σ := x s

instance : Monad (Op ε σ) where
  pure a := fun s => (.ok a, s)
  bind x f := fun s =>
    match x s with
    | (.ok a, s') => f a s'
    | (.error e, s') => (.error e, s')

/-- The current value. -/
def get : Op ε σ σ := fun s => (.ok s, s)

/-- Changes the value. -/
def modify (f : σ → σ) : Op ε σ Unit := fun s => (.ok (), f s)

/-- A computation that leaves the value alone. -/
def lift (x : Except ε α) : Op ε σ α := fun s => (x, s)

instance : MonadLift (Except ε) (Op ε σ) := ⟨lift⟩

/-- An operation on a part of the value. -/
def on (part : σ → τ) (put : τ → σ → σ) (x : Op ε τ α) : Op ε σ α := fun s =>
  ((x (part s)).1, put (x (part s)).2 s)

/-- A sequence succeeds when both parts do. -/
theorem run_bind_eq_ok {x : Op ε σ α} {f : α → Op ε σ β} {s s' : σ} {b : β} :
    (x >>= f).run s = (.ok b, s') ↔
      ∃ a t, x.run s = (.ok a, t) ∧ (f a).run t = (.ok b, s') := by
  have h : (x >>= f).run s =
      match x.run s with
      | (.ok a, t) => (f a).run t
      | (.error e, t) => (.error e, t) := rfl
  rw [h]
  obtain ⟨r, t⟩ := x.run s
  cases r with
  | ok a =>
    constructor
    · intro h
      exact ⟨a, t, rfl, h⟩
    · rintro ⟨_, _, ⟨⟩, h⟩
      exact h
  | error e =>
    constructor
    · rintro ⟨⟩
    · rintro ⟨_, _, ⟨⟩, _⟩

theorem run_pure_eq_ok {s s' : σ} {a b : α} :
    (pure a : Op ε σ α).run s = (.ok b, s') ↔ a = b ∧ s = s' := by
  rw [show (pure a : Op ε σ α).run s = (.ok a, s) from rfl, Prod.mk.injEq, Except.ok.injEq]

theorem run_get_eq_ok {s s' t : σ} :
    (get : Op ε σ σ).run s = (.ok t, s') ↔ s = t ∧ s = s' := by
  rw [show (get : Op ε σ σ).run s = (.ok s, s) from rfl, Prod.mk.injEq, Except.ok.injEq]

theorem run_modify_eq_ok {f : σ → σ} {s s' : σ} {u : Unit} :
    (modify f : Op ε σ Unit).run s = (.ok u, s') ↔ f s = s' := by
  rw [show (modify f : Op ε σ Unit).run s = (.ok (), f s) from rfl, Prod.mk.injEq]
  simp

theorem run_lift_eq_ok {x : Except ε α} {s s' : σ} {a : α} :
    (lift x : Op ε σ α).run s = (.ok a, s') ↔ x = .ok a ∧ s = s' := by
  rw [show (lift x : Op ε σ α).run s = (x, s) from rfl, Prod.mk.injEq]

theorem run_on_eq_ok {part : σ → τ} {put : τ → σ → σ} {x : Op ε τ α} {s s' : σ} {a : α} :
    (on part put x).run s = (.ok a, s') ↔ ∃ t, x.run (part s) = (.ok a, t) ∧ put t s = s' := by
  rw [show (on part put x).run s = ((x.run (part s)).1, put (x.run (part s)).2 s) from rfl]
  obtain ⟨r, t⟩ := x.run (part s)
  simp only [Prod.mk.injEq]
  constructor
  · rintro ⟨rfl, h⟩
    exact ⟨t, ⟨rfl, rfl⟩, h⟩
  · rintro ⟨_, ⟨rfl, rfl⟩, h⟩
    exact ⟨rfl, h⟩

/-! ### Outcomes -/

theorem run_get_bind {f : σ → Op ε σ α} {s : σ} : (get >>= f).run s = (f s).run s := rfl

/-- The outcome of a computation in front of an operation. -/
theorem fst_run_lift_bind {x : Except ε α} {f : α → Op ε σ β} {s : σ} :
    ((lift x >>= f).run s).1 = x >>= fun a => ((f a).run s).1 := by
  cases x with
  | ok a =>
    rw [Except.ok_bind]
    rfl
  | error e =>
    rw [Except.error_bind]
    rfl

/-! ### What an operation leaves behind -/

/-- Started on `s`, the operation ends with an outcome and a value that satisfy `Q`. -/
def Leaves (x : Op ε σ α) (s : σ) (Q : Except ε α → σ → Prop) : Prop :=
  Q (x.run s).1 (x.run s).2

theorem Leaves.mono {x : Op ε σ α} {s : σ} {Q Q' : Except ε α → σ → Prop} (h : x.Leaves s Q)
    (hQ : ∀ r s', Q r s' → Q' r s') : x.Leaves s Q' :=
  hQ _ _ h

@[simp] theorem leaves_get {s : σ} {Q : Except ε σ → σ → Prop} :
    Leaves get s Q ↔ Q (.ok s) s :=
  Iff.rfl

@[simp] theorem leaves_modify {f : σ → σ} {s : σ} {Q : Except ε Unit → σ → Prop} :
    Leaves (modify f) s Q ↔ Q (.ok ()) (f s) :=
  Iff.rfl

@[simp] theorem leaves_lift {x : Except ε α} {s : σ} {Q : Except ε α → σ → Prop} :
    Leaves (lift x) s Q ↔ Q x s :=
  Iff.rfl

@[simp] theorem leaves_of {f : σ → Except ε α × σ} {s : σ} {Q : Except ε α → σ → Prop} :
    Leaves (of f) s Q ↔ Q (f s).1 (f s).2 :=
  Iff.rfl

@[simp] theorem leaves_on {part : σ → τ} {put : τ → σ → σ} {x : Op ε τ α} {s : σ}
    {Q : Except ε α → σ → Prop} :
    Leaves (on part put x) s Q ↔ Leaves x (part s) fun r t => Q r (put t s) :=
  Iff.rfl

/-- The rule for a sequence: either the first operation fails, or the second one
starts where it stopped. -/
theorem leaves_bind {x : Op ε σ α} {f : α → Op ε σ β} {s : σ} {Q : Except ε β → σ → Prop} :
    Leaves (x >>= f) s Q ↔
      x.Leaves s fun r s' =>
        match r with
        | .ok a => (f a).Leaves s' Q
        | .error e => Q (.error e) s' := by
  have h : (x >>= f).run s =
      match x.run s with
      | (.ok a, s') => (f a).run s'
      | (.error e, s') => (.error e, s') := rfl
  rw [Leaves, Leaves, h]
  obtain ⟨r, s'⟩ := x.run s
  cases r with
  | ok a => exact Iff.rfl
  | error e => exact Iff.rfl

/-- The rule for a computation in front of an operation. -/
theorem leaves_lift_bind {x : Except ε α} {f : α → Op ε σ β} {s : σ}
    {Q : Except ε β → σ → Prop} :
    Leaves (lift x >>= f) s Q ↔
      (∀ a, x = .ok a → (f a).Leaves s Q) ∧ ∀ e, x = .error e → Q (.error e) s := by
  rw [leaves_bind, leaves_lift]
  cases x with
  | ok a => simp
  | error e => simp

/-- What follows a failed operation does not run. -/
theorem run_bind_of_fails {x : Op ε σ α} {f : α → Op ε σ β} {s : σ}
    (h : (x.run s).1.isOk = false) :
    ((x >>= f).run s).1.isOk = false ∧ ((x >>= f).run s).2 = (x.run s).2 := by
  have hleaves : (x >>= f).Leaves s fun r s' => r.isOk = false ∧ s' = (x.run s).2 := by
    rw [leaves_bind, Leaves]
    generalize x.run s = outcome at h ⊢
    obtain ⟨r, s'⟩ := outcome
    cases r with
    | ok _ => cases h
    | error _ => exact ⟨rfl, rfl⟩
  exact hleaves

/-- An operation that only looks at the value changes nothing. -/
theorem run_bind_look {x : Op ε σ α} {g : σ → Except ε β} {s : σ} :
    ((x >>= fun _ => get >>= fun s => lift (g s)).run s).2 = (x.run s).2 := by
  have h : (x >>= fun _ => get >>= fun s => lift (g s)).Leaves s
      fun _ s' => s' = (x.run s).2 := by
    rw [leaves_bind, Leaves]
    cases (x.run s).1 with
    | ok _ => exact rfl
    | error _ => exact rfl
  exact h

/-! ### Invariants -/

/-- Whatever its outcome, the operation preserves `I`. -/
def Keeps (I : σ → Prop) (x : Op ε σ α) : Prop := ∀ s, I s → x.Leaves s fun _ s' => I s'

section Keeps

variable {I : σ → Prop}

theorem keeps_pure (a : α) : Keeps I (pure a : Op ε σ α) := fun _ h => h

theorem keeps_get : Keeps I (get : Op ε σ σ) := fun _ h => h

theorem keeps_lift (x : Except ε α) : Keeps I (lift x : Op ε σ α) := fun _ h => h

theorem keeps_modify {f : σ → σ} (hf : ∀ s, I s → I (f s)) :
    Keeps I (modify f : Op ε σ Unit) :=
  hf

theorem Keeps.bind {x : Op ε σ α} {f : α → Op ε σ β} (hx : Keeps I x)
    (hf : ∀ a, Keeps I (f a)) : Keeps I (x >>= f) := by
  intro s hs
  rw [leaves_bind]
  refine (hx s hs).mono fun r s' hs' => ?_
  cases r with
  | ok a => exact hf a s' hs'
  | error e => exact hs'

/-- Behind a computation its result is known. -/
theorem keeps_lift_bind {x : Except ε α} {f : α → Op ε σ β}
    (hf : ∀ a, x = .ok a → Keeps I (f a)) : Keeps I (lift x >>= f) := by
  intro s hs
  rw [leaves_lift_bind]
  exact ⟨fun a ha => hf a ha s hs, fun _ _ => hs⟩

end Keeps
end Op
