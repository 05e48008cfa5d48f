import Cose2.Cbor.Except

/-! # Computations that may panic

An index or a range out of bounds does not return an error, it ends the program.  A
`Checked` computation has that third outcome, and its reads check their bounds.  It
`Returns` what a computation without it returns when no read is out of bounds, so that a
program may be written with total reads once this is known of it.
-/

/-- A computation that panics (`none`), fails or returns. -/
abbrev Checked (ε : Type) := ExceptT ε Option

namespace Checked

variable {ε α β : Type}

/-- What cannot panic. -/
def lift (x : Except ε α) : Checked ε α := ExceptT.mk (some x)

/-- `as[i]`. -/
def index (as : List α) (i : Nat) : Checked ε α := ExceptT.mk (as[i]?.map .ok)

/-- `&as[start..stop]`. -/
def slice (as : List α) (start stop : Nat) : Checked ε (List α) :=
  ExceptT.mk (if start ≤ stop ∧ stop ≤ as.length then
    some (.ok ((as.drop start).take (stop - start))) else none)

/-- `a - b`, of unsigned integers. -/
def sub (a b : Nat) : Checked ε Nat := ExceptT.mk (if b ≤ a then some (.ok (a - b)) else none)

/-- The computation does not panic, and has the given outcome. -/
def Returns (x : Checked ε α) (y : Except ε α) : Prop := x.run = some y

variable {x : Checked ε α} {y : Except ε α}

@[simp] theorem returns_lift : Returns (lift y) y := rfl

@[simp] theorem returns_pure {a : α} : Returns (pure a : Checked ε α) (.ok a) := rfl

/-- One computation after another: the second matters where the first returns only. -/
theorem Returns.bind {f : α → Checked ε β} {g : α → Except ε β} (h : Returns x y)
    (hf : ∀ a, y = .ok a → Returns (f a) (g a)) : Returns (x >>= f) (y >>= g) := by
  obtain ⟨rfl⟩ : x = ExceptT.mk (some y) := h
  cases y with
  | error e => rfl
  | ok a => exact hf a rfl

/-- A computation that cannot panic comes first. -/
theorem Returns.lift_bind {f : α → Checked ε β} {g : α → Except ε β}
    (hf : ∀ a, y = .ok a → Returns (f a) (g a)) : Returns (lift y >>= f) (y >>= g) :=
  returns_lift.bind hf

/-- A read in bounds comes first. -/
theorem Returns.bind_ok {a : α} {f : α → Checked ε β} {z : Except ε β}
    (h : Returns x (.ok a)) (hf : Returns (f a) z) : Returns (x >>= f) z :=
  h.bind (g := fun _ => z) fun b hb => by cases hb; exact hf

theorem Returns.ite {c : Prop} [Decidable c] {x' : Checked ε α} {y' : Except ε α}
    (h : c → Returns x y) (h' : ¬ c → Returns x' y') :
    Returns (if c then x else x') (if c then y else y') := by
  by_cases hc : c
  · rw [if_pos hc, if_pos hc]
    exact h hc
  · rw [if_neg hc, if_neg hc]
    exact h' hc

theorem returns_index {as : List α} {i : Nat} {a : α} (h : as[i]? = some a) :
    Returns (index as i : Checked ε α) (.ok a) := by
  rw [Returns, index, h]
  rfl

theorem returns_slice {as : List α} {start stop : Nat} (h : start ≤ stop)
    (h' : stop ≤ as.length) :
    Returns (slice as start stop : Checked ε (List α))
      (.ok ((as.drop start).take (stop - start))) := by
  rw [Returns, slice, if_pos ⟨h, h'⟩]
  rfl

theorem returns_sub {a b : Nat} (h : b ≤ a) : Returns (sub a b : Checked ε Nat) (.ok (a - b)) := by
  rw [Returns, sub, if_pos h]
  rfl

/-- The same read for each member of a list. -/
theorem returns_mapM {as : List α} {f : α → Checked ε β} {g : α → β}
    (h : ∀ a ∈ as, Returns (f a) (.ok (g a))) : Returns (as.mapM f) (.ok (as.map g)) := by
  induction as with
  | nil => exact returns_pure
  | cons a as ih =>
    rw [List.forall_mem_cons] at h
    rw [List.mapM_cons, List.map_cons]
    exact h.1.bind_ok ((ih h.2).bind_ok returns_pure)

theorem returns_forM {as : List α} {f : α → Checked ε Unit} {g : α → Except ε Unit}
    (h : ∀ a ∈ as, Returns (f a) (g a)) : Returns (as.forM f) (as.forM g) := by
  induction as with
  | nil => exact returns_pure
  | cons a as ih =>
    rw [List.forall_mem_cons] at h
    exact h.1.bind fun _ _ => ih h.2

end Checked
