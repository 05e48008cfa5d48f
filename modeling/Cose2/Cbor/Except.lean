import Mathlib.Tactic

/-! # Reading back a successful `Except` computation

A fallible program is written as a chain of binds.  The lemmas here turn "the
chain returned `ok`" into the conjunction of what each link returned, so that
no later proof unfolds `Except.bind`.
-/
namespace Except

variable {ε ε' α β : Type}

theorem bind_eq_ok {x : Except ε α} {f : α → Except ε β} {b : β} :
    (x >>= f) = .ok b ↔ ∃ a, x = .ok a ∧ f a = .ok b := by
  cases x with
  | error e => simp [bind, Except.bind]
  | ok a => simp [bind, Except.bind]

/-- One check after another: all of them pass. -/
theorem seq_eq_ok {x : Except ε Unit} {y : Except ε β} {b : β} :
    (x >>= fun _ => y) = .ok b ↔ x = .ok () ∧ y = .ok b := by
  rw [bind_eq_ok]
  constructor
  · rintro ⟨_, hx, hy⟩
    exact ⟨hx, hy⟩
  · rintro ⟨hx, hy⟩
    exact ⟨(), hx, hy⟩

theorem pure_eq_ok {a b : α} : (pure a : Except ε α) = .ok b ↔ a = b := by
  simp [pure, Except.pure]

@[simp] theorem ok_bind {a : α} {f : α → Except ε β} : (Except.ok a >>= f) = f a := rfl

@[simp] theorem error_bind {e : ε} {f : α → Except ε β} :
    (Except.error e >>= f) = .error e := rfl

theorem map_eq_ok {x : Except ε α} {f : α → β} {b : β} :
    x.map f = .ok b ↔ ∃ a, x = .ok a ∧ f a = b := by
  cases x with
  | error e => simp [Except.map]
  | ok a => simp [Except.map]

@[simp] theorem mapError_eq_ok {x : Except ε α} {f : ε → ε'} {a : α} :
    x.mapError f = .ok a ↔ x = .ok a := by
  cases x with
  | error e => simp [Except.mapError]
  | ok a => simp [Except.mapError]

/-- `Err(e)` when the condition holds, the early return of the sources. -/
def failIf (c : Prop) [Decidable c] (e : ε) : Except ε Unit :=
  if c then .error e else .ok ()

@[simp] theorem failIf_eq_ok {c : Prop} [Decidable c] {e : ε} {u : Unit} :
    failIf c e = .ok u ↔ ¬ c := by
  unfold failIf
  split_ifs with h <;> simp [h]

/-- `Some(a)` becomes `Ok(a)` and `None` becomes `Err(e)`. -/
def ofOption (e : ε) : Option α → Except ε α
  | some a => .ok a
  | none => .error e

@[simp] theorem ofOption_eq_ok {e : ε} {o : Option α} {a : α} :
    ofOption e o = .ok a ↔ o = some a := by
  cases o <;> simp [ofOption]

/-- Two computations succeed alike when each success of one is one of the other. -/
theorem isOk_iff {x : Except ε α} : x.isOk = true ↔ ∃ a, x = .ok a := by
  cases x <;> simp [Except.isOk, Except.toBool]

theorem forM_eq_ok {as : List α} {f : α → Except ε Unit} {u : Unit} :
    as.forM f = .ok u ↔ ∀ a ∈ as, f a = .ok () := by
  induction as with
  | nil => simp [pure, Except.pure]
  | cons a as ih =>
    rw [show (a :: as).forM f = f a >>= fun _ => as.forM f from rfl, seq_eq_ok, ih,
      List.forall_mem_cons]

/-- Two lists on whose members the checks agree one by one. -/
theorem forM_congr {R : α → β → Prop} {as : List α} {bs : List β} {f : α → Except ε Unit}
    {g : β → Except ε Unit} (h : List.Forall₂ R as bs) (hfg : ∀ a b, R a b → f a = g b) :
    as.forM f = bs.forM g := by
  induction h with
  | nil => rfl
  | @cons a b as bs hone _ ih =>
    rw [show (a :: as).forM f = f a >>= fun _ => as.forM f from rfl,
      show (b :: bs).forM g = g b >>= fun _ => bs.forM g from rfl, hfg a b hone, ih]

theorem mapM_eq_ok {as : List α} {bs : List β} {f : α → Except ε β} :
    as.mapM f = .ok bs ↔ List.Forall₂ (fun a b => f a = .ok b) as bs := by
  induction as generalizing bs with
  | nil => simp [pure, Except.pure, eq_comm]
  | cons a as ih =>
    simp only [List.mapM_cons, bind_eq_ok, pure_eq_ok, List.forall₂_cons_left_iff, ih]
    constructor
    · rintro ⟨b, hb, bs', hbs, rfl⟩
      exact ⟨b, bs', hb, hbs, rfl⟩
    · rintro ⟨b, bs', hb, hbs, rfl⟩
      exact ⟨b, hb, bs', hbs, rfl⟩

/-- A computation over a list succeeds when it succeeds at each member. -/
theorem exists_mapM_eq_ok {as : List α} {f : α → Except ε β}
    (h : ∀ a ∈ as, ∃ b, f a = .ok b) : ∃ bs, as.mapM f = .ok bs := by
  simp only [mapM_eq_ok]
  induction as with
  | nil => exact ⟨[], .nil⟩
  | cons a as ih =>
    obtain ⟨b, hb⟩ := h a List.mem_cons_self
    obtain ⟨bs, hbs⟩ := ih fun a' ha' => h a' (List.mem_cons_of_mem _ ha')
    exact ⟨b :: bs, .cons hb hbs⟩

/-- A computation on what is there, if anything is. -/
theorem optionMapM_eq_ok {o : Option α} {o' : Option β} {f : α → Except ε β} :
    o.mapM f = .ok o' ↔ (o = none ∧ o' = none) ∨ ∃ a b, o = some a ∧ f a = .ok b ∧ o' = some b := by
  cases o with
  | none => simp [pure, Except.pure, eq_comm]
  | some a =>
    cases h : f a with
    | error e => simp [h, Functor.map, Except.map]
    | ok b => simp [h, Functor.map, Except.map, eq_comm]

/-- Two computations are the same, and what they return is as `P` says. -/
def Alike (P : α → Prop) (x y : Except ε α) : Prop := x = y ∧ ∀ a, x = .ok a → P a

theorem Alike.refl {P : α → Prop} {x : Except ε α} (h : ∀ a, x = .ok a → P a) : Alike P x x :=
  ⟨rfl, h⟩

theorem Alike.of_error {P : α → Prop} (e : ε) : Alike P (.error e) (.error e) :=
  .refl (by rintro a ⟨⟩)

theorem Alike.of_ok {P : α → Prop} {a : α} (h : P a) : Alike P (.ok a : Except ε α) (.ok a) :=
  .refl (by rintro _ ⟨⟩; exact h)

/-- What is done with the result matters where there can be such a result only. -/
theorem Alike.bind {P : α → Prop} {R : β → Prop} {x y : Except ε α} {f g : α → Except ε β}
    (h : Alike P x y) (hf : ∀ a, P a → Alike R (f a) (g a)) : Alike R (x >>= f) (y >>= g) := by
  obtain ⟨rfl, hP⟩ := h
  cases x with
  | error e => exact .of_error e
  | ok a => exact hf a (hP a rfl)

end Except
