import Cose2.Cbor.Except

/-! # Counted and terminated repetition

A reader of a length-prefixed format repeats one step either a given number of
times or until a terminator shows up.  This file has the two loops over an
arbitrary state, and reads a finished loop back as a `Run`: the list of results
together with the states in between.
-/
namespace Cbor

variable {σ α β ε : Type}

/-- Repeats `step` exactly `n` times and collects what it returns. -/
def repeatN (step : σ → Except ε (α × σ)) : Nat → σ → Except ε (List α × σ)
  | 0, s => .ok ([], s)
  | n + 1, s => do
    let (a, s) ← step s
    let (as, s) ← repeatN step n s
    return (a :: as, s)

/-- Repeats `step` until `stop` fires; `stop` returns the state behind the
terminator.  The last argument bounds the number of rounds, and `outOfFuel` is
returned when it is used up. -/
def untilStop (stop : σ → Option σ) (step : σ → Except ε (α × σ)) (outOfFuel : ε) :
    Nat → σ → Except ε (List α × σ)
  | 0, _ => .error outOfFuel
  | n + 1, s =>
    match stop s with
    | some s => .ok ([], s)
    | none => do
      let (a, s) ← step s
      let (as, s) ← untilStop stop step outOfFuel n s
      return (a :: as, s)

/-- `Run R s as s'`: one `R`-step for each member of `as` leads from `s` to `s'`. -/
inductive Run (R : σ → α → σ → Prop) : σ → List α → σ → Prop where
  | nil (s : σ) : Run R s [] s
  | cons {s s' s'' : σ} {a : α} {as : List α} (h : R s a s') (hs : Run R s' as s'') :
      Run R s (a :: as) s''

namespace Run

variable {R : σ → α → σ → Prop}

@[simp] theorem nil_iff {s s' : σ} : Run R s [] s' ↔ s = s' := by
  constructor
  · intro h
    cases h
    rfl
  · rintro rfl
    exact .nil s

@[simp] theorem cons_iff {s s'' : σ} {a : α} {as : List α} :
    Run R s (a :: as) s'' ↔ ∃ s', R s a s' ∧ Run R s' as s'' := by
  constructor
  · intro h
    cases h with
    | cons h hs => exact ⟨_, h, hs⟩
  · rintro ⟨s', h, hs⟩
    exact .cons h hs

/-- A measure that every step lowers bounds the number of steps. -/
theorem length_add_le {m : σ → Nat} (hR : ∀ s a s', R s a s' → m s' < m s) {s s' : σ}
    {as : List α} (h : Run R s as s') : as.length + m s' ≤ m s := by
  induction h with
  | nil s => simp
  | cons h _ ih =>
    have := hR _ _ _ h
    rw [List.length_cons]
    omega

end Run

theorem repeatN_ok {step : σ → Except ε (α × σ)} {n : Nat} {s s' : σ} {as : List α} :
    repeatN step n s = .ok (as, s') ↔
      as.length = n ∧ Run (fun s a s' => step s = .ok (a, s')) s as s' := by
  induction n generalizing s as s' with
  | zero =>
    cases as with
    | nil => simp [repeatN]
    | cons a as => simp [repeatN]
  | succ n ih =>
    simp only [repeatN, Except.bind_eq_ok, Except.pure_eq_ok, Prod.exists, ih]
    constructor
    · rintro ⟨a, m, hstep, as', s'', ⟨hlen, hrun⟩, h⟩
      cases h
      exact ⟨by rw [List.length_cons, hlen], .cons hstep hrun⟩
    · rintro ⟨hlen, hrun⟩
      cases hrun with
      | nil => simp at hlen
      | cons h hs => exact ⟨_, _, h, _, _, ⟨by simpa using hlen, hs⟩, rfl⟩

theorem untilStop_ok {stop : σ → Option σ} {step : σ → Except ε (α × σ)} {e : ε} {n : Nat}
    {s s'' : σ} {as : List α} :
    untilStop stop step e n s = .ok (as, s'') ↔ as.length < n ∧
      ∃ s', Run (fun s a s' => stop s = none ∧ step s = .ok (a, s')) s as s' ∧
        stop s' = some s'' := by
  induction n generalizing s as s'' with
  | zero => simp [untilStop]
  | succ n ih =>
    rw [untilStop]
    cases hstop : stop s with
    | some t =>
      constructor
      · intro h
        cases h
        exact ⟨by simp, s, .nil s, hstop⟩
      · rintro ⟨-, s', hrun, hs'⟩
        cases hrun with
        | nil => rw [hstop] at hs'; cases hs'; rfl
        | cons h _ => rw [hstop] at h; cases h.1
    | none =>
      simp only [Except.bind_eq_ok, Except.pure_eq_ok, Prod.exists, ih]
      constructor
      · rintro ⟨a, m, hstep, as', t, ⟨hlen, s', hrun, hs'⟩, h⟩
        cases h
        exact ⟨by simpa using hlen, s', .cons ⟨hstop, hstep⟩ hrun, hs'⟩
      · rintro ⟨hlen, s', hrun, hs'⟩
        cases hrun with
        | nil => rw [hstop] at hs'; cases hs'
        | cons h hs =>
          exact ⟨_, _, h.2, _, _, ⟨by simpa using hlen, s', hs, hs'⟩, rfl⟩

/-! ### The loop without a bound -/

/-- `Ends stop step s r`: the loop that repeats `step` until `stop` fires, with no bound on
its rounds, comes to an end from `s`, and with `r`. -/
inductive Ends (stop : σ → Option σ) (step : σ → Except ε (α × σ)) :
    σ → Except ε (List α × σ) → Prop where
  | stop {s s' : σ} (h : stop s = some s') : Ends stop step s (.ok ([], s'))
  | fail {s : σ} {e : ε} (h : stop s = none) (he : step s = .error e) :
    Ends stop step s (.error e)
  | next {s s' : σ} {a : α} {r : Except ε (List α × σ)} (h : stop s = none)
      (hs : step s = .ok (a, s')) (hr : Ends stop step s' r) :
    Ends stop step s (r.map fun p => (a :: p.1, p.2))

/-- A loop whose rounds lower a measure ends, and more rounds than the measure allows are
never asked for: `untilStop` does not return `outOfFuel`, whatever that is. -/
theorem ends_untilStop {stop : σ → Option σ} {step : σ → Except ε (α × σ)} {m : σ → Nat}
    (hm : ∀ s a s', step s = .ok (a, s') → m s' < m s) (outOfFuel : ε) {n : Nat} {s : σ}
    (hn : m s < n) : Ends stop step s (untilStop stop step outOfFuel n s) := by
  induction n generalizing s with
  | zero => omega
  | succ n ih =>
    rw [untilStop]
    cases hstop : stop s with
    | some s' => exact .stop hstop
    | none =>
      cases hstep : step s with
      | error e => exact .fail hstop hstep
      | ok p =>
        obtain ⟨a, s'⟩ := p
        have hlt := hm s a s' hstep
        have hrest := Ends.next hstop hstep (ih (s := s') (by omega))
        show Ends stop step s (untilStop stop step outOfFuel n s' >>= fun p =>
          .ok (a :: p.1, p.2))
        cases hr : untilStop stop step outOfFuel n s' with
        | error e =>
          rw [hr] at hrest
          exact hrest
        | ok p =>
          rw [hr] at hrest
          exact hrest

end Cbor
