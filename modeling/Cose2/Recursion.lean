import Mathlib.Logic.Function.Iterate

/-! # Recursion to smaller arguments

A recursive program is a function `F` of what it calls itself as, and `F^[n] f` is the
program with its calls unrolled `n` times, where `f` answers the calls nested deeper than
that.  When `F` calls itself at smaller arguments only, the unrolling comes to an end: from
some `n` on, no call is left to `f`.  Where it calls itself may depend on the results of
earlier calls, so these are required to keep a postcondition `Q`.
-/
namespace Recursion

variable {α β : Type}

/-- What `F` makes of an argument depends on its calls at smaller arguments only, and keeps
the postcondition if they do. -/
def Descends (F : (α → β) → α → β) (size : α → Nat) (Q : α → β → Prop) : Prop :=
  ∀ (f g : α → β) (a : α),
    (∀ a', size a' < size a → f a' = g a' ∧ Q a' (f a')) → F f a = F g a ∧ Q a (F f a)

/-- The program, its calls unrolled as often as the argument is large. -/
def solve (F : (α → β) → α → β) (size : α → Nat) (f : α → β) (a : α) : β :=
  F^[size a + 1] f a

variable {F : (α → β) → α → β} {size : α → Nat} {Q : α → β → Prop}

/-- Enough unrollings give the same result, whatever the calls left over would do. -/
theorem Descends.unrolled (h : Descends F size Q) {n m : Nat} {a : α} (hn : size a < n)
    (hm : size a < m) (f g : α → β) : F^[n] f a = F^[m] g a ∧ Q a (F^[n] f a) := by
  induction n generalizing m a with
  | zero => exact absurd hn (Nat.not_lt_zero _)
  | succ n ih =>
    cases m with
    | zero => exact absurd hm (Nat.not_lt_zero _)
    | succ m =>
      rw [Function.iterate_succ_apply', Function.iterate_succ_apply']
      exact h _ _ a fun a' ha' => ih (by omega) (by omega)

theorem Descends.unrolled_eq_solve (h : Descends F size Q) {n : Nat} {a : α} (hn : size a < n)
    (f g : α → β) : F^[n] f a = solve F size g a :=
  (h.unrolled hn (Nat.lt_succ_self _) f g).1

theorem Descends.solve_keeps (h : Descends F size Q) (f : α → β) (a : α) :
    Q a (solve F size f a) :=
  (h.unrolled (Nat.lt_succ_self _) (Nat.lt_succ_self _) f f).2

/-- The unrolled program is a solution of the recursion. -/
theorem Descends.solve_eq (h : Descends F size Q) (f : α → β) (a : α) :
    solve F size f a = F (solve F size f) a := by
  rw [solve, Function.iterate_succ_apply']
  refine (h _ _ a fun a' ha' => ?_).1
  have hsame := h.unrolled ha' (Nat.lt_succ_self _) f f
  exact hsame

end Recursion
