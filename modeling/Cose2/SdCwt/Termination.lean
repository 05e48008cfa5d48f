import Cose2.Recursion
import Cose2.SdCwt.IssuedRestore

/-! # Restoration terminates

`restore_value` calls itself on parts of its argument, and on disclosed values, which are
no parts of it: the hashes may well refer to each other in circles.  But a disclosure is
taken from the pending ones before its value is entered.  So the calls come to an end, as
far down as the value and the pending disclosures are large together, and this does not
depend on the limits.
-/
namespace Cose2.SdCwt

open Cbor

/-! ### The recursion of the source -/

section Step

variable (c : SdCbor2) (mode : RestoreMode)

/-- The body of `restore_value`, which calls itself as `next`. -/
def restoreStep (next : Value → Restoring → Nat → Except Error (Value × Restoring))
    (value : Value) (s : Restoring) (depth : Nat) : Except Error (Value × Restoring) := do
  let s ← s.enter depth
  match value with
  | .map entries => restoreMap c mode next depth entries s
  | .array items => restoreArray mode next depth items s
  | .tag tag inner =>
    if IsReservedTag tag then .error (misplacedTag tag)
    else
      let (inner, s) ← next inner s (depth + 1)
      return (.tag tag inner, s)
  | value =>
    if isRedactedClaimKeysLabel value then .error misplacedLabel else return (value, s)

/-- The levels only bound how often it calls itself. -/
theorem restoreValue_succ (levels : Nat) :
    restoreValue c mode (levels + 1) = restoreStep c mode (restoreValue c mode levels) := by
  funext value s depth
  rw [restoreValue.eq_def]
  rfl

/-- The arguments of `restore_value`. -/
abbrev RestoreCall := Value × Restoring × Nat

/-- `restore_value` as a function of what it calls itself as. -/
def restoreCall (f : RestoreCall → Except Error (Value × Restoring)) (call : RestoreCall) :
    Except Error (Value × Restoring) :=
  restoreStep c mode (fun value s depth => f (value, s, depth)) call.1 call.2.1 call.2.2

end Step

/-! ### What is left to restore -/

namespace Restoring

/-- The items of the values of the pending disclosures. -/
def pendingItems (s : Restoring) : Nat :=
  (s.pending.entries.entries.map fun e => e.2.valueItems).sum

/-- Disclosures are taken away only, and the limits stay. -/
structure Shrinks (s s' : Restoring) : Prop where
  pending : s'.pendingItems ≤ s.pendingItems
  limits : s'.budget.limits = s.budget.limits

theorem Shrinks.refl (s : Restoring) : Shrinks s s := ⟨Nat.le_refl _, rfl⟩

theorem Shrinks.trans {s s' s'' : Restoring} (h : Shrinks s s') (h' : Shrinks s' s'') :
    Shrinks s s'' := ⟨h'.pending.trans h.pending, h'.limits.trans h.limits⟩

theorem enter_shrinks {s s' : Restoring} {depth : Nat} (h : s.enter depth = .ok s') :
    Shrinks s s' := by
  obtain ⟨-, -, rfl⟩ := enter_ok.mp h
  rw [after_nil]
  exact ⟨Nat.le_refl _, rfl⟩

/-- Taking a disclosure away makes room for its value. -/
theorem pendingItems_remove {s : Restoring} {hash : Bytes} {d : Disclosure}
    (h : s.pending.entries.get hash = some d) :
    d.valueItems + (s.remove hash).pendingItems ≤ s.pendingItems :=
  BTreeMap.sum_remove_le Disclosure.valueItems h

end Restoring

/-! ### One call -/

section Loops

variable {c : SdCbor2} {mode : RestoreMode} {limits : ProcessingLimits} {depth bound : Nat}
  {next next' : Value → Restoring → Nat → Except Error (Value × Restoring)}
  (hnext : ∀ v (s : Restoring), items v + s.pendingItems ≤ bound → s.budget.limits = limits →
    Except.Alike (fun r => s.Shrinks r.2) (next v s (depth + 1)) (next' v s (depth + 1)))
include hnext

theorem restoreEntries_alike (es : List (Value × Value)) (saw : Bool) (keys : List Label)
    (s : Restoring) (hbound : items.itemsEntries es + s.pendingItems ≤ bound)
    (hlimits : s.budget.limits = limits) :
    Except.Alike (fun r => s.Shrinks r.2.2.2) (restoreEntries c next depth es saw keys s)
      (restoreEntries c next' depth es saw keys s) := by
  induction es generalizing saw keys s with
  | nil =>
    rw [restoreEntries, restoreEntries]
    exact .of_ok (.refl s)
  | cons e es ih =>
    obtain ⟨key, value⟩ := e
    rw [items.itemsEntries] at hbound
    rw [restoreEntries, restoreEntries]
    refine Except.Alike.bind (.refl fun _ => Restoring.enter_shrinks) ?_
    intro s₁ h₁
    have hp₁ := h₁.pending
    have hl₁ := h₁.limits.trans hlimits
    by_cases hkey : isRedactedClaimKeysLabel key = true
    · rw [if_pos hkey, if_pos hkey]
      refine Except.Alike.bind (P := fun _ => True) (.refl fun _ _ => trivial) fun _ _ => ?_
      refine Except.Alike.bind (P := fun r => r.2.limits = limits) (.refl ?_) ?_
      · rintro ⟨hashes, b⟩ hread
        obtain ⟨-, -, -, -, -, rfl⟩ := readRedactedKeys_ok.mp hread
        exact hl₁
      · rintro ⟨hashes, b⟩ hb
        have hstep : s.Shrinks { s₁ with budget := b } := ⟨hp₁, hb.trans hlimits.symm⟩
        have hp := hstep.pending
        refine (ih true keys { s₁ with budget := b } (by omega) hb).bind ?_
        rintro ⟨output, keys, hashes', s₂⟩ h₂
        exact .of_ok (hstep.trans h₂)
    · rw [if_neg hkey, if_neg hkey]
      refine Except.Alike.bind (P := fun _ => True) (.refl fun _ _ => trivial) fun label _ => ?_
      refine Except.Alike.bind (P := fun _ => True) (.refl fun _ _ => trivial) fun _ _ => ?_
      refine (hnext value s₁ (by omega) hl₁).bind ?_
      rintro ⟨value', s₂⟩ h₂
      have hp₂ : s₂.pendingItems ≤ s₁.pendingItems := h₂.pending
      refine (ih saw (label :: keys) s₂ (by omega) (h₂.limits.trans hl₁)).bind ?_
      rintro ⟨output, keys, hashes, s₃⟩ h₃
      exact .of_ok ((h₁.trans h₂).trans h₃)

theorem restoreHashes_alike (hs : List Bytes) (keys : List Label) (s : Restoring)
    (hbound : s.pendingItems ≤ bound) (hlimits : s.budget.limits = limits) :
    Except.Alike (fun r => s.Shrinks r.2.2) (restoreHashes mode next depth hs keys s)
      (restoreHashes mode next' depth hs keys s) := by
  induction hs generalizing keys s with
  | nil =>
    rw [restoreHashes, restoreHashes]
    exact .of_ok (.refl s)
  | cons hash hs ih =>
    rw [restoreHashes.eq_def mode next, restoreHashes.eq_def mode next']
    dsimp only
    cases hget : s.pending.entries.get hash with
    | none =>
      cases mode with
      | holder => exact .of_error _
      | verifier =>
        refine (ih keys s.countRemoved hbound hlimits).bind ?_
        rintro ⟨output, undisclosed, s₁⟩ h₁
        exact .of_ok ⟨h₁.pending, h₁.limits⟩
    | some d =>
      have hroom := Restoring.pendingItems_remove hget
      have htaken : s.Shrinks (s.remove hash) := ⟨by omega, rfl⟩
      dsimp only
      cases hkind : d.kind with
      | element => exact .of_error _
      | decoy salt =>
        obtain ⟨heq, hrest⟩ :=
          ih keys (s.remove hash).countDecoy (htaken.pending.trans hbound) hlimits
        exact ⟨heq, fun r hr => htaken.trans ⟨(hrest r hr).pending, (hrest r hr).limits⟩⟩
      | claim salt key value =>
        have hvalue : d.valueItems = items value := by
          rw [Disclosure.valueItems, hkind]
          rfl
        refine Except.Alike.bind (P := fun _ => True) (.refl fun _ _ => trivial) fun _ _ => ?_
        refine Except.Alike.bind (P := fun _ => True) (.refl fun _ _ => trivial) fun _ _ => ?_
        refine (hnext value (s.remove hash) (by omega) hlimits).bind ?_
        rintro ⟨value', s₁⟩ h₁
        have hs₁ := htaken.trans h₁
        refine (ih (key :: keys) s₁.countDisclosed (hs₁.pending.trans hbound)
          (hs₁.limits.trans hlimits)).bind ?_
        rintro ⟨output, undisclosed, s₂⟩ h₂
        exact .of_ok (hs₁.trans ⟨h₂.pending, h₂.limits⟩)

theorem restoreElement_alike (hash : Bytes) (s : Restoring) (hbound : s.pendingItems ≤ bound)
    (hlimits : s.budget.limits = limits) :
    Except.Alike (fun r => s.Shrinks r.2) (restoreElement mode next depth hash s)
      (restoreElement mode next' depth hash s) := by
  rw [restoreElement.eq_def, restoreElement.eq_def]
  dsimp only
  cases hget : s.pending.entries.get hash with
  | none =>
    cases mode with
    | holder => exact .of_error _
    | verifier => exact .of_ok ⟨Nat.le_refl _, rfl⟩
  | some d =>
    have hroom := Restoring.pendingItems_remove hget
    have htaken : s.Shrinks (s.remove hash) := ⟨by omega, rfl⟩
    dsimp only
    cases hkind : d.kind with
    | claim => exact .of_error _
    | decoy => exact .of_ok ⟨htaken.pending, rfl⟩
    | element salt value =>
      have hvalue : d.valueItems = items value := by
        rw [Disclosure.valueItems, hkind]
        rfl
      refine (hnext value (s.remove hash) (by omega) hlimits).bind ?_
      rintro ⟨value', s₁⟩ h₁
      have hs₁ := htaken.trans h₁
      exact .of_ok ⟨hs₁.pending, hs₁.limits⟩

theorem restoreItem_alike (item : Value) (s : Restoring)
    (hbound : items item + s.pendingItems ≤ bound) (hlimits : s.budget.limits = limits) :
    Except.Alike (fun r => s.Shrinks r.2) (restoreItem mode next depth item s)
      (restoreItem mode next' depth item s) := by
  rw [restoreItem, restoreItem]
  cases redactedInner item with
  | none =>
    refine (hnext item s hbound hlimits).bind ?_
    rintro ⟨value, s₁⟩ h₁
    exact .of_ok h₁
  | some inner =>
    refine Except.Alike.bind (.refl fun _ => Restoring.enter_shrinks) fun s₁ h₁ => ?_
    refine Except.Alike.bind (.refl fun _ => Restoring.enter_shrinks) fun s₂ h₂ => ?_
    refine Except.Alike.bind (P := fun _ => True) (.refl fun _ _ => trivial) fun hash _ => ?_
    have hs₂ := h₁.trans h₂
    have hp₂ := hs₂.pending
    obtain ⟨heq, hrest⟩ := @restoreElement_alike mode limits depth bound next next' hnext hash s₂
      (by omega) (hs₂.limits.trans hlimits)
    exact ⟨heq, fun r hr => hs₂.trans (hrest r hr)⟩

theorem restoreItems_alike (vs : List Value) (s : Restoring)
    (hbound : items.itemsAll vs + s.pendingItems ≤ bound) (hlimits : s.budget.limits = limits) :
    Except.Alike (fun r => s.Shrinks r.2) (restoreItems mode next depth vs s)
      (restoreItems mode next' depth vs s) := by
  induction vs generalizing s with
  | nil =>
    rw [restoreItems, restoreItems]
    exact .of_ok (.refl s)
  | cons v vs ih =>
    rw [items.itemsAll] at hbound
    rw [restoreItems, restoreItems]
    refine (restoreItem_alike hnext v s (by omega) hlimits).bind ?_
    rintro ⟨output, s₁⟩ h₁
    have hp₁ : s₁.pendingItems ≤ s.pendingItems := h₁.pending
    refine (ih s₁ (by omega) (h₁.limits.trans hlimits)).bind ?_
    rintro ⟨rest, s₂⟩ h₂
    exact .of_ok (h₁.trans h₂)

/-- **One call depends on smaller calls only**, within the same limits and one level
further down. -/
theorem restoreStep_alike (value : Value) (s : Restoring)
    (hbound : items value + s.pendingItems ≤ bound + 1) (hlimits : s.budget.limits = limits) :
    Except.Alike (fun r => s.Shrinks r.2) (restoreStep c mode next value s depth)
      (restoreStep c mode next' value s depth) := by
  rw [restoreStep, restoreStep]
  refine Except.Alike.bind (.refl fun _ => Restoring.enter_shrinks) fun s₁ h₁ => ?_
  have hp₁ := h₁.pending
  have hl₁ := h₁.limits.trans hlimits
  cases value with
  | map es =>
    rw [items] at hbound
    dsimp only
    rw [restoreMap, restoreMap]
    refine Except.Alike.bind (P := fun _ => True) (.refl fun _ _ => trivial) fun _ _ => ?_
    refine (restoreEntries_alike hnext es false [] s₁ (by omega) hl₁).bind ?_
    rintro ⟨output, keys, hashes, s₂⟩ h₂
    have hs₂ := h₁.trans h₂
    have hp₂ : s₂.pendingItems ≤ s.pendingItems := hs₂.pending
    refine (restoreHashes_alike hnext hashes keys s₂ (by omega) (hs₂.limits.trans hlimits)).bind ?_
    rintro ⟨disclosed, undisclosed, s₃⟩ h₃
    exact .of_ok (hs₂.trans h₃)
  | array vs =>
    rw [items] at hbound
    dsimp only
    rw [restoreArray, restoreArray]
    refine Except.Alike.bind (P := fun _ => True) (.refl fun _ _ => trivial) fun _ _ => ?_
    refine (restoreItems_alike hnext vs s₁ (by omega) hl₁).bind ?_
    rintro ⟨output, s₂⟩ h₂
    exact .of_ok (h₁.trans h₂)
  | tag t inner =>
    rw [items] at hbound
    dsimp only
    by_cases ht : IsReservedTag t
    · rw [if_pos ht, if_pos ht]
      exact .of_error _
    · rw [if_neg ht, if_neg ht]
      refine (hnext inner s₁ (by omega) hl₁).bind ?_
      rintro ⟨inner', s₂⟩ h₂
      exact .of_ok (h₁.trans h₂)
  | integer | bytes | text | float | bool | null | simple =>
    dsimp only
    split_ifs
    · exact .of_error _
    · exact .of_ok h₁

end Loops

/-! ### All calls -/

/-- How many items a call may come upon. -/
def RestoreCall.size (call : RestoreCall) : Nat := items call.1 + call.2.1.pendingItems

/-- The result leaves no more disclosures pending. -/
def RestoreCall.Keeps (call : RestoreCall) (result : Except Error (Value × Restoring)) : Prop :=
  ∀ r, result = .ok r → call.2.1.Shrinks r.2

variable (c : SdCbor2) (mode : RestoreMode)

/-- The calls go to smaller arguments, among which a disclosed value counts once it is no
longer pending. -/
theorem restoreCall_descends :
    Recursion.Descends (restoreCall c mode) RestoreCall.size RestoreCall.Keeps := by
  rintro f g ⟨value, s, depth⟩ h
  have hpos := items_pos value
  have hnext (v : Value) (s' : Restoring)
      (hbound : items v + s'.pendingItems ≤ items value + s.pendingItems - 1)
      (_ : s'.budget.limits = s.budget.limits) :
      Except.Alike (fun r => s'.Shrinks r.2) (f (v, s', depth + 1)) (g (v, s', depth + 1)) := by
    refine h (v, s', depth + 1) ?_
    show items v + s'.pendingItems < items value + s.pendingItems
    omega
  exact restoreStep_alike hnext value s (by omega) rfl

/-- Counting the levels makes no difference: where they end, the value is too deep. -/
theorem restoreValue_eq_solve (f : RestoreCall → Except Error (Value × Restoring))
    {levels depth : Nat} (value : Value) (s : Restoring)
    (hlevels : levels + depth = s.budget.limits.maxDepth + 1) :
    restoreValue c mode levels value s depth =
      Recursion.solve (restoreCall c mode) RestoreCall.size f (value, s, depth) := by
  induction levels generalizing depth value s with
  | zero =>
    have hdeep : s.budget.limits.maxDepth < depth := by omega
    rw [(restoreCall_descends c mode).solve_eq, restoreCall]
    dsimp only
    rw [restoreValue, restoreStep, Restoring.enter, TraversalBudget.enter, Except.failIf,
      if_pos hdeep]
    rfl
  | succ levels ih =>
    have hdescends := restoreCall_descends c mode
    rw [hdescends.solve_eq, restoreValue_succ]
    have hnext (v : Value) (s' : Restoring)
        (_ : items v + s'.pendingItems ≤ items value + s.pendingItems)
        (hlimits : s'.budget.limits = s.budget.limits) :
        Except.Alike (fun r => s'.Shrinks r.2) (restoreValue c mode levels v s' (depth + 1))
          (Recursion.solve (restoreCall c mode) RestoreCall.size f (v, s', depth + 1)) := by
      have hnested : levels + (depth + 1) = s'.budget.limits.maxDepth + 1 := by
        rw [hlimits]
        omega
      rw [ih v s' hnested]
      exact .refl (hdescends.solve_keeps f (v, s', depth + 1))
    exact (restoreStep_alike hnext value s (Nat.le_succ _) rfl).1

/-- **Restoration terminates**: its calls are nested no deeper than the value and the
pending disclosures have items, whatever the limits and however the hashes refer to each
other. -/
theorem restoreRoot_terminates (value : Value) (s : Restoring) {n : Nat}
    (hn : items value + s.pendingItems < n) (f : RestoreCall → Except Error (Value × Restoring)) :
    restoreRoot c mode value s = (restoreCall c mode)^[n] f (value, s, 0) := by
  rw [restoreRoot, restoreValue_eq_solve c mode f value s (Nat.add_zero _)]
  exact ((restoreCall_descends c mode).unrolled_eq_solve hn f f).symm

end Cose2.SdCwt
