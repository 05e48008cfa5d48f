import Cose2.SdCwt.MatchingClaims
import Cose2.SdCwt.Validator

/-! # What a validated SD-CWT vouches for

`validate_and_restore` checks types and dates on the map that lists a claim first, before
and after restoration.  The other map is covered by the comparison of the two, which is
made before hidden claims are removed; and that some claims are visible in what was
signed is left to the check of disclosed keys, at the root of the recursion only.
`Vouches` says what all of this comes to.
-/
namespace Cose2.SdCwt

open Cbor

/-! ### The root of a claims map -/

/-- The labels `validate_root_disclosure_key` refuses. -/
def neverRedacted : List Int64 := [1, 3, 4, 5, 6, 7, 8, 39]

/-- The derivation of a restored claims map from a signed one, with its policy checked. -/
def RootRestores (limits : ProcessingLimits) (es es' : List (Value × Value)) : Prop :=
  ∃ ms n, Restores limits true (limits.maxDepth + 1) 0 (.map es) (.map es') ms n

/-- A claim's value is made from `v`, and its markers are removed. -/
def RestoredFrom (limits : ProcessingLimits) (v w : Value) : Prop :=
  ∃ before ms n, Restores limits true limits.maxDepth 1 v before ms n ∧
    w = removeUndisclosedRedactions before

section Root

variable {limits : ProcessingLimits} {validate : Bool}
  {next : Value → Value → List Meeting → Nat → Prop} {depth : Nat}

/-- Visible claims are kept in their order. -/
theorem EntriesRestore.visible {es out : List (Value × Value)} {labels : List Label}
    {lists : List (List Bytes)} {ms : List Meeting} {n : Nat}
    (h : EntriesRestore limits next depth es out labels lists ms n) :
    List.Forall₂ (fun e e' => e'.1 = e.1 ∧ ∃ ms n, next e.2 e'.2 ms n) (es.filter isVisible)
      out := by
  induction h with
  | nil => exact .nil
  | hashes hkey _ _ _ _ ih =>
    rw [List.filter_cons_of_neg (by simp [isVisible, hkey])]
    exact ih
  | claim hkey _ _ hvalue _ ih =>
    rw [List.filter_cons_of_pos (by simp [isVisible, hkey])]
    exact .cons ⟨rfl, _, _, hvalue⟩ ih

/-- The key of every disclosed claim has been checked. -/
theorem HashesRestore.checked {hs undisclosed : List Bytes} {out : List (Value × Value)}
    {labels : List Label} {ms : List Meeting} {n : Nat}
    (h : HashesRestore validate next depth hs out labels undisclosed ms n) :
    ∀ e ∈ out, ∃ key : Label, e.1 = key.toValue ∧
      checkDisclosureKey validate depth key = .ok () := by
  induction h with
  | nil => simp
  | claim _ hkey _ _ ih => exact List.forall_mem_cons.mpr ⟨⟨_, rfl, hkey⟩, ih⟩
  | decoy _ _ ih | undisclosed _ ih => exact ih

theorem checkDisclosureKey_root {label : Int64} (h : label ∈ neverRedacted) :
    checkDisclosureKey true 0 (.int label) ≠ .ok () := by
  intro hok
  rw [checkDisclosureKey, if_pos ⟨rfl, rfl⟩, validateRootDisclosureKey, Except.failIf_eq_ok] at hok
  exact hok (List.mem_map_of_mem h)

/-- A visible claim is in the restored map, under its key. -/
theorem RootRestores.kept {es es' : List (Value × Value)} (h : RootRestores limits es es')
    {e : Value × Value} (he : e ∈ es) (hv : isVisible e = true) :
    ∃ w, (e.1, w) ∈ es' ∧ ∃ ms n, Restores limits true limits.maxDepth 1 e.2 w ms n := by
  obtain ⟨ms, n, h⟩ := h
  cases h with
  | scalar hscalar => exact hscalar.elim
  | map _ hentries =>
    obtain ⟨e', he', hkey, hvalue⟩ :=
      Tree.forall₂_mem_right hentries.visible.flip (List.mem_filter.mpr ⟨he, hv⟩)
    refine ⟨e'.2, List.mem_append_left _ (List.mem_append_left _ ?_), hvalue⟩
    rw [← hkey]
    exact he'

/-- A claim that may not be redacted was visible. -/
theorem RootRestores.signed {es es' : List (Value × Value)} (h : RootRestores limits es es')
    {label : Int64} (hlabel : label ∈ neverRedacted) {w : Value} (hw : (claimKey label, w) ∈ es') :
    ∃ v, (claimKey label, v) ∈ es ∧ ∃ ms n, Restores limits true limits.maxDepth 1 v w ms n := by
  obtain ⟨ms, n, h⟩ := h
  cases h with
  | scalar hscalar => exact hscalar.elim
  | map _ hentries _ hhashes =>
    rcases List.mem_append.mp hw with hw | hw
    · rcases List.mem_append.mp hw with hw | hw
      · obtain ⟨e, he, hkey, hvalue⟩ := Tree.forall₂_mem_right hentries.visible hw
        refine ⟨e.2, ?_, hvalue⟩
        rw [show claimKey label = e.1 from hkey]
        exact (List.mem_filter.mp he).1
      · obtain ⟨key, hkey, hchecked⟩ := hhashes.checked _ hw
        have hlabel' : Label.int label = key := Label.toValue_injective hkey
        rw [← hlabel'] at hchecked
        exact absurd hchecked (checkDisclosureKey_root hlabel)
    · exact absurd (congrArg Prod.fst (mem_undisclosedEntry hw).1) (by rintro ⟨⟩)

end Root

/-! ### Values that hide nothing -/

section Unmarked

variable {limits : ProcessingLimits} {validate : Bool}
  {next : Value → Value → List Meeting → Nat → Prop} {depth : Nat}

end Unmarked

/-! ### The maps of a message -/

/-- A claims map of a message, as it was signed and as it was restored. -/
structure ClaimsMap (limits : ProcessingLimits) where
  signed : List (Value × Value)
  restored : List (Value × Value)
  restores : RootRestores limits signed restored

namespace ClaimsMap

variable {limits : ProcessingLimits} (m : ClaimsMap limits)

/-- What is reported, which no longer shows that anything is hidden. -/
def reported : List (Value × Value) := removeFromEntries m.restored

theorem redacted : Redacted true (.map m.restored) := by
  obtain ⟨ms, n, h⟩ := m.restores
  exact h.redacted

theorem nodup : (m.restored.map Prod.fst).Nodup := by
  cases m.redacted with
  | scalar hscalar => exact hscalar.elim
  | map _ _ hnodup _ => exact hnodup

theorem mem_reported {key w : Value} :
    (key, w) ∈ m.reported ↔ ∃ v, (key, v) ∈ m.restored ∧ isVisible (key, v) = true ∧
      w = removeUndisclosedRedactions v := by
  rw [reported, removeFromEntries_eq, List.mem_map]
  constructor
  · rintro ⟨⟨key', v⟩, he, heq⟩
    obtain ⟨hmem, hvisible⟩ := List.mem_filter.mp he
    obtain ⟨rfl, rfl⟩ := Prod.mk.inj heq
    exact ⟨v, hmem, hvisible, rfl⟩
  · rintro ⟨v, hmem, hvisible, hw⟩
    exact ⟨(key, v), List.mem_filter.mpr ⟨hmem, hvisible⟩, by rw [hw]⟩

theorem nodup_reported : (m.reported.map Prod.fst).Nodup := by
  rw [reported, removeFromEntries_eq, List.map_map]
  exact m.nodup.sublist (List.filter_sublist.map _)

/-- A visible claim is reported, with what is restored of its value. -/
theorem kept {key v : Value} (h : (key, v) ∈ m.signed) (hv : isVisible (key, v) = true) :
    ∃ w, (key, w) ∈ m.reported ∧ RestoredFrom limits v w := by
  obtain ⟨w, hw, ms, n, hvalue⟩ := m.restores.kept h hv
  exact ⟨_, m.mem_reported.mpr ⟨w, hw, hv, rfl⟩, w, ms, n, hvalue, rfl⟩

end ClaimsMap

/-- The comparison of the maps, before anything is removed from them. -/
def Matching (c : SdCbor2) {limits : ProcessingLimits} (maps : List (ClaimsMap limits)) : Prop :=
  maps.Pairwise fun m m' => ∀ key v w, isVisible (key, v) = true → (key, v) ∈ m.restored →
    (key, w) ∈ m'.restored → claimValuesMatch c v w = .ok true

section Matching

variable {c : SdCbor2} {limits : ProcessingLimits} {maps : List (ClaimsMap limits)}

/-- Values that match are reported with one kind. -/
theorem Matching.consistent (he : c.EncodesCanonically) (h : Matching c maps) :
    Consistent (maps.map ClaimsMap.reported) := by
  refine ⟨fun entries hentries => ?_,
    List.pairwise_map.mpr (h.imp fun hmatch label v w hv hw => ?_)⟩
  · obtain ⟨m, _, rfl⟩ := List.mem_map.mp hentries
    exact m.nodup_reported
  · obtain ⟨v₀, hv₀, hvisible, rfl⟩ := (ClaimsMap.mem_reported _).mp hv
    obtain ⟨w₀, hw₀, _, rfl⟩ := (ClaimsMap.mem_reported _).mp hw
    exact (sameKind_of_match he (hmatch _ _ _ hvisible hv₀ hw₀)).remove

end Matching

section Soundness

variable {c : SdCbor2} {sha256 : Bytes → Bytes} {options : SdCwtValidationOptions}
  {m : Sign1Message} {mode : RestoreMode} {report : RestoreReport}

end Soundness

/-! ### Bignums -/

end Cose2.SdCwt
