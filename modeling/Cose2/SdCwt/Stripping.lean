import Cose2.SdCwt.Accounting

/-! # Stripping the markers that were kept

When claims are validated, the markers without a disclosure stay in the restored values
until the claims have been compared, and are stripped then.  The walk that keeps them
and the one that drops them meet the same markers (`Restores.strips`), so that stripping
gives what dropping them gives at once.
-/
namespace Cose2.SdCwt

open Cbor

theorem removeFromEntries_append (es es' : List (Value × Value)) :
    removeFromEntries (es ++ es') = removeFromEntries es ++ removeFromEntries es' := by
  induction es with
  | nil => rfl
  | cons e es ih =>
    obtain ⟨key, value⟩ := e
    rw [List.cons_append, removeFromEntries, removeFromEntries, ih]
    by_cases hkey : isRedactedClaimKeysLabel key = true
    · rw [if_pos hkey, if_pos hkey]
    · rw [if_neg hkey, if_neg hkey, List.cons_append]

theorem removeFromItems_append (vs vs' : List Value) :
    removeFromItems (vs ++ vs') = removeFromItems vs ++ removeFromItems vs' := by
  induction vs with
  | nil => rfl
  | cons v vs ih =>
    rw [List.cons_append, removeFromItems, removeFromItems, ih]
    by_cases hv : isRedactedElement v = true
    · rw [if_pos hv, if_pos hv]
    · rw [if_neg hv, if_neg hv, List.cons_append]

/-- What was kept in a map is stripped as one entry. -/
theorem removeFromEntries_undisclosedEntry (hashes : List Bytes) :
    removeFromEntries (undisclosedEntry hashes) = [] := by
  cases hashes with
  | nil => rfl
  | cons => rfl

theorem removeFromEntries_cons {key value : Value} (h : isRedactedClaimKeysLabel key = false)
    (es : List (Value × Value)) :
    removeFromEntries ((key, value) :: es) =
      (key, removeUndisclosedRedactions value) :: removeFromEntries es := by
  rw [removeFromEntries, if_neg (Bool.eq_false_iff.mp h)]

theorem removeFromItems_singleton {v : Value} (h : isRedactedElement v = false) :
    removeFromItems [v] = [removeUndisclosedRedactions v] := by
  rw [removeFromItems, if_neg (Bool.eq_false_iff.mp h), removeFromItems]

theorem IsScalar.removeUndisclosedRedactions {v : Value} (h : IsScalar v) :
    removeUndisclosedRedactions v = v := by
  cases v with
  | map | array | tag => exact h.elim
  | integer | bytes | text | float | bool | null | simple =>
    simp [SdCwt.removeUndisclosedRedactions]

/-- Without the policy, any claim can be disclosed. -/
theorem checkDisclosureKey_unchecked (depth : Nat) (key : Label) :
    checkDisclosureKey false depth key = .ok () := by
  rw [checkDisclosureKey, if_neg]
  rintro ⟨⟨⟩, -⟩

section Walk

variable {limits : ProcessingLimits} {depth : Nat}
  {next next' : Value → Value → List Meeting → Nat → Prop}
  (hnext : ∀ v v' ms n, next v v' ms n →
    isRedactedElement v' = false ∧ next' v (removeUndisclosedRedactions v') ms n)
include hnext

theorem EntriesRestore.strips {es out : List (Value × Value)} {labels : List Label}
    {lists : List (List Bytes)} {ms : List Meeting} {n : Nat}
    (h : EntriesRestore limits next depth es out labels lists ms n) :
    EntriesRestore limits next' depth es (removeFromEntries out) labels lists ms n := by
  induction h with
  | nil => exact .nil
  | hashes hkey hdepth hlength hdeep _ ih => exact .hashes hkey hdepth hlength hdeep ih
  | claim hkey hlabel hdepth hvalue _ ih =>
    rw [removeFromEntries_cons hkey]
    exact .claim hkey hlabel hdepth (hnext _ _ _ _ hvalue).2 ih

theorem HashesRestore.strips {hs undisclosed : List Bytes} {out : List (Value × Value)}
    {labels : List Label} {ms : List Meeting} {n : Nat}
    (h : HashesRestore true next depth hs out labels undisclosed ms n) :
    HashesRestore false next' depth hs (removeFromEntries out) labels [] ms n := by
  induction h with
  | nil => exact .nil
  | @claim _ _ _ key _ _ _ _ _ _ _ _ _ _ hkind _ hvalue _ ih =>
    have hlabel : isRedactedClaimKeysLabel key.toValue = false := by
      cases key with
      | int | text => rfl
    rw [removeFromEntries_cons hlabel]
    exact .claim hkind (checkDisclosureKey_unchecked depth key) (hnext _ _ _ _ hvalue).2 ih
  | decoy hkind _ ih => exact .decoy hkind ih
  | undisclosed _ ih => exact .undisclosed ih

theorem ItemRestores.strips {item : Value} {out : List Value} {ms : List Meeting} {n : Nat}
    (h : ItemRestores limits true next depth item out ms n) :
    ItemRestores limits false next' depth item (removeFromItems out) ms n := by
  cases h with
  | keep hkeep hvalue =>
    obtain ⟨hout, hstrip⟩ := hnext _ _ _ _ hvalue
    rw [removeFromItems_singleton hout]
    exact .keep hkeep hstrip
  | disclosed hdepth hkind hvalue =>
    obtain ⟨hout, hstrip⟩ := hnext _ _ _ _ hvalue
    rw [removeFromItems_singleton hout]
    exact .disclosed hdepth hkind hstrip
  | decoy hdepth hkind => exact .decoy hdepth hkind
  | undisclosed hdepth => exact .undisclosed hdepth

theorem ItemsRestore.strips {vs out : List Value} {ms : List Meeting} {n : Nat}
    (h : ItemsRestore limits true next depth vs out ms n) :
    ItemsRestore limits false next' depth vs (removeFromItems out) ms n := by
  induction h with
  | nil => exact .nil
  | cons hitem _ ih =>
    rw [removeFromItems_append]
    exact .cons (hitem.strips hnext) ih

theorem ValueRestores.strips {v v' : Value} {ms : List Meeting} {n : Nat}
    (h : ValueRestores limits true next depth v v' ms n) :
    ValueRestores limits false next' depth v (removeUndisclosedRedactions v') ms n := by
  cases h with
  | map hlength hentries hlists hhashes hnodup =>
    rw [removeUndisclosedRedactions, removeFromEntries_append, removeFromEntries_append,
      removeFromEntries_undisclosedEntry]
    exact .map hlength (hentries.strips hnext) hlists (hhashes.strips hnext) hnodup
  | array hlength hitems =>
    rw [removeUndisclosedRedactions]
    exact .array hlength (hitems.strips hnext)
  | tag ht hvalue =>
    rw [removeUndisclosedRedactions]
    exact .tag ht (hnext _ _ _ _ hvalue).2
  | scalar hscalar hlabel =>
    rw [hscalar.removeUndisclosedRedactions]
    exact .scalar hscalar hlabel

end Walk

variable {limits : ProcessingLimits}

/-- **Stripping the kept markers from what was restored gives what is restored without
keeping them**, past the same markers and over as many items. -/
theorem Restores.strips {levels depth : Nat} {v v' : Value} {ms : List Meeting} {n : Nat}
    (h : Restores limits true levels depth v v' ms n) :
    Restores limits false levels depth v (removeUndisclosedRedactions v') ms n := by
  induction levels generalizing depth v v' ms n with
  | zero => exact h.elim
  | succ levels ih =>
    exact ValueRestores.strips (fun _ _ _ _ h => ⟨h.redacted.not_redacted, ih h⟩) h

theorem OptionRestores.strips {claims claims' : Option Value} {ms : List Meeting} {n : Nat}
    (h : OptionRestores limits true claims claims' ms n) :
    OptionRestores limits false claims (claims'.map removeUndisclosedRedactions) ms n := by
  cases h with
  | absent => exact .absent
  | present h => exact .present h.strips

/-- The report with the kept markers stripped from both maps. -/
def RestoreReport.stripped (report : RestoreReport) : RestoreReport :=
  { report with
    value := removeUndisclosedRedactions report.value
    protectedClaims := report.protectedClaims.map removeUndisclosedRedactions }

variable {mode : RestoreMode} {value : Value} {protectedClaims : Option Value}
  {hasher : RedactionHasher} {ds : List Disclosure} {report : RestoreReport}

theorem Presented.strips {ms : List Meeting} {n : Nat}
    (h : Presented mode limits true value protectedClaims hasher ds report ms n) :
    Presented mode limits false value protectedClaims hasher ds report.stripped ms n := by
  obtain ⟨ms₁, ms₂, n₁, n₂, hms, hn, hoption, hrestores⟩ := h.restores
  exact ⟨h.loads, ⟨ms₁, ms₂, n₁, n₂, hms, hn, hoption.strips, hrestores.strips⟩,
    ⟨h.passes.finds, h.passes.answered, h.passes.affords⟩, h.usesAll, h.stats⟩

/-- **Keeping the markers for validation does not change the report**: what is restored
with validated claims is restored in the same way without. -/
theorem restoreWithProtectedClaims_unvalidated {c : SdCbor2}
    (h : restoreWithProtectedClaims c mode value protectedClaims ds hasher limits true =
      .ok report) :
    restoreWithProtectedClaims c mode value protectedClaims ds hasher limits false =
      .ok report := by
  obtain ⟨restored, hrestored, hreport⟩ := restoreWithProtectedClaims_ok h
  rcases hreport with ⟨⟨⟩, -⟩ | ⟨-, -, rfl⟩
  obtain ⟨ms, n, hpresented⟩ := restoreClaims_ok.mp hrestored
  have hplain := restoreClaims_ok (c := c) |>.mpr ⟨ms, n, hpresented.strips⟩
  rw [restoreWithProtectedClaims, hplain]
  rfl

/-- A marker is kept next to a disclosed claim, and stripped. -/
theorem restoreWithProtectedClaims_unvalidated_nested :
    restoreWithProtectedClaims .reference .verifier
        (.map [(redactedClaimKeysLabel, .array [.bytes [1], .bytes [9]])]) none
        [plainDecoy 2, decoyHolder] plainHasher {} false =
      .ok ⟨.map [((Label.int 500).toValue, .array [])], none, 1, 1, 1⟩ :=
  restoreWithProtectedClaims_unvalidated rfl

end Cose2.SdCwt
