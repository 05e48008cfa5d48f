import Cose2.SdCwt.IssuedRestore

/-! # Restoration without disclosures

The structural validator and restoration walk through a value separately.  Restoration
accepts what the validator accepts, whatever the disclosures (`Restores.valid`), and
without disclosures that is all it asks of a value (`Redacted.restores`).
-/
namespace Cose2.SdCwt

open Cbor

variable {limits : ProcessingLimits} {validate : Bool} {depth : Nat}

/-! ### What restoration accepts -/

section Valid

variable {next : Value → Value → List Meeting → Nat → Prop}

/-- The keys are the labels, and `simple(59)` for each list of hashes. -/
theorem EntriesRestore.keys {es out : List (Value × Value)} {labels : List Label}
    {lists : List (List Bytes)} {ms : List Meeting} {n : Nat}
    (h : EntriesRestore limits next depth es out labels lists ms n) :
    (es.map Prod.fst).Perm
      (labels.map Label.toValue ++ List.replicate lists.length redactedClaimKeysLabel) := by
  induction h with
  | nil => exact .nil
  | hashes hkey _ _ _ _ ih =>
    rw [List.map_cons, List.length_cons, List.replicate_succ,
      isRedactedClaimKeysLabel_iff.mp hkey]
    exact (ih.cons _).trans List.perm_middle.symm
  | claim _ hlabel _ _ _ ih =>
    rw [List.map_cons, List.map_cons, List.cons_append, labelFromValue_ok hlabel]
    exact ih.cons _

/-- So they are distinct when the labels are and there is one such list at most. -/
theorem EntriesRestore.nodup_keys {es out : List (Value × Value)} {labels : List Label}
    {lists : List (List Bytes)} {ms : List Meeting} {n : Nat}
    (h : EntriesRestore limits next depth es out labels lists ms n) :
    (es.map Prod.fst).Nodup ↔ labels.Nodup ∧ lists.length ≤ 1 := by
  rw [h.keys.nodup_iff, List.nodup_append, List.nodup_replicate,
    List.nodup_map_iff Label.toValue_injective]
  refine and_congr_right fun _ => and_iff_left ?_
  rintro k hk k' hk' rfl
  obtain ⟨l, -, hl⟩ := List.mem_map.mp hk
  have hlabel := List.eq_of_mem_replicate hk'
  rw [← hl] at hlabel
  cases l with
  | int | text => cases hlabel

variable (hnext : ∀ v v' ms n, next v v' ms n → Redacted true v ∧ Fits limits (depth + 1) v)
include hnext

theorem EntriesRestore.valid {es out : List (Value × Value)} {labels : List Label}
    {lists : List (List Bytes)} {ms : List Meeting} {n : Nat}
    (h : EntriesRestore limits next depth es out labels lists ms n) :
    ∀ e ∈ es, EntryValid limits depth e := by
  induction h with
  | nil => simp
  | @hashes key hs es out labels lists ms n hkey hdepth hlength hdeep _ ih =>
    have hhidden : isVisible (key, Value.array (hs.map .bytes)) = false := by
      simp [isVisible, hkey]
    refine List.forall_mem_cons.mpr ⟨⟨fun _ => ⟨hs, rfl⟩, ?_, ?_, ?_, ?_⟩, ih⟩
    · exact fun hv => absurd hv (by simp [hhidden])
    · exact fun hv => absurd hv (by simp [hhidden])
    · rw [isRedactedClaimKeysLabel_iff.mp hkey]
      exact .scalar trivial hdepth
    · exact fits_hashes.mpr ⟨hdepth, hlength, hdeep⟩
  | @claim key value value' label es out labels lists ms ms' n n' hkey hlabel hdepth hvalue _ ih =>
    have hvisible : isVisible (key, value) = true := by
      simp [isVisible, hkey]
    obtain ⟨hR, hfits⟩ := hnext _ _ _ _ hvalue
    have hscalar : IsScalar key := IsKey.scalar (.inr ⟨label, hlabel⟩)
    refine List.forall_mem_cons.mpr ⟨⟨?_, fun _ => ⟨label, hlabel⟩, fun _ => hR,
      .scalar hscalar hdepth, hfits⟩, ih⟩
    exact fun hv => absurd hvisible (by simp [hv])

theorem ItemRestores.valid {item : Value} {out : List Value} {ms : List Meeting} {n : Nat}
    (h : ItemRestores limits validate next depth item out ms n) :
    ItemValid limits depth item := by
  have redacted {hash : Bytes} (hdepth : depth + 2 ≤ limits.maxDepth) :
      ItemValid limits depth (redactedElement hash) :=
    ⟨fun _ => ⟨hash, rfl⟩, by rintro ⟨⟩, fits_redactedElement.mpr hdepth⟩
  cases h with
  | keep hkeep hvalue =>
    obtain ⟨hR, hfits⟩ := hnext _ _ _ _ hvalue
    exact ⟨fun h => absurd h (by simp [hkeep]), fun _ => hR, hfits⟩
  | disclosed hdepth | decoy hdepth | undisclosed hdepth => exact redacted hdepth

theorem ItemsRestore.valid {vs out : List Value} {ms : List Meeting} {n : Nat}
    (h : ItemsRestore limits validate next depth vs out ms n) :
    ∀ v ∈ vs, ItemValid limits depth v := by
  induction h with
  | nil => simp
  | cons hitem _ ih => exact List.forall_mem_cons.mpr ⟨hitem.valid hnext, ih⟩

theorem ValueRestores.valid {v v' : Value} {ms : List Meeting} {n : Nat}
    (hdepth : depth ≤ limits.maxDepth)
    (h : ValueRestores limits validate next depth v v' ms n) :
    Redacted true v ∧ Fits limits depth v := by
  cases h with
  | map hlength hentries hlists _ hnodup =>
    have hkeys := hentries.nodup_keys.mpr ⟨hnodup.of_append_left, hlists⟩
    exact redacted_map_iff.mpr ⟨hdepth, hlength, hentries.valid hnext, hkeys⟩
  | array hlength hitems =>
    exact redacted_array_iff.mpr ⟨hdepth, hlength, hitems.valid hnext⟩
  | tag ht hvalue =>
    obtain ⟨hR, hfits⟩ := hnext _ _ _ _ hvalue
    exact ⟨.tag ht hR, .tag hdepth hfits⟩
  | scalar hscalar hlabel => exact ⟨.scalar hscalar hlabel, .scalar hscalar hdepth⟩

omit hnext in
/-- **What restoration accepts, the structural validator accepts.** -/
theorem Restores.valid {levels : Nat} (hlevels : levels + depth = limits.maxDepth + 1)
    {v v' : Value} {ms : List Meeting} {n : Nat}
    (h : Restores limits validate levels depth v v' ms n) :
    Redacted true v ∧ Fits limits depth v := by
  induction levels generalizing depth v v' ms n with
  | zero => exact h.elim
  | succ levels ih =>
    exact ValueRestores.valid (fun _ _ _ _ h => ih (by omega) h) (by omega) h

end Valid

/-! ### What restoration needs -/

/-- No marker has used up a disclosure. -/
def Unanswered (ms : List Meeting) : Prop := ∀ m ∈ ms, m.2 = none

theorem Unanswered.append {ms ms' : List Meeting} (h : Unanswered ms) (h' : Unanswered ms') :
    Unanswered (ms ++ ms') := by
  intro m hm
  rcases List.mem_append.mp hm with hm | hm
  · exact h m hm
  · exact h' m hm

theorem unanswered_iff_finds {ms : List Meeting} :
    BTreeMap.Finds Marker.hash (∅ : BTreeMap Bytes Disclosure) ms ↔ Unanswered ms := by
  induction ms with
  | nil => exact iff_of_true trivial (by simp [Unanswered])
  | cons m ms ih =>
    rw [BTreeMap.Finds, BTreeMap.remove_of_get (BTreeMap.get_empty _), BTreeMap.get_empty, ih,
      Unanswered, Unanswered, List.forall_mem_cons, eq_comm]

section Needs

variable {next : Value → Value → List Meeting → Nat → Prop}

/-- Hashes without disclosures. -/
theorem hashesRestore_undisclosed (hs : List Bytes) :
    ∃ undisclosed ms, HashesRestore validate next depth hs [] [] undisclosed ms 0 ∧
      Unanswered ms := by
  induction hs with
  | nil => exact ⟨[], [], .nil, by simp [Unanswered]⟩
  | cons hash hs ih =>
    obtain ⟨undisclosed, ms, hR, hms⟩ := ih
    exact ⟨_, _, .undisclosed hR, List.forall_mem_cons.mpr ⟨rfl, hms⟩⟩

variable (hnext : ∀ v, Redacted true v → Fits limits (depth + 1) v →
  ∃ v' ms n, next v v' ms n ∧ Unanswered ms)
include hnext

theorem EntryValid.restores {es : List (Value × Value)} (h : ∀ e ∈ es, EntryValid limits depth e) :
    ∃ out labels lists ms n, EntriesRestore limits next depth es out labels lists ms n ∧
      Unanswered ms := by
  induction es with
  | nil => exact ⟨[], [], [], [], 0, .nil, by simp [Unanswered]⟩
  | cons e es ih =>
    obtain ⟨key, value⟩ := e
    rw [List.forall_mem_cons] at h
    obtain ⟨he, hes⟩ := h
    obtain ⟨out, labels, lists, ms, n, hR, hms⟩ := ih hes
    cases hv : isVisible (key, value) with
    | true =>
      obtain ⟨label, hlabel⟩ := he.label hv
      obtain ⟨value', ms', n', hvalue, hms'⟩ := hnext value (he.value hv) he.fitsValue
      have hkey : isRedactedClaimKeysLabel key = false := by simpa [isVisible] using hv
      exact ⟨_, _, _, _, _, .claim hkey hlabel he.fitsKey.depth_le hvalue hR, hms'.append hms⟩
    | false =>
      obtain ⟨hs, hhashes⟩ := he.hidden hv
      have hkey : isRedactedClaimKeysLabel key = true := by simpa [isVisible] using hv
      have hfits := he.fitsValue
      rw [hhashes, fits_hashes] at hfits
      obtain ⟨hdepth, hlength, hdeep⟩ := hfits
      have hvalue : value = .array (hs.map .bytes) := hhashes
      subst hvalue
      exact ⟨_, _, _, _, _, .hashes hkey hdepth hlength hdeep hR, hms⟩

theorem ItemValid.restores {vs : List Value} (h : ∀ v ∈ vs, ItemValid limits depth v) :
    ∃ out ms n, ItemsRestore limits validate next depth vs out ms n ∧ Unanswered ms := by
  induction vs with
  | nil => exact ⟨[], [], 0, .nil, by simp [Unanswered]⟩
  | cons v vs ih =>
    rw [List.forall_mem_cons] at h
    obtain ⟨hv, hvs⟩ := h
    obtain ⟨out, ms, n, hR, hms⟩ := ih hvs
    cases helement : isRedactedElement v with
    | true =>
      obtain ⟨hash, rfl⟩ := hv.redacted helement
      refine ⟨_, _, _, .cons (.undisclosed (fits_redactedElement.mp hv.fits)) hR, ?_⟩
      exact Unanswered.append (List.forall_mem_singleton.mpr rfl) hms
    | false =>
      obtain ⟨v', ms', n', hvalue, hms'⟩ := hnext v (hv.value helement) hv.fits
      exact ⟨_, _, _, .cons (.keep helement hvalue) hR, hms'.append hms⟩

theorem Redacted.valueRestores {v : Value} (hR : Redacted true v) (hfits : Fits limits depth v) :
    ∃ v' ms n, ValueRestores limits validate next depth v v' ms n ∧ Unanswered ms := by
  cases v with
  | map es =>
    obtain ⟨_, hlength, hvalid, hnodup⟩ := redacted_map_iff.mp ⟨hR, hfits⟩
    obtain ⟨out, labels, lists, ms, n, hentries, hms⟩ := EntryValid.restores hnext hvalid
    obtain ⟨undisclosed, ms', hhashes, hms'⟩ :=
      @hashesRestore_undisclosed validate depth next lists.flatten
    obtain ⟨hlabels, hlists⟩ := hentries.nodup_keys.mp hnodup
    refine ⟨_, _, _, .map hlength hentries hlists hhashes ?_, hms.append hms'⟩
    rwa [List.append_nil]
  | array vs =>
    obtain ⟨_, hlength, hvalid⟩ := redacted_array_iff.mp ⟨hR, hfits⟩
    obtain ⟨out, ms, n, hitems, hms⟩ :=
      @ItemValid.restores limits validate depth next hnext vs hvalid
    exact ⟨_, _, _, .array hlength hitems, hms⟩
  | tag t v =>
    obtain ⟨ht, hv⟩ := redacted_tag_iff.mp hR
    obtain ⟨v', ms, n, hvalue, hms⟩ := hnext v hv (fits_tag.mp hfits).2
    exact ⟨_, _, _, .tag ht hvalue, hms⟩
  | integer | bytes | text | float | bool | null | simple =>
    cases hR with
    | scalar hscalar hlabel => exact ⟨_, _, _, .scalar hscalar hlabel, by simp [Unanswered]⟩

omit hnext in
/-- **What the structural validator accepts is restored**, if no disclosure is asked for. -/
theorem Redacted.restores {levels : Nat} (hlevels : levels + depth = limits.maxDepth + 1)
    {v : Value} (hR : Redacted true v) (hfits : Fits limits depth v) :
    ∃ v' ms n, Restores limits validate levels depth v v' ms n ∧ Unanswered ms := by
  induction levels generalizing depth v with
  | zero =>
    have := hfits.depth_le
    omega
  | succ levels ih =>
    exact Redacted.valueRestores (fun _ hR hfits => ih (by omega) hR hfits) hR hfits

end Needs

/-! ### The two walks agree -/

/-- Without disclosures there is nothing to load. -/
theorem loads_nil {hasher : RedactionHasher} : Loads hasher 0 0 [] ∅ { limits } [] where
  count := Nat.zero_le _
  size := by decide
  bytes := Nat.zero_le _
  items := .inl rfl
  digests := .nil
  newDigests := by simp
  distinctSalts := .nil
  newSalts := by simp

theorem Unanswered.usedUp {ms : List Meeting} (h : Unanswered ms) : usedUp ms = [] :=
  List.filterMap_eq_nil_iff.mpr h

/-- The report on a value that no disclosure was used for. -/
theorem Unanswered.presented {hasher : RedactionHasher} {v v' : Value} {ms : List Meeting}
    {n : Nat} (hms : Unanswered ms)
    (hR : Restores limits false (limits.maxDepth + 1) 0 v v' ms n)
    (haffords : TraversalBudget.Affords { limits } n) :
    Presented .verifier limits false v none hasher []
      ⟨v', none, 0, 0, ms.countP fun m => m.2.isNone⟩ ms n where
  loads := loads_nil
  restores := ⟨[], ms, 0, n, rfl, (Nat.zero_add n).symm, .absent, hR⟩
  passes := ⟨unanswered_iff_finds.mpr hms, by rintro ⟨⟩, haffords⟩
  usesAll := rfl
  stats := by simp [RestoreStats.after, hms.usedUp]

/-- **The structural validator and the restoration without disclosures accept the same
values**, within any limits and for any hasher. -/
theorem validateIssuedValue_iff_restore {c : SdCbor2} (hc : c.EncodesKeys) (value : Value)
    (limits : ProcessingLimits) (hasher : RedactionHasher) :
    (∃ b, validateIssuedValue c value { limits } 0 = .ok b) ↔
      ∃ report, restoreWithLimits c .verifier value [] hasher limits = .ok report := by
  have hrestore (report : RestoreReport) :
      restoreWithLimits c .verifier value [] hasher limits = .ok report ↔
        ∃ ms n, Presented .verifier limits false value none hasher [] report ms n := by
    rw [restoreWithLimits, restoreWithProtectedClaims, ← restoreClaims_ok (c := c)]
    simp
  simp only [validateIssuedValue_ok hc, hrestore]
  constructor
  · rintro ⟨b, ⟨hR, hfits⟩, haffords, -⟩
    obtain ⟨v', ms, n, hrestores, hms⟩ :=
      @Redacted.restores limits false 0 (limits.maxDepth + 1) (Nat.add_zero _) value hR hfits
    have hvisits : n = items value := by
      rw [hrestores.visits, hms.usedUp]
      rfl
    rw [← hvisits] at haffords
    exact ⟨_, ms, n, hms.presented hrestores haffords⟩
  · rintro ⟨report, ms, n, h⟩
    have hms : Unanswered ms := unanswered_iff_finds.mp h.passes.finds
    obtain ⟨ms₁, ms₂, n₁, n₂, rfl, rfl, -, hrestores⟩ := h.restores
    have hms₂ : Unanswered ms₂ := fun m hm => hms m (List.mem_append_right _ hm)
    have hvisits : n₂ = items value := by
      rw [hrestores.visits, hms₂.usedUp]
      rfl
    have haffords : TraversalBudget.Affords { limits } (n₁ + n₂) := h.passes.affords
    refine ⟨_, hrestores.valid (Nat.add_zero _), ?_, rfl⟩
    rw [← hvisits]
    exact haffords.mono (Nat.le_add_left _ _)

/-- An array with a redacted element is valid, and restored to an empty one. -/
theorem validateIssuedValue_iff_restore_redacted :
    ∃ report, restoreWithLimits .reference .verifier (.array [redactedElement [1, 2]]) []
      plainHasher { maxDepth := 2, maxItems := 3 } = .ok report :=
  (validateIssuedValue_iff_restore SdCbor2.reference_readsCanonically.encodesKeys
    (.array [redactedElement [1, 2]]) { maxDepth := 2, maxItems := 3 } plainHasher).mp ⟨_, rfl⟩

end Cose2.SdCwt
