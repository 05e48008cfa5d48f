import Cose2.SdCwt.Derivation

/-! # What disclosures can be loaded

The checks made while the disclosures are loaded one by one come to conditions on
all of them together, which do not depend on their order.  Nor does the map that
they are loaded into, so restoration does not either.
-/
namespace Cose2.SdCwt

open Cbor

variable (hasher : RedactionHasher)

/-- The entries a list of disclosures makes. -/
def digested (ds : List Disclosure) : List (Bytes × Disclosure) :=
  ds.map fun d => (d.redactedHash hasher, d)

/-- The size of all disclosures. -/
def encodedBytes (ds : List Disclosure) : Nat := (ds.map fun d => d.encoded.length).sum

/-- The items of all disclosures. -/
def disclosedItems (ds : List Disclosure) : Nat := (ds.map Disclosure.items).sum

theorem encodedBytes_cons (d : Disclosure) (ds : List Disclosure) :
    encodedBytes (d :: ds) = d.encoded.length + encodedBytes ds := by
  rw [encodedBytes, List.map_cons, List.sum_cons, encodedBytes]

theorem disclosedItems_cons (d : Disclosure) (ds : List Disclosure) :
    disclosedItems (d :: ds) = d.items + disclosedItems ds := by
  rw [disclosedItems, List.map_cons, List.sum_cons, disclosedItems]

/-- The disclosures can be loaded after others, of which there are `index` with
`totalBytes` bytes. -/
structure Loads (index totalBytes : Nat) (salts : List Bytes)
    (entries : BTreeMap Bytes Disclosure) (budget : TraversalBudget) (ds : List Disclosure) :
    Prop where
  count : index + ds.length ≤ budget.limits.maxDisclosures
  size : totalBytes + encodedBytes ds < usizeBound
  bytes : totalBytes + encodedBytes ds ≤ budget.limits.maxDisclosureBytes
  items : budget.Affords (disclosedItems ds)
  digests : (ds.map fun d => d.redactedHash hasher).Nodup
  newDigests : ∀ d ∈ ds, entries.containsKey (d.redactedHash hasher) = false
  distinctSalts : (ds.map Disclosure.salt).Nodup
  newSalts : ∀ d ∈ ds, d.salt ∉ salts

variable {hasher} {index totalBytes : Nat} {salts : List Bytes}
  {entries entries' : BTreeMap Bytes Disclosure} {budget budget' : TraversalBudget}
  {ds ds' : List Disclosure}

theorem Disclosure.items_pos (d : Disclosure) : 0 < d.items := by
  have hfixed : 0 < d.kind.fixedItems := by
    cases d.kind with
    | claim | element | decoy => exact Nat.succ_pos _
  rw [Disclosure.items]
  omega

/-- What one round of the loop checks, apart from what the next ones do. -/
theorem loads_cons {d : Disclosure} :
    Loads hasher index totalBytes salts entries budget (d :: ds) ↔
      (index < budget.limits.maxDisclosures ∧
        totalBytes + d.encoded.length < usizeBound ∧
        totalBytes + d.encoded.length ≤ budget.limits.maxDisclosureBytes ∧
        budget.Affords d.items ∧
        entries.containsKey (d.redactedHash hasher) = false ∧ d.salt ∉ salts) ∧
      Loads hasher (index + 1) (totalBytes + d.encoded.length) (d.salt :: salts)
        (entries.insert (d.redactedHash hasher) d) (budget.spend d.items) ds := by
  have hbytes := encodedBytes_cons d ds
  have hitems := disclosedItems_cons d ds
  constructor
  · intro h
    obtain ⟨hcount, hsize, htotal, haffords, hdigests, hnew, hsalts, hfresh⟩ := h
    rw [List.length_cons] at hcount
    rw [hbytes] at hsize htotal
    rw [hitems, TraversalBudget.affords_add] at haffords
    rw [List.map_cons, List.nodup_cons] at hdigests hsalts
    rw [List.forall_mem_cons] at hnew hfresh
    refine ⟨⟨by omega, by omega, by omega, haffords.1, hnew.1, hfresh.1⟩, ?_⟩
    refine ⟨?_, by omega, ?_, haffords.2, hdigests.2, ?_, hsalts.2, ?_⟩
    · rw [TraversalBudget.spend_limits]
      omega
    · rw [TraversalBudget.spend_limits]
      omega
    · intro d' hd'
      rw [Bool.eq_false_iff, ne_eq, BTreeMap.containsKey_insert, not_or]
      refine ⟨fun heq => hdigests.1 ?_, by simp [hnew.2 d' hd']⟩
      rw [← heq]
      exact List.mem_map_of_mem hd'
    · intro d' hd'
      rw [List.mem_cons, not_or]
      refine ⟨fun heq => hsalts.1 ?_, hfresh.2 d' hd'⟩
      rw [← heq]
      exact List.mem_map_of_mem hd'
  · rintro ⟨⟨hindex, _, _, haffords, hnew, hfresh⟩, h⟩
    obtain ⟨hcount, hsize, htotal, haffords', hdigests, hnew', hsalts, hfresh'⟩ := h
    rw [TraversalBudget.spend_limits] at hcount htotal
    have hother (d' : Disclosure) (hd' : d' ∈ ds) :
        d'.redactedHash hasher ≠ d.redactedHash hasher ∧
          entries.containsKey (d'.redactedHash hasher) = false := by
      have hd' := hnew' d' hd'
      rw [Bool.eq_false_iff, ne_eq, BTreeMap.containsKey_insert, not_or] at hd'
      exact ⟨hd'.1, Bool.eq_false_iff.mpr hd'.2⟩
    refine ⟨?_, ?_, ?_, ?_, ?_, ?_, ?_, ?_⟩
    · rw [List.length_cons]
      omega
    · rw [hbytes]
      omega
    · rw [hbytes]
      omega
    · rw [hitems, TraversalBudget.affords_add]
      exact ⟨haffords, haffords'⟩
    · refine List.nodup_cons.mpr ⟨fun hmem => ?_, hdigests⟩
      obtain ⟨d', hd', heq⟩ := List.mem_map.mp hmem
      exact (hother d' hd').1 heq
    · rw [List.forall_mem_cons]
      exact ⟨hnew, fun d' hd' => (hother d' hd').2⟩
    · refine List.nodup_cons.mpr ⟨fun hmem => ?_, hsalts⟩
      obtain ⟨d', hd', heq⟩ := List.mem_map.mp hmem
      exact hfresh' d' hd' (by rw [heq]; exact List.mem_cons_self)
    · rw [List.forall_mem_cons]
      exact ⟨hfresh, fun d' hd' hmem => hfresh' d' hd' (List.mem_cons_of_mem _ hmem)⟩

/-- Counting the items of a disclosure and spending them. -/
theorem consume_itemCount_ok {d : Disclosure} :
    (do budget.consume (← d.itemCount)) = .ok budget' ↔
      budget.Affords d.items ∧ budget' = budget.spend d.items := by
  rw [Except.bind_eq_ok]
  constructor
  · rintro ⟨n, hn, hconsume⟩
    rw [(Disclosure.itemCount_ok.mp hn).2, TraversalBudget.consume_ok d.items_pos] at hconsume
    exact hconsume
  · intro h
    have hsize : d.items < usizeBound := by
      have hpos := d.items_pos
      have := h.1
      simp only [TraversalBudget.Affords] at this
      omega
    refine ⟨d.items, Disclosure.itemCount_ok.mpr ⟨fun _ => hsize, rfl⟩, ?_⟩
    rwa [TraversalBudget.consume_ok d.items_pos]

/-- Loading succeeds under these conditions, and says nothing of the order. -/
theorem loadDisclosures_ok (hindex : index ≤ budget.limits.maxDisclosures)
    (hsize : totalBytes < usizeBound) (hbytes : totalBytes ≤ budget.limits.maxDisclosureBytes) :
    loadDisclosures hasher ds index totalBytes salts entries budget = .ok (entries', budget') ↔
      Loads hasher index totalBytes salts entries budget ds ∧
        entries' = entries.insertAll (digested hasher ds) ∧
        budget' = budget.spend (disclosedItems ds) := by
  induction ds generalizing index totalBytes salts entries budget with
  | nil =>
    rw [loadDisclosures, Except.ok.injEq, Prod.mk.injEq, eq_comm, eq_comm (a := budget)]
    refine (and_iff_right ?_).symm
    exact ⟨hindex, hsize, hbytes, .inl rfl, List.nodup_nil, by simp, List.nodup_nil, by simp⟩
  | cons d ds ih =>
    have hitems := disclosedItems_cons d ds
    rw [loadDisclosures, Except.seq_eq_ok, Except.seq_eq_ok, Except.seq_eq_ok, ← bind_assoc,
      Except.bind_eq_ok, loads_cons, hitems, ← TraversalBudget.spend_spend]
    simp only [Except.seq_eq_ok, Except.failIf_eq_ok, consume_itemCount_ok, not_le, not_lt,
      Bool.not_eq_true]
    have hrest (hcount : index < budget.limits.maxDisclosures) :=
      @ih (index + 1) (totalBytes + d.encoded.length) (d.salt :: salts)
        (entries.insert (d.redactedHash hasher) d) (budget.spend d.items) hcount
    constructor
    · rintro ⟨hcount, hsize, hbytes, _, ⟨haffords, hspent⟩, hnew, hfresh, h⟩
      rw [hspent] at h
      have hloads := (hrest hcount hsize hbytes).mp h
      exact ⟨⟨⟨hcount, hsize, hbytes, haffords, hnew, hfresh⟩, hloads.1⟩, hloads.2⟩
    · rintro ⟨⟨⟨hcount, hsize, hbytes, haffords, hnew, hfresh⟩, hloads⟩, hresult⟩
      refine ⟨hcount, hsize, hbytes, _, ⟨haffords, rfl⟩, hnew, hfresh, ?_⟩
      exact (hrest hcount hsize hbytes).mpr ⟨hloads, hresult⟩

/-- Loading from the start. -/
theorem loadDisclosures_root {limits : ProcessingLimits} :
    loadDisclosures hasher ds 0 0 [] ∅ { limits } = .ok (entries, budget) ↔
      Loads hasher 0 0 [] ∅ { limits } ds ∧ entries = BTreeMap.ofList (digested hasher ds) ∧
        budget = ⟨limits, disclosedItems ds⟩ := by
  have h := @loadDisclosures_ok hasher 0 0 [] ∅ entries { limits } budget ds (Nat.zero_le _)
    (by decide) (Nat.zero_le _)
  rw [h, TraversalBudget.spend, Nat.zero_add]
  rfl

/-- The conditions do not depend on the order. -/
theorem Loads.of_perm (h : Loads hasher index totalBytes salts entries budget ds)
    (hperm : ds.Perm ds') : Loads hasher index totalBytes salts entries budget ds' := by
  have hbytes : encodedBytes ds' = encodedBytes ds := (hperm.symm.map _).sum_eq
  have hitems : disclosedItems ds' = disclosedItems ds := (hperm.symm.map _).sum_eq
  refine ⟨?_, ?_, ?_, ?_, ?_, ?_, ?_, ?_⟩
  · rw [← hperm.length_eq]
    exact h.count
  · rw [hbytes]
    exact h.size
  · rw [hbytes]
    exact h.bytes
  · rw [hitems]
    exact h.items
  · exact (hperm.map _).nodup_iff.mp h.digests
  · exact fun d hd => h.newDigests d (hperm.mem_iff.mpr hd)
  · exact (hperm.map _).nodup_iff.mp h.distinctSalts
  · exact fun d hd => h.newSalts d (hperm.mem_iff.mpr hd)

/-- A loaded disclosure is found under its digest, and nothing else is. -/
theorem get_digested (h : (ds.map fun d => d.redactedHash hasher).Nodup) {hash : Bytes}
    {d : Disclosure} :
    (BTreeMap.ofList (digested hasher ds)).get hash = some d ↔
      d ∈ ds ∧ d.redactedHash hasher = hash := by
  have hkeys : ((digested hasher ds).map Prod.fst).Nodup := by
    rw [digested, List.map_map]
    exact h
  rw [BTreeMap.ofList, BTreeMap.get_insertAll hkeys, BTreeMap.get_empty]
  simp only [digested, List.mem_map, Prod.mk.injEq, reduceCtorEq, and_false, or_false]
  constructor
  · rintro ⟨d', hd', hhash, heq⟩
    subst heq
    exact ⟨hd', hhash⟩
  · rintro ⟨hd, hhash⟩
    exact ⟨d, hd, hhash, rfl⟩

/-- Nothing stays pending when all digests are asked for. -/
theorem removeAll_digested (h : (ds.map fun d => d.redactedHash hasher).Nodup) {hashes : List Bytes}
    (hmet : ∀ d ∈ ds, d.redactedHash hasher ∈ hashes) :
    ((BTreeMap.ofList (digested hasher ds)).removeAll hashes).entries = [] := by
  rw [List.eq_nil_iff_forall_not_mem]
  intro e he
  have hget := BTreeMap.get_eq_some.mpr he
  rw [BTreeMap.get_removeAll] at hget
  split_ifs at hget with hmem
  obtain ⟨hd, hdigest⟩ := (get_digested h).mp hget
  rw [← hdigest] at hmem
  exact hmem (hmet _ hd)

/-- The order of disclosures does not matter to what they are loaded into. -/
theorem ofList_digested_perm (h : (ds.map fun d => d.redactedHash hasher).Nodup)
    (hperm : ds.Perm ds') :
    BTreeMap.ofList (digested hasher ds) = BTreeMap.ofList (digested hasher ds') := by
  have h' : (ds'.map fun d => d.redactedHash hasher).Nodup := (hperm.map _).nodup_iff.mp h
  apply BTreeMap.ext_get
  intro hash
  apply Option.ext
  intro d
  rw [get_digested h, get_digested h', hperm.mem_iff]

theorem loadDisclosures_perm {limits : ProcessingLimits} (hperm : ds.Perm ds')
    (h : loadDisclosures hasher ds 0 0 [] ∅ { limits } = .ok (entries, budget)) :
    loadDisclosures hasher ds' 0 0 [] ∅ { limits } = .ok (entries, budget) := by
  rw [loadDisclosures_root] at h ⊢
  obtain ⟨hloads, hentries, hbudget⟩ := h
  refine ⟨hloads.of_perm hperm, ?_, ?_⟩
  · rw [hentries, ofList_digested_perm hloads.digests hperm]
  · rw [hbudget, disclosedItems, disclosedItems, (hperm.map _).sum_eq]

/-! ### Restoration as a whole -/

section Whole

variable (hasher) in
/-- The state in which restoration starts on the values. -/
def startRestoring (limits : ProcessingLimits) (validateClaims : Bool) (ds : List Disclosure) :
    Restoring where
  pending := { entries := BTreeMap.ofList (digested hasher ds), validateClaims }
  stats := {}
  budget := { limits, visited := disclosedItems ds }

/-- What restoration makes of claims that may be missing. -/
inductive OptionRestores (limits : ProcessingLimits) (validate : Bool) :
    Option Value → Option Value → List Meeting → Nat → Prop
  | absent : OptionRestores limits validate none none [] 0
  | present {claims claims' : Value} {ms : List Meeting} {n : Nat} :
    Restores limits validate (limits.maxDepth + 1) 0 claims claims' ms n →
    OptionRestores limits validate (some claims) (some claims') ms n

/-- A derivation for both claims maps that uses up all disclosures and gives the report. -/
structure Presented (mode : RestoreMode) (limits : ProcessingLimits) (validateClaims : Bool)
    (value : Value) (protectedClaims : Option Value) (hasher : RedactionHasher)
    (ds : List Disclosure) (report : RestoreReport) (ms : List Meeting) (n : Nat) : Prop where
  loads : Loads hasher 0 0 [] ∅ { limits } ds
  restores : ∃ ms₁ ms₂ n₁ n₂, ms = ms₁ ++ ms₂ ∧ n = n₁ + n₂ ∧
    OptionRestores limits validateClaims protectedClaims report.protectedClaims ms₁ n₁ ∧
    Restores limits validateClaims (limits.maxDepth + 1) 0 value report.value ms₂ n₂
  passes : (startRestoring hasher limits validateClaims ds).Passes mode ms n
  usesAll : ((BTreeMap.ofList (digested hasher ds)).removeAll
    (BTreeMap.asked Marker.hash ms)).entries = []
  stats : RestoreStats.after {} ms =
    ⟨report.disclosed, report.decoys, report.removedRedactions⟩

variable {c : SdCbor2} {mode : RestoreMode} {limits : ProcessingLimits} {value : Value}
  {protectedClaims : Option Value} {validateClaims : Bool} {report : RestoreReport}

theorem restoreRoot_ok {s s' : Restoring} {value' : Value} :
    restoreRoot c mode value s = .ok (value', s') ↔
      ∃ ms n, Restores s.budget.limits s.pending.validateClaims (s.budget.limits.maxDepth + 1) 0
          value value' ms n ∧ s.Passes mode ms n ∧ s' = s.after ms n :=
  @restoreValue_ok c mode _ _ (s.budget.limits.maxDepth + 1) 0 rfl value s s' value' rfl rfl

theorem restoreOption_ok {s s' : Restoring} {claims' : Option Value} :
    restoreOption c mode protectedClaims s = .ok (claims', s') ↔
      ∃ ms n, OptionRestores s.budget.limits s.pending.validateClaims protectedClaims claims' ms n ∧
        s.Passes mode ms n ∧ s' = s.after ms n := by
  cases protectedClaims with
  | none =>
    rw [restoreOption, Except.ok.injEq, Prod.mk.injEq]
    constructor
    · rintro ⟨hclaims, hs'⟩
      subst hclaims hs'
      exact ⟨[], 0, .absent, Restoring.passes_nil.mpr (.inl rfl), by rw [Restoring.after_nil]; rfl⟩
    · rintro ⟨ms, n, h, _, hs'⟩
      cases h
      rw [hs', Restoring.after_nil]
      exact ⟨rfl, rfl⟩
  | some claims =>
    rw [restoreOption]
    simp only [Except.bind_eq_ok, Prod.exists, Except.pure_eq_ok, Prod.mk.injEq, restoreRoot_ok]
    constructor
    · rintro ⟨claims₁, s₁, ⟨ms, n, h, hpasses, hs₁⟩, hclaims, hs'⟩
      subst hclaims hs'
      exact ⟨ms, n, .present h, hpasses, hs₁⟩
    · rintro ⟨ms, n, h, hpasses, hs'⟩
      cases h with
      | present h => exact ⟨_, s', ⟨ms, n, h, hpasses, hs'⟩, rfl, rfl⟩

theorem restoreClaims_ok :
    restoreClaims c mode value protectedClaims ds hasher limits validateClaims = .ok report ↔
      ∃ ms n, Presented mode limits validateClaims value protectedClaims hasher ds report ms n := by
  rw [restoreClaims]
  simp only [Except.bind_eq_ok, Prod.exists, loadDisclosures_root, restoreOption_ok,
    restoreRoot_ok, Except.pure_eq_ok, Except.failIf_eq_ok, ne_eq, not_not]
  constructor
  · rintro ⟨entries, budget, ⟨hloads, hentries, hbudget⟩, claims', s₁,
      ⟨ms₁, n₁, hR₁, hpasses₁, hs₁⟩, value', s₂, ⟨ms₂, n₂, hR₂, hpasses₂, hs₂⟩, _, hempty, hreport⟩
    subst hentries hbudget hs₁ hs₂ hreport
    rw [Restoring.after_after] at hempty
    refine ⟨ms₁ ++ ms₂, n₁ + n₂, hloads, ⟨ms₁, ms₂, n₁, n₂, rfl, rfl, hR₁, hR₂⟩, ?_, hempty, ?_⟩
    · exact Restoring.passes_append.mpr ⟨hpasses₁, hpasses₂⟩
    · rw [Restoring.after_after]
      rfl
  · rintro ⟨_, _, hloads, ⟨ms₁, ms₂, n₁, n₂, hms, hn, hR₁, hR₂⟩, hpasses, hempty, hstats⟩
    subst hms hn
    obtain ⟨hpasses₁, hpasses₂⟩ := Restoring.passes_append.mp hpasses
    refine ⟨_, _, ⟨hloads, rfl, rfl⟩, report.protectedClaims, _, ⟨ms₁, n₁, hR₁, hpasses₁, rfl⟩,
      report.value, _, ⟨ms₂, n₂, hR₂, hpasses₂, rfl⟩, (), ?_, ?_⟩
    · rw [← hempty, Restoring.after_after]
      rfl
    · rw [Restoring.after_after]
      show (⟨report.value, report.protectedClaims, (RestoreStats.after {} (ms₁ ++ ms₂)).disclosed,
        (RestoreStats.after {} (ms₁ ++ ms₂)).decoys,
        (RestoreStats.after {} (ms₁ ++ ms₂)).removedRedactions⟩ : RestoreReport) = report
      rw [hstats]

end Whole

/-! ### The order of disclosures -/

variable (c : SdCbor2) (mode : RestoreMode) {limits : ProcessingLimits} {value : Value}
  {protectedClaims : Option Value} {validateClaims : Bool} {report : RestoreReport}

theorem restore_of_perm (hperm : ds.Perm ds')
    (h : restoreWithProtectedClaims c mode value protectedClaims ds hasher limits
      validateClaims = .ok report) :
    restoreWithProtectedClaims c mode value protectedClaims ds' hasher limits
      validateClaims = .ok report := by
  rw [restoreWithProtectedClaims, restoreClaims, bind_assoc, Except.bind_eq_ok] at h ⊢
  obtain ⟨loaded, hload, hrest⟩ := h
  exact ⟨loaded, loadDisclosures_perm hperm hload, hrest⟩

/-- Disclosures in another order are all rejected or give the same report. -/
theorem restore_perm_iff (hperm : ds.Perm ds') :
    restoreWithProtectedClaims c mode value protectedClaims ds hasher limits
        validateClaims = .ok report ↔
      restoreWithProtectedClaims c mode value protectedClaims ds' hasher limits
        validateClaims = .ok report :=
  ⟨restore_of_perm c mode hperm, restore_of_perm c mode hperm.symm⟩

/-- A decoy with a salt of equal bytes, encoded. -/
def plainDecoy (b : UInt8) : Disclosure where
  kind := .decoy (List.replicate 16 b)
  encoded := (DisclosureKind.decoy (List.replicate 16 b)).toValue.canonical
  valid := rfl

/-- A hasher that does not hash. -/
def plainHasher : RedactionHasher := { algorithm := -16, digest := id }

/-- Two decoys are found in either order. -/
theorem restore_perm_iff_decoys :
    restoreWithProtectedClaims .reference .holder
        (.map [(redactedClaimKeysLabel,
          .array [.bytes (plainDecoy 1).encoded, .bytes (plainDecoy 2).encoded])])
        none [plainDecoy 2, plainDecoy 1] plainHasher {} false =
      .ok ⟨.map [], none, 0, 2, 0⟩ :=
  (restore_perm_iff .reference .holder (List.Perm.swap (plainDecoy 2) (plainDecoy 1) [])).mp rfl

end Cose2.SdCwt
