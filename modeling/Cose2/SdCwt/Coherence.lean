import Cose2.SdCwt.IssuedRestore

/-! # Limits of issuer and holder

Each operation counts the items it visits.  Issuance counts what it is asked to hide
once; the header parameter is counted with an envelope for each disclosure; and
restoration counts a disclosure when it is loaded and its value again when it is entered.
So the same limits may suffice to issue claims and not to restore them, but four times
as many items always do.
-/
namespace Cose2.SdCwt

open Cbor

namespace IssueResult

variable (r : IssueResult)

/-- The items that restoration counts. -/
def restoringItems : Nat :=
  disclosedItems r.disclosures + (items r.value + allValueItems r.disclosures)

/-- The items that reading the header parameter counts. -/
def headerItems : Nat :=
  if r.disclosures = [] then 0
  else r.disclosures.length + 1 + disclosedItems (r.disclosures.map Disclosure.asRead)

/-- What limits on items suffice for a holder, the other limits being those of the issuer. -/
structure Coherent (c : SdCbor2) (limits : ProcessingLimits) (hasher : RedactionHasher) :
    Prop where
  restores : ∀ m, m < usizeBound →
    ((∃ report, restoreWithLimits c .holder r.value r.disclosures hasher
      { limits with maxItems := m } = .ok report) ↔ r.restoringItems ≤ m)
  reads : ∀ m, m < usizeBound → ∀ header,
    ((∃ ds, disclosuresFromUnprotected c (setDisclosures header r.disclosures)
      { limits with maxItems := m } = .ok ds) ↔ r.headerItems ≤ m)
  restoringItems_le : r.restoringItems ≤ 4 * limits.maxItems
  headerItems_le : r.headerItems ≤ 4 * limits.maxItems

end IssueResult

/-! ### What is counted -/

theorem weights_eq (ds : List Disclosure) :
    disclosedItems ds + allValueItems ds ≤ weights ds ∧
      ds.length + disclosedItems ds ≤ weights ds := by
  induction ds with
  | nil => exact ⟨Nat.le_refl _, Nat.le_refl _⟩
  | cons d ds ih =>
    have hitems := disclosedItems_cons d ds
    have hweight : d.items + d.valueItems ≤ d.weight ∧ d.items + 1 ≤ d.weight := by
      rw [Disclosure.weight, Disclosure.valueItems]
      cases d.kind.value with
      | none => exact ⟨Nat.le_add_right _ _, Nat.le_refl _⟩
      | some v => exact ⟨Nat.le_refl _, Nat.add_le_add_left (items_pos v) _⟩
    rw [weights_cons, allValueItems_cons, hitems, List.length_cons]
    omega

theorem disclosedItems_asRead_le (ds : List Disclosure) :
    disclosedItems (ds.map Disclosure.asRead) ≤ disclosedItems ds := by
  rw [disclosedItems, disclosedItems, List.map_map]
  exact List.sum_le_sum fun d _ => d.items_asRead_le

variable {c : SdCbor2} {limits : ProcessingLimits} {hasher : RedactionHasher}

/-! ### Restoration -/

/-- Markers that use up all disclosures, each by its digest, are got through. -/
theorem Uses.passes {ms : List Meeting} {ds : List Disclosure} {m n : Nat}
    (h : Uses hasher ms ds) (hdigests : (ds.map fun d => d.redactedHash hasher).Nodup)
    (haffords : (startRestoring hasher { limits with maxItems := m } false ds).budget.Affords n) :
    (startRestoring hasher { limits with maxItems := m } false ds).Passes .holder ms n ∧
      ((BTreeMap.ofList (digested hasher ds)).removeAll
        (BTreeMap.asked Marker.hash ms)).entries = [] := by
  have hsome (e : Meeting) (he : e ∈ ms) : ∃ d ∈ ds, e.2 = some d := by
    have hmem := h.found.mem_iff.mp (List.mem_map_of_mem he)
    obtain ⟨d, hd, heq⟩ := List.mem_map.mp hmem
    exact ⟨d, hd, heq.symm⟩
  -- the hashes asked for are the digests
  have hasked : (BTreeMap.asked Marker.hash ms).Perm (ds.map fun d => d.redactedHash hasher) := by
    have hmap := h.found.map fun o : Option Disclosure =>
      (o.map fun d => d.redactedHash hasher).getD []
    rw [List.map_map, List.map_map] at hmap
    refine List.Perm.trans (.of_eq (List.map_congr_left fun e he => ?_)) hmap
    obtain ⟨d, _, heq⟩ := hsome e he
    show e.1.hash = ((e.2.map fun d => d.redactedHash hasher).getD [])
    rw [heq]
    exact (h.digests e he d heq).symm
  have hnodup := hasked.nodup_iff.mpr hdigests
  refine ⟨⟨?_, fun _ e he hnone => ?_, haffords⟩, ?_⟩
  · refine (BTreeMap.finds_iff_of_once fun _ _ => List.nodup_iff_count_le_one.mp hnodup _).mpr ?_
    intro e he
    obtain ⟨d, hd, heq⟩ := hsome e he
    rw [heq]
    exact (get_digested hdigests).mpr ⟨hd, h.digests e he d heq⟩
  · obtain ⟨d, _, heq⟩ := hsome e he
    rw [heq] at hnone
    cases hnone
  · exact removeAll_digested hdigests fun d hd => hasked.mem_iff.mpr (List.mem_map_of_mem hd)

theorem restores_iff {value : Value} {salts : SaltGenerator} {r : IssueResult}
    (h : issueFromPreissuanceWithLimits c value salts hasher limits = .ok r) {m : Nat}
    (hm : m < usizeBound) :
    (∃ report, restoreWithLimits c .holder r.value r.disclosures hasher
      { limits with maxItems := m } = .ok report) ↔ r.restoringItems ≤ m := by
  obtain ⟨n, hissues, _, hcount, hsize, hbytes, hdigests, hsalts⟩ := issueFromPreissuance_ok h
  rw [IssueResult.restoringItems]
  constructor
  · rintro ⟨report, hrestore⟩
    obtain ⟨ms, k, hpresented⟩ := restoreWithLimits_ok.mp hrestore
    have hused : (usedUp ms).Perm r.disclosures := by
      have honce := hpresented.accounts.once
      rwa [BTreeMap.map_snd_found] at honce
    have hvisits := hpresented.restores_value.2.visits
    have hvalues : allValueItems (usedUp ms) = allValueItems r.disclosures :=
      (hused.map _).sum_eq
    have haffords := hpresented.passes.affords
    have hpos := items_pos r.value
    rw [TraversalBudget.Affords, startRestoring] at haffords
    simp only at haffords
    omega
  · intro hle
    have hsame : SameShapeLimits limits { limits with maxItems := m } := ⟨rfl, rfl⟩
    obtain ⟨out, ms, k, hrestores, huses⟩ :=
      hissues.restores hsame (limits.maxDepth + 1) 0 (Nat.le_refl 0) rfl
    have hused : allValueItems (usedUp ms) = allValueItems r.disclosures := by
      have hperm := huses.found.filterMap id
      rw [List.filterMap_map, List.filterMap_map] at hperm
      have hall : (usedUp ms).Perm r.disclosures := hperm.trans (.of_eq List.filterMap_some)
      exact (hall.map _).sum_eq
    have hvisits := hrestores.visits
    have haffords : (startRestoring hasher { limits with maxItems := m } false
        r.disclosures).budget.Affords k := by
      rw [TraversalBudget.Affords, startRestoring]
      simp only
      omega
    obtain ⟨hpasses, hempty⟩ := huses.passes hdigests haffords
    refine ⟨⟨out, none, _, _, _⟩, restoreWithLimits_ok.mpr ⟨ms, k, ?_, ⟨[], ms, 0, k, rfl,
      (Nat.zero_add k).symm, .absent, hrestores⟩, hpasses, hempty, rfl⟩⟩
    refine ⟨?_, ?_, ?_, ?_, hdigests, fun _ _ => rfl, hsalts, fun _ _ => List.not_mem_nil⟩
    · rw [Nat.zero_add]
      exact hcount
    · rw [Nat.zero_add]
      exact hsize
    · rw [Nat.zero_add]
      exact hbytes
    · rw [TraversalBudget.Affords]
      simp only
      omega

/-! ### The header parameter -/

/-- What the header parameter is set to. -/
def disclosureItems (ds : List Disclosure) : List Value := ds.map fun d => .bytes d.encoded

/-- One round of the loop. -/
theorem readDisclosures_cons {encoded : Bytes} {vs : List Value} {salts : List Bytes}
    {totalBytes remaining : Nat} {ds' : List Disclosure} :
    readDisclosures c limits (.bytes encoded :: vs) salts totalBytes remaining = .ok ds' ↔
      totalBytes + encoded.length < usizeBound ∧
        totalBytes + encoded.length ≤ limits.maxDisclosureBytes ∧
        ∃ d, Disclosure.fromEncodedWithLimits c encoded { limits with maxItems := remaining } =
          .ok d ∧ d.salt ∉ salts ∧ ∃ n, d.itemCount = .ok n ∧ n ≤ remaining ∧
          ∃ ds, readDisclosures c limits vs (d.salt :: salts) (totalBytes + encoded.length)
            (remaining - n) = .ok ds ∧ d :: ds = ds' := by
  rw [readDisclosures, expectBytes, Except.ok_bind, Except.seq_eq_ok, Except.seq_eq_ok,
    Except.bind_eq_ok, Except.failIf_eq_ok, Except.failIf_eq_ok, not_not, not_lt]
  refine and_congr_right fun _ => and_congr_right fun _ => exists_congr fun d =>
    and_congr_right fun _ => ?_
  rw [Except.seq_eq_ok, Except.failIf_eq_ok, Except.bind_eq_ok]
  refine and_congr_right fun _ => exists_congr fun n => and_congr_right fun _ => ?_
  rw [Except.seq_eq_ok, Except.failIf_eq_ok, not_lt, Except.bind_eq_ok]
  refine and_congr_right fun _ => exists_congr fun ds => and_congr_right fun _ => ?_
  exact Except.pure_eq_ok

section Header

variable (hr : c.ReadsCanonically)
include hr

theorem readDisclosures_iff {ds : List Disclosure} (hmade : ∀ d ∈ ds, d.Made c limits)
    {salts : List Bytes} {totalBytes remaining m : Nat} (hremaining : remaining < usizeBound)
    (hsize : totalBytes + encodedBytes ds < usizeBound)
    (hbytes : totalBytes + encodedBytes ds ≤ limits.maxDisclosureBytes)
    (hsalts : (ds.map Disclosure.salt).Nodup) (hnew : ∀ d ∈ ds, d.salt ∉ salts) :
    (∃ ds', readDisclosures c { limits with maxItems := m } (disclosureItems ds) salts totalBytes
      remaining = .ok ds') ↔ disclosedItems (ds.map Disclosure.asRead) ≤ remaining := by
  induction ds generalizing salts totalBytes remaining with
  | nil => exact ⟨fun _ => Nat.zero_le _, fun _ => ⟨[], rfl⟩⟩
  | cons d ds ih =>
    rw [encodedBytes_cons] at hsize hbytes
    rw [List.map_cons, List.nodup_cons] at hsalts
    rw [List.forall_mem_cons] at hmade hnew
    have hdecode (d' : Disclosure) := @Disclosure.Made.fromEncoded_iff c limits hr d hmade.1
      (by omega) (by omega) remaining hremaining d'
    have hnew' : ∀ d' ∈ ds, d'.salt ∉ d.asRead.salt :: salts := by
      intro d' hd' hmem
      rcases List.mem_cons.mp hmem with heq | hmem
      · rw [d.asRead_salt] at heq
        exact hsalts.1 (heq ▸ List.mem_map_of_mem hd')
      · exact hnew.2 d' hd' hmem
    have hremaining' : remaining - d.asRead.items < usizeBound := by omega
    have hsize' : totalBytes + d.encoded.length + encodedBytes ds < usizeBound := by omega
    have hbytes' : totalBytes + d.encoded.length + encodedBytes ds ≤ limits.maxDisclosureBytes := by
      omega
    have hrest := ih hmade.2 hremaining' hsize' hbytes' hsalts.2 hnew'
    have hitems : disclosureItems (d :: ds) = .bytes d.encoded :: disclosureItems ds := rfl
    rw [hitems, List.map_cons, disclosedItems_cons]
    constructor
    · rintro ⟨ds', h⟩
      obtain ⟨-, -, d', hd', -, n, hn, -, ds'', hds'', -⟩ := readDisclosures_cons.mp h
      obtain ⟨hle, heq⟩ := (hdecode d').mp hd'
      subst heq
      obtain ⟨-, hcount⟩ := Disclosure.itemCount_ok.mp hn
      subst hcount
      have hle' := hrest.mp ⟨ds'', hds''⟩
      omega
    · intro hle
      have hfits : d.asRead.items ≤ remaining := by omega
      obtain ⟨ds', hds'⟩ := hrest.mpr (by omega)
      have hcount : d.asRead.itemCount = .ok d.asRead.items :=
        Disclosure.itemCount_ok.mpr ⟨fun _ => hfits.trans_lt hremaining, rfl⟩
      have hsalt : d.asRead.salt ∉ salts := by
        rw [d.asRead_salt]
        exact hnew.1
      refine ⟨d.asRead :: ds', readDisclosures_cons.mpr ⟨by omega, ?_, d.asRead,
        (hdecode _).mpr ⟨hfits, rfl⟩, hsalt, _, hcount, hfits, ds', hds', rfl⟩⟩
      show totalBytes + d.encoded.length ≤ limits.maxDisclosureBytes
      omega

/-- The header parameter is read back exactly when its items are within the limit. -/
theorem disclosuresFromUnprotected_iff {ds : List Disclosure} (hmade : ∀ d ∈ ds, d.Made c limits)
    {m : Nat} (hm : m < usizeBound) (hcount : ds.length ≤ limits.maxDisclosures)
    (hsize : encodedBytes ds < usizeBound) (hbytes : encodedBytes ds ≤ limits.maxDisclosureBytes)
    (hsalts : (ds.map Disclosure.salt).Nodup) (header : Header) (hne : ds ≠ []) :
    (∃ ds', disclosuresFromUnprotected c (setDisclosures header ds)
      { limits with maxItems := m } = .ok ds') ↔
      ds.length + 1 + disclosedItems (ds.map Disclosure.asRead) ≤ m := by
  have hget :
      (setDisclosures header ds).get headerSdClaims = some (.array (disclosureItems ds)) := by
    rw [setDisclosures, if_neg hne, BTreeMap.get_insert, if_pos rfl, disclosureItems]
  have hlength : (disclosureItems ds).length = ds.length := List.length_map ..
  have hnil : disclosureItems ds ≠ [] := by
    rwa [disclosureItems, ne_eq, List.map_eq_nil_iff]
  have hremaining : m - (ds.length + 1) < usizeBound := by omega
  have hsize' : 0 + encodedBytes ds < usizeBound := by rwa [Nat.zero_add]
  have hbytes' : 0 + encodedBytes ds ≤ limits.maxDisclosureBytes := by rwa [Nat.zero_add]
  have hrounds := @readDisclosures_iff c limits hr ds hmade [] 0 _ m hremaining
    hsize' hbytes' hsalts (fun _ _ => List.not_mem_nil)
  simp only [disclosuresFromUnprotected, hget, Except.seq_eq_ok, Except.failIf_eq_ok, not_lt,
    hlength]
  constructor
  · rintro ⟨ds', hread⟩
    obtain ⟨-, -, -, hitems, h⟩ := hread
    have hle := hrounds.mp ⟨ds', h⟩
    omega
  · intro hle
    obtain ⟨ds', h⟩ := hrounds.mpr (by omega)
    exact ⟨ds', hnil, hcount, by omega, by omega, h⟩

end Header

/-- Without disclosures there is nothing to read. -/
theorem disclosuresFromUnprotected_nil (header : Header) :
    disclosuresFromUnprotected c (setDisclosures header []) limits = .ok [] := by
  have hget : (setDisclosures header []).get headerSdClaims = none := by
    rw [setDisclosures, if_pos rfl, BTreeMap.get_remove, if_pos rfl]
  rw [disclosuresFromUnprotected, hget]

/-! ### Issuer and holder -/

/-- A holder counts at most four times the items that the issuer may visit. -/
theorem IssueResult.restoringItems_le {value : Value} {salts : SaltGenerator} {r : IssueResult}
    (h : issueFromPreissuanceWithLimits c value salts hasher limits = .ok r) :
    r.restoringItems ≤ 4 * limits.maxItems := by
  obtain ⟨n, hissues, haffords, _⟩ := issueFromPreissuance_ok h
  have hshaped := hissues.shaped
  have hweight := hshaped.weight
  have hitems := hshaped.items
  have hpos := items_pos r.value
  have hcounted := (weights_eq r.disclosures).1
  rw [TraversalBudget.Affords] at haffords
  simp only at haffords
  rw [IssueResult.restoringItems]
  omega

/-- **How the limits of an issuer and a holder go together**: the holder needs the same
limits, but for that on items, of which the holder counts more. -/
theorem issueFromPreissuance_coherent (hr : c.ReadsCanonically)
    {value : Value} {salts : SaltGenerator} {r : IssueResult}
    (h : issueFromPreissuanceWithLimits c value salts hasher limits = .ok r) :
    r.Coherent c limits hasher := by
  obtain ⟨n, hissues, haffords, hcount, hsize, hbytes, _, hsalts⟩ := issueFromPreissuance_ok h
  have hshaped := hissues.shaped
  have hpos := items_pos r.value
  have hn : n ≤ limits.maxItems := by
    have hitems := hshaped.items
    rw [TraversalBudget.Affords] at haffords
    simp only at haffords
    omega
  have hweight := hshaped.weight
  have hcounted := weights_eq r.disclosures
  refine ⟨fun m hm => restores_iff h hm, fun m hm header => ?_, ?_, ?_⟩
  · rw [IssueResult.headerItems]
    split_ifs with hnil
    · rw [hnil]
      exact ⟨fun _ => Nat.zero_le m, fun _ => ⟨[], disclosuresFromUnprotected_nil header⟩⟩
    · exact disclosuresFromUnprotected_iff hr hshaped.made hm hcount hsize hbytes hsalts header
        hnil
  · exact IssueResult.restoringItems_le h
  · have hnorm := disclosedItems_asRead_le r.disclosures
    rw [IssueResult.headerItems]
    split_ifs with hnil
    · exact Nat.zero_le _
    · omega

theorem issueFromPreissuance_coherent_hidden :
    ∃ r, issueFromPreissuanceWithLimits .reference hiddenRequests countingSalts plainHasher {} =
      .ok r ∧ r.Coherent .reference {} plainHasher := by
  have hok : (issueFromPreissuanceWithLimits .reference hiddenRequests countingSalts plainHasher
      {}).isOk = true := rfl
  obtain ⟨r, hr⟩ := Except.isOk_iff.mp hok
  exact ⟨r, hr, issueFromPreissuance_coherent SdCbor2.reference_readsCanonically hr⟩

/-- What is issued under some limits is restored and read under the same. -/
def SameLimitsSuffice (c : SdCbor2) : Prop :=
  ∀ (limits : ProcessingLimits) (hasher : RedactionHasher), hasher.digest.Injective →
    ∀ (value : Value) (salts : SaltGenerator) (r : IssueResult),
      issueFromPreissuanceWithLimits c value salts hasher limits = .ok r →
      (∃ report, restoreWithLimits c .holder r.value r.disclosures hasher limits = .ok report) ∧
        ∀ header, ∃ ds, disclosuresFromUnprotected c (setDisclosures header r.disclosures) limits =
          .ok ds

/-- `{58(100): 0}`. -/
def hiddenNumber : Value :=
  .map [(.tag toBeRedactedTag (Label.int 100).toValue, (Label.int 0).toValue)]

/-- Four items are visited to hide one claim, and nine to restore it. -/
theorem not_sameLimitsSuffice : ¬ SameLimitsSuffice .reference := by
  intro hsuffice
  have hok : (issueFromPreissuanceWithLimits .reference hiddenNumber countingSalts plainHasher
      { maxItems := 4 }).isOk = true := rfl
  obtain ⟨r, hr⟩ := Except.isOk_iff.mp hok
  obtain ⟨⟨report, hrestore⟩, _⟩ := hsuffice _ plainHasher (fun _ _ h => h) _ _ r hr
  have hfails : (issueFromPreissuanceWithLimits .reference hiddenNumber countingSalts plainHasher
      { maxItems := 4 } >>= fun r =>
        restoreWithLimits .reference .holder r.value r.disclosures plainHasher
          { maxItems := 4 }).isOk = false := rfl
  rw [hr, Except.ok_bind, hrestore] at hfails
  cases hfails

end Cose2.SdCwt
