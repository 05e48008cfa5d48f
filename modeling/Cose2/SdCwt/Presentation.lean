import Cose2.SdCwt.Coherence
import Cose2.SdCwt.Limits

/-! # Presenting what is issued

A holder may present any of the disclosures of an issued value.  Restoration succeeds if with
each disclosure all those are presented in whose values it is hidden.  What is restored
is then what the pre-issuance value shows of itself for this selection: with all
disclosures, everything but the requests.
-/
namespace Cose2.SdCwt

open Cbor

variable {c : SdCbor2} {limits limits' : ProcessingLimits} {hasher : RedactionHasher}

/-! ### The requests -/

/-- The tag of the request that a disclosure is made for. -/
def Disclosure.request (d : Disclosure) : UInt64 :=
  if d.kind.isDecoy then toBeDecoyTag else toBeRedactedTag

theorem Disclosure.request_of_kind {d : Disclosure} {kind : DisclosureKind}
    (h : Disclosure.fromKindWithLimits c kind limits = .ok d) :
    d.request = if kind.isDecoy then toBeDecoyTag else toBeRedactedTag := by
  rw [request, ((fromKindWithLimits_ok c).mp h).1]

section Requests

variable {R : Nat → Value → Value → List Disclosure → Nat → Prop} {depth : Nat}
  (hnot : ∀ depth v iv ds n, R depth v iv ds n → NotRequest v)
  (hR : ∀ depth v iv ds n, R depth v iv ds n → ds.map Disclosure.request = requests v)
include hR

theorem EntriesIssue.requests {es out : List (Value × Value)} {labels hidden : List Label}
    {own ds : List Disclosure} {n : Nat}
    (h : EntriesIssue c limits R depth es out labels own hidden ds n) :
    ds.map Disclosure.request = requestsEntries es := by
  induction h with
  | nil => rfl
  | redacted _ _ hvalue hd _ ih =>
    rw [requestsEntries, List.map_append, List.map_cons, ih, hR _ _ _ _ _ hvalue,
      Disclosure.request_of_kind hd, taggedInner_eq_some.mpr rfl]
    rfl
  | @decoy inner salt d es out labels hidden own ds n _ hd _ ih =>
    have hother : taggedInner toBeRedactedTag (.tag toBeDecoyTag inner) = none := rfl
    rw [requestsEntries, List.map_cons, ih, Disclosure.request_of_kind hd, hother,
      taggedInner_eq_some.mpr rfl]
    rfl
  | plain hlabel hvalue _ ih =>
    rw [requestsEntries, List.map_append, ih, hR _ _ _ _ _ hvalue, taggedInner_label hlabel,
      taggedInner_label hlabel]

include hnot

theorem ItemsIssue.requests {vs out : List Value} {ds : List Disclosure} {n : Nat}
    (h : ItemsIssue c limits hasher R depth vs out ds n) :
    ds.map Disclosure.request = requestsItems vs := by
  induction h with
  | nil => rfl
  | cons hitem _ ih =>
    rw [List.map_append, ih]
    cases hitem with
    | @redacted inner _ _ d ds _ hvalue hd =>
      have hother : taggedInner toBeDecoyTag (.tag toBeRedactedTag inner) = none := rfl
      rw [requestsItems, hother, List.map_append, hR _ _ _ _ _ hvalue, List.map_singleton,
        Disclosure.request_of_kind hd, taggedInner_eq_some.mpr rfl, List.append_assoc]
      rfl
    | decoy _ hd =>
      rw [requestsItems, List.map_singleton, Disclosure.request_of_kind hd,
        taggedInner_eq_some.mpr rfl]
      rfl
    | plain hvalue =>
      obtain ⟨hredacted, hdecoy⟩ := hnot _ _ _ _ _ hvalue
      rw [requestsItems, hredacted, hdecoy, hR _ _ _ _ _ hvalue]

theorem ValueIssues.requests {v iv : Value} {ds : List Disclosure} {n : Nat}
    (h : ValueIssues c limits hasher R depth v iv ds n) :
    ds.map Disclosure.request = SdCwt.requests v := by
  cases h with
  | map _ _ hes => exact hes.requests hR
  | array _ _ hitems => exact hitems.requests hnot hR
  | tag _ _ hvalue =>
    rw [SdCwt.requests]
    exact hR _ _ _ _ _ hvalue
  | scalar _ hscalar =>
    cases v with
    | integer | bytes | text | float | bool | null | simple => rfl
    | tag | array | map => exact hscalar.elim

omit hnot hR in
/-- There is a disclosure for each request. -/
theorem Issues.requests {levels depth : Nat} {v iv : Value} {ds : List Disclosure} {n : Nat}
    (h : Issues c limits hasher levels depth v iv ds n) :
    ds.map Disclosure.request = SdCwt.requests v := by
  induction levels generalizing depth v iv ds n with
  | zero => exact h.elim
  | succ levels ih =>
    exact ValueIssues.requests (fun _ _ _ _ _ h => h.notRequest) (fun _ _ _ _ _ h => ih h) h

end Requests

/-- The tags of the requests count what is disclosed, and the decoys. -/
theorem count_requests (ds : List Disclosure) :
    (ds.map Disclosure.request).count toBeRedactedTag = ds.countP (fun d => !d.kind.isDecoy) ∧
      (ds.map Disclosure.request).count toBeDecoyTag = ds.countP (fun d => d.kind.isDecoy) := by
  constructor
  · rw [List.count, List.countP_map]
    refine List.countP_congr fun d _ => ?_
    rw [Function.comp_apply, Disclosure.request]
    cases d.kind.isDecoy with
    | true | false => decide
  · rw [List.count, List.countP_map]
    refine List.countP_congr fun d _ => ?_
    rw [Function.comp_apply, Disclosure.request]
    cases d.kind.isDecoy with
    | true | false => decide

/-! ### Selections -/

/-- Limits that restoration does not hit for what was issued within the first ones: it counts
up to four times as many items. -/
structure ProcessingLimits.Ample (limits limits' : ProcessingLimits) : Prop where
  within : limits.Within limits'
  fourfold : 4 * limits.maxItems ≤ limits'.maxItems
  size : 4 * limits.maxItems < usizeBound

/-- Whether a disclosure is among those selected.  Disclosures are told apart by their digests. -/
def selects (hasher : RedactionHasher) (selected : List Disclosure) (d : Disclosure) : Bool :=
  d.redactedHash hasher ∈ selected.map fun d => d.redactedHash hasher

/-- With a disclosure, all those are selected in whose values its hash stands. -/
def ParentClosed (hasher : RedactionHasher) (ds selected : List Disclosure) : Prop :=
  ∀ d ∈ selected, ∀ p ∈ ds, d.redactedHash hasher ∈ p.markers.map Marker.hash → p ∈ selected

variable {ds selected : List Disclosure}

theorem sum_le_of_subperm (h : selected.Subperm ds) (f : Disclosure → Nat) :
    (selected.map f).sum ≤ (ds.map f).sum := by
  obtain ⟨ds', hperm, hsub⟩ := h
  rw [← (hperm.map f).sum_eq]
  exact (hsub.map f).sum_le_sum (by simp)

theorem nodup_of_subperm {α : Type} {f : Disclosure → α} (h : selected.Subperm ds)
    (hnodup : (ds.map f).Nodup) : (selected.map f).Nodup := by
  obtain ⟨ds', hperm, hsub⟩ := h
  exact (hperm.map f).nodup_iff.mp (hnodup.sublist (hsub.map f))

/-- Fewer disclosures can be loaded if more can. -/
theorem Loads.of_subperm (h : Loads hasher 0 0 [] ∅ { limits } ds) (hsub : selected.Subperm ds) :
    Loads hasher 0 0 [] ∅ { limits } selected where
  count := (Nat.add_le_add_left hsub.length_le 0).trans h.count
  size := (Nat.add_le_add_left (sum_le_of_subperm hsub _) 0).trans_lt h.size
  bytes := (Nat.add_le_add_left (sum_le_of_subperm hsub _) 0).trans h.bytes
  items := h.items.mono (sum_le_of_subperm hsub _)
  digests := nodup_of_subperm hsub h.digests
  newDigests := fun d hd => h.newDigests d (hsub.subset hd)
  distinctSalts := nodup_of_subperm hsub h.distinctSalts
  newSalts := fun d hd => h.newSalts d (hsub.subset hd)

theorem selects_iff (hdigests : (ds.map fun d => d.redactedHash hasher).Nodup)
    (hsub : selected ⊆ ds) {d : Disclosure} (hd : d ∈ ds) :
    selects hasher selected d = true ↔ d ∈ selected := by
  rw [selects, decide_eq_true_iff, List.mem_map]
  constructor
  · rintro ⟨d', hd', heq⟩
    rwa [← List.inj_on_of_nodup_map hdigests (hsub hd') hd heq]
  · exact fun h => ⟨d, h, rfl⟩

/-! ### What a selection meets -/

section Selection

variable {mode : RestoreMode} {value : Value} {report : RestoreReport} {ms : List Meeting}
  {roots : List Marker}

/-- The disclosures used up are among all. -/
theorem Answered.usedUp_subperm {shown : Disclosure → Bool} (h : Answered hasher shown ms ds) :
    (usedUp ms).Subperm ds := by
  obtain ⟨es, hperm, hsub⟩ := h.among
  have hused : (es.filterMap Prod.snd).Perm (usedUp ms) := by
    have hfound := hperm.filterMap Prod.snd
    rwa [List.filterMap_map] at hfound
  have hsub := hsub.filterMap Prod.snd
  have hfilter : (ds.map fun d => d.meeting hasher shown).filterMap Prod.snd = ds.filter shown := by
    rw [List.filterMap_map, ← List.filterMap_eq_filter]
    rfl
  rw [hfilter] at hsub
  exact hused.symm.subperm.trans (hsub.trans List.filter_sublist).subperm

/-- A marker met for a disclosure is asked for by its digest. -/
theorem Answered.mem {shown : Disclosure → Bool} (h : Answered hasher shown ms ds) {m : Meeting}
    (hm : m ∈ ms) :
    ∃ d ∈ ds, d.redactedHash hasher = m.1.hash ∧ m.2 = if shown d then some d else none := by
  obtain ⟨d, hd, heq⟩ := List.mem_map.mp (h.among.subset (List.mem_map_of_mem hm))
  rw [Disclosure.meeting, Prod.mk.injEq] at heq
  exact ⟨d, hd, heq.1, heq.2.symm⟩

theorem Answered.nodup {shown : Disclosure → Bool} (h : Answered hasher shown ms ds)
    (hdigests : (ds.map fun d => d.redactedHash hasher).Nodup) :
    (BTreeMap.asked Marker.hash ms).Nodup := by
  obtain ⟨es, hperm, hsub⟩ := h.among
  have hes := hsub.map Prod.fst
  have hasked := hperm.map Prod.fst
  rw [List.map_map] at hes hasked
  exact hasked.nodup_iff.mp (hdigests.sublist hes)

/-- The markers met are those of the selection that is loaded. -/
theorem Answered.finds (h : Answered hasher (selects hasher selected) ms ds)
    (hdigests : (ds.map fun d => d.redactedHash hasher).Nodup) (hsub : selected.Subperm ds) :
    BTreeMap.Finds Marker.hash (BTreeMap.ofList (digested hasher selected)) ms := by
  have hnodup := h.nodup hdigests
  refine (BTreeMap.finds_iff_of_once fun _ _ => List.nodup_iff_count_le_one.mp hnodup _).mpr ?_
  intro m hm
  obtain ⟨d, hd, hhash, hfound⟩ := h.mem hm
  have hget := @get_digested hasher selected (nodup_of_subperm hsub hdigests) m.1.hash
  rw [hfound]
  split_ifs with hselects
  · exact hget.mpr ⟨(selects_iff hdigests hsub.subset hd).mp hselects, hhash⟩
  · rw [Option.eq_none_iff_forall_ne_some]
    intro d' hd'
    obtain ⟨hmem, heq⟩ := hget.mp hd'
    refine hselects (decide_eq_true (List.mem_map.mpr ⟨d', hmem, ?_⟩))
    rw [heq, hhash]

/-- In a closed selection no disclosure is out of reach. -/
theorem Answered.reaches (h : Answered hasher (selects hasher selected) ms ds)
    (hdigests : (ds.map fun d => d.redactedHash hasher).Nodup) (hsub : selected ⊆ ds)
    (hclosed : ParentClosed hasher ds selected) (hacc : Accounted roots ms)
    {all : List Meeting} (huses : Uses hasher all ds) (hall : Accounted roots all) :
    ∀ d ∈ selected, d.redactedHash hasher ∈ BTreeMap.asked Marker.hash ms := by
  have hmet {m : Marker} (hm : m ∈ roots ++ (usedUp ms).flatMap Disclosure.markers) :
      m.hash ∈ BTreeMap.asked Marker.hash ms := by
    obtain ⟨e, he, heq⟩ := List.mem_map.mp (hacc.markers.mem_iff.mpr hm)
    rw [← heq]
    exact List.mem_map_of_mem he
  have hreach {m : Marker} (hm : Reached roots (BTreeMap.found all) m) :
      ∀ d ∈ selected, d.redactedHash hasher = m.hash →
        m.hash ∈ BTreeMap.asked Marker.hash ms := by
    induction hm with
    | root hm => exact fun d _ _ => hmet (List.mem_append_left _ hm)
    | @inside m m' p _ hp hm ih =>
      intro d hd hdigest
      -- the disclosure `p` in whose value the marker stands is selected too, and so used up
      obtain ⟨e, he, heq⟩ := List.mem_filterMap.mp hp
      obtain ⟨p', hp', heq⟩ := Option.map_eq_some_iff.mp heq
      rw [Prod.mk.injEq] at heq
      obtain ⟨rfl, rfl⟩ := heq
      have hpdigest := huses.digests e he p' hp'
      have hpds : p' ∈ ds := by
        have hmem := huses.found.mem_iff.mp (List.mem_map_of_mem he)
        rw [hp'] at hmem
        obtain ⟨p, hp, heq⟩ := List.mem_map.mp hmem
        rwa [← Option.some.inj heq]
      have hinside : d.redactedHash hasher ∈ p'.markers.map Marker.hash := by
        rw [hdigest]
        exact List.mem_map_of_mem hm
      have hpselected := hclosed d hd p' hpds hinside
      obtain ⟨e', he', hhash⟩ := List.mem_map.mp (ih p' hpselected hpdigest)
      obtain ⟨q, hq, hqhash, hfound⟩ := h.mem he'
      obtain rfl : q = p' := List.inj_on_of_nodup_map hdigests hq hpds
        (hqhash.trans (hhash.trans hpdigest.symm))
      rw [if_pos ((selects_iff hdigests hsub hpds).mpr hpselected)] at hfound
      refine hmet (List.mem_append_right _ (List.mem_flatMap.mpr ⟨q, ?_, hm⟩))
      exact List.mem_filterMap.mpr ⟨e', he', hfound⟩
  intro d hd
  have hmem := huses.found.mem_iff.mpr (List.mem_map_of_mem (hsub hd))
  obtain ⟨e, he, hfound⟩ := List.mem_map.mp hmem
  have hdigest := huses.digests e he d hfound
  rw [hdigest]
  exact hreach (hall.reached e he) d hd hdigest

/-- A selection all of which is used up is closed. -/
theorem Presented.parentClosed {n : Nat}
    (h : Presented mode limits' false value none hasher selected report ms n)
    (honce : (allHashes value ds).Nodup) (hsub : selected ⊆ ds) :
    ParentClosed hasher ds selected := by
  intro d hd p hp hmem
  have hacc := h.accounts
  obtain ⟨⟨m, d'⟩, hused, heq⟩ := List.mem_map.mp (hacc.once.mem_iff.mpr hd)
  obtain rfl : d' = d := heq
  have hdigest : m.hash = d'.redactedHash hasher := hacc.digest _ hused
  rw [← hdigest] at hmem
  rw [allHashes, List.map_append, List.nodup_append, List.map_flatMap, List.nodup_flatMap] at honce
  obtain ⟨-, ⟨-, hdisjoint⟩, hroots⟩ := honce
  have hreached := hacc.reached m (List.mem_append_left _ (List.mem_map_of_mem hused))
  cases hreached with
  | root hm =>
    -- the hash would stand in the issued value too
    refine absurd rfl (hroots _ (List.mem_map_of_mem hm) _ (List.mem_flatMap.mpr ⟨p, hp, hmem⟩))
  | @inside m' _ q _ hq hm =>
    have hqselected : q ∈ selected := hacc.once.mem_iff.mp (List.mem_map_of_mem hq)
    by_cases hpq : p = q
    · rwa [hpq]
    · have : Std.Symm (Function.onFun List.Disjoint fun d : Disclosure =>
          d.markers.map Marker.hash) := ⟨fun _ _ h => h.symm⟩
      exact absurd (List.mem_map_of_mem hm)
        (fun hin => hdisjoint.forall hp (hsub hqselected) hpq hmem hin)

end Selection

/-! ### Presentations -/

variable {value : Value} {salts : SaltGenerator} {r : IssueResult}

/-- The hashes in what is issued and in the disclosed values are distinct. -/
theorem nodup_allHashes (h : issueFromPreissuanceWithLimits c value salts hasher limits = .ok r) :
    (allHashes r.value r.disclosures).Nodup := by
  obtain ⟨n, hissues, _, _, _, _, hdigests, _⟩ := issueFromPreissuance_ok h
  exact hissues.shaped.hashes.nodup_iff.mpr hdigests

/-- What is issued can be loaded within ample limits. -/
theorem loads_issued (h : issueFromPreissuanceWithLimits c value salts hasher limits = .ok r)
    (hample : limits.Ample limits') :
    Loads hasher 0 0 [] ∅ { limits := limits' } r.disclosures := by
  obtain ⟨n, hissues, _, hcount, hsize, hbytes, hdigests, hsalts⟩ := issueFromPreissuance_ok h
  have hitems := IssueResult.restoringItems_le h
  have hfourfold := hample.fourfold
  have hbound := hample.size
  rw [IssueResult.restoringItems] at hitems
  refine ⟨?_, ?_, ?_, ?_, hdigests, fun _ _ => rfl, hsalts, fun _ _ => List.not_mem_nil⟩
  · rw [Nat.zero_add]
    exact hcount.trans hample.within.disclosures
  · rwa [Nat.zero_add]
  · rw [Nat.zero_add]
    exact hbytes.trans hample.within.disclosureBytes
  · rw [TraversalBudget.Affords]
    simp only
    omega

/-- A closed selection is presented. -/
theorem exists_presented
    (h : issueFromPreissuanceWithLimits c value salts hasher limits = .ok r)
    (hample : limits.Ample limits') {selected : List Disclosure}
    (hselected : selected.Subperm r.disclosures)
    (hclosed : ParentClosed hasher r.disclosures selected) (mode : RestoreMode)
    (hmode : mode = .holder → r.disclosures ⊆ selected) :
    ∃ report ms n, Presented mode limits' false r.value none hasher selected report ms n ∧
      Shows value (r.disclosures.map (selects hasher selected)) report.value := by
  obtain ⟨_, hissues, _, _, _, _, hdigests, _⟩ := issueFromPreissuance_ok h
  obtain ⟨out, ms, n, hrestores, hms, hshows⟩ := hissues.presents ⟨rfl, rfl⟩
    (selects hasher selected) (limits.maxDepth + 1) 0 (Nat.le_refl 0) rfl
  obtain ⟨_, all, _, hrestoresAll, huses⟩ := @Issues.restores _ _ limits _ ⟨rfl, rfl⟩ _ _ _ _ _ _
    hissues (limits.maxDepth + 1) 0 (Nat.le_refl 0) rfl
  have hloads := loads_issued h hample
  have hmet := hms.reaches hdigests hselected.subset hclosed hrestores.accounted huses
    hrestoresAll.accounted
  have haffords : (startRestoring hasher limits' false selected).budget.Affords n := by
    have hitems := IssueResult.restoringItems_le h
    have hfourfold := hample.fourfold
    have hbound := hample.size
    have hloaded : disclosedItems selected ≤ disclosedItems r.disclosures :=
      sum_le_of_subperm hselected _
    have hentered : allValueItems (usedUp ms) ≤ allValueItems r.disclosures :=
      sum_le_of_subperm hms.usedUp_subperm _
    rw [IssueResult.restoringItems] at hitems
    rw [hrestores.visits, TraversalBudget.Affords, startRestoring]
    simp only
    omega
  have hanswered (hholder : mode = .holder) : ∀ m ∈ ms, m.2 ≠ none := by
    intro m hm
    obtain ⟨d, hd, _, hfound⟩ := hms.mem hm
    have hselects := (selects_iff hdigests hselected.subset hd).mpr (hmode hholder hd)
    rw [hfound, if_pos hselects]
    exact Option.some_ne_none d
  have hroot := hrestores.widen hample.within (Nat.succ_le_succ hample.within.depth)
  refine ⟨⟨out, none, _, _, _⟩, ms, n, ⟨hloads.of_subperm hselected, ?_, ?_, ?_, rfl⟩, hshows⟩
  · exact ⟨[], ms, 0, n, rfl, (Nat.zero_add n).symm, .absent, hroot⟩
  · exact ⟨hms.finds hdigests hselected, hanswered, haffords⟩
  · exact removeAll_digested (nodup_of_subperm hselected hdigests) hmet

/-- **A holder gets everything back**: with all disclosures the pre-issuance value is restored,
without the requests and up to the order of map entries, and the report counts the requests. -/
theorem issueFromPreissuance_restores
    (h : issueFromPreissuanceWithLimits c value salts hasher limits = .ok r)
    (hample : limits.Ample limits') :
    ∃ report, restoreWithLimits c .holder r.value r.disclosures hasher limits' = .ok report ∧
      SameData (stripped value) report.value ∧
      report.disclosed = (requests value).count toBeRedactedTag ∧
      report.decoys = (requests value).count toBeDecoyTag ∧ report.removedRedactions = 0 := by
  obtain ⟨_, hissues, _⟩ := issueFromPreissuance_ok h
  obtain ⟨report, ms, n, hpresented, hshows⟩ := exists_presented h hample (.refl r.disclosures)
    (fun _ _ p hp _ => hp) .holder fun _ => List.Subset.refl _
  have hacc := hpresented.accounts
  have hrequests := hissues.requests
  have hall : r.disclosures.map (selects hasher r.disclosures) = allShown (requests value) := by
    rw [← hrequests, allShown, List.length_map, List.map_eq_replicate_iff]
    exact fun d hd => decide_eq_true (List.mem_map_of_mem hd)
  have hsame := hshows.sameData
  have hreveal := reveal_allShown value []
  rw [List.append_nil] at hreveal
  rw [hall, hreveal] at hsame
  have hcount := count_requests r.disclosures
  rw [hrequests] at hcount
  refine ⟨report, restoreWithLimits_ok.mpr ⟨ms, n, hpresented⟩, hsame, ?_, ?_, ?_⟩
  · rw [hacc.disclosed, hcount.1, ← hacc.once.countP_eq, List.countP_map]
    rfl
  · rw [hacc.decoys, hcount.2, ← hacc.once.countP_eq, List.countP_map]
    rfl
  · rw [hacc.removedRedactions, hacc.holder rfl]
    rfl

/-- `{58(100): {58(101): null}, 102: [62(1)]}`. -/
def nestedRequests : Value :=
  .map [(.tag toBeRedactedTag (Label.int 100).toValue,
      .map [(.tag toBeRedactedTag (Label.int 101).toValue, .null)]),
    ((Label.int 102).toValue, .array [.tag toBeDecoyTag (Label.int 1).toValue])]

/-- Limits for four times the items of the default. -/
def ampleLimits : ProcessingLimits := { maxItems := 400000 }

theorem ample_ampleLimits : ProcessingLimits.Ample {} ampleLimits :=
  ⟨⟨by decide, by decide, by decide, by decide, by decide⟩, by decide, by decide⟩

/-- Two claims and a decoy, one claim in the other. -/
theorem issueFromPreissuance_restores_nested :
    ∃ r report, issueFromPreissuanceWithLimits .reference nestedRequests countingSalts plainHasher
        {} = .ok r ∧
      restoreWithLimits .reference .holder r.value r.disclosures plainHasher ampleLimits =
        .ok report ∧
      SameData (.map [((Label.int 100).toValue, .map [((Label.int 101).toValue, .null)]),
        ((Label.int 102).toValue, .array [])]) report.value ∧
      report.disclosed = 2 ∧ report.decoys = 1 ∧ report.removedRedactions = 0 := by
  have hok : (issueFromPreissuanceWithLimits .reference nestedRequests countingSalts plainHasher
      {}).isOk = true := rfl
  obtain ⟨r, hr⟩ := Except.isOk_iff.mp hok
  obtain ⟨report, h⟩ := issueFromPreissuance_restores hr ample_ampleLimits
  exact ⟨r, report, hr, h⟩

/-- **What a verifier accepts of a presentation, and what it sees**: the selections that are
closed, and what the pre-issuance value shows for them.  No hash is left in it. -/
theorem issueFromPreissuance_presents
    (h : issueFromPreissuanceWithLimits c value salts hasher limits = .ok r)
    (hample : limits.Ample limits') {selected : List Disclosure}
    (hselected : selected.Subperm r.disclosures) :
    ((∃ report, restoreWithLimits c .verifier r.value selected hasher limits' = .ok report) ↔
      ParentClosed hasher r.disclosures selected) ∧
    ∀ report, restoreWithLimits c .verifier r.value selected hasher limits' = .ok report →
      SameData (reveal value (r.disclosures.map (selects hasher selected))).1 report.value ∧
        Disclosed report.value := by
  have hclosed (report : RestoreReport)
      (hrestore : restoreWithLimits c .verifier r.value selected hasher limits' = .ok report) :
      ParentClosed hasher r.disclosures selected := by
    obtain ⟨ms, n, hpresented⟩ := restoreWithLimits_ok.mp hrestore
    exact hpresented.parentClosed (nodup_allHashes h) hselected.subset
  have hpresented (hclosed : ParentClosed hasher r.disclosures selected) :
      ∃ report, restoreWithLimits c .verifier r.value selected hasher limits' = .ok report ∧
        Shows value (r.disclosures.map (selects hasher selected)) report.value := by
    obtain ⟨report, ms, n, hpresented, hshows⟩ := exists_presented h hample hselected hclosed
      .verifier (by rintro ⟨⟩)
    exact ⟨report, restoreWithLimits_ok.mpr ⟨ms, n, hpresented⟩, hshows⟩
  refine ⟨⟨?_, fun hclosed => ?_⟩, fun report hrestore => ?_⟩
  · rintro ⟨report, hrestore⟩
    exact hclosed report hrestore
  · obtain ⟨report, hrestore, -⟩ := hpresented hclosed
    exact ⟨report, hrestore⟩
  · obtain ⟨report', hrestore', hshows⟩ := hpresented (hclosed report hrestore)
    rw [hrestore, Except.ok.injEq] at hrestore'
    subst hrestore'
    exact ⟨hshows.sameData, (restore_accounts hrestore).1.value⟩

/-- The disclosure made for the inner claim. -/
def innerClaim : Disclosure where
  kind := .claim (List.replicate 16 0) (.int 101) .null
  encoded := (DisclosureKind.claim (List.replicate 16 0) (.int 101) .null).toValue.canonical
  valid := rfl

/-- The value of the outer claim, in which the inner one is hidden. -/
def outerValue : Value := .map [(redactedClaimKeysLabel, .array [.bytes innerClaim.encoded])]

/-- The disclosure made for the outer claim. -/
def outerClaim : Disclosure where
  kind := .claim (List.replicate 16 1) (.int 100) outerValue
  encoded := (DisclosureKind.claim (List.replicate 16 1) (.int 100) outerValue).toValue.canonical
  valid := rfl

/-- `{58(100): {58(101): null}}`. -/
def claimInClaim : Value :=
  .map [(.tag toBeRedactedTag (Label.int 100).toValue,
    .map [(.tag toBeRedactedTag (Label.int 101).toValue, .null)])]

/-- The inner claim cannot be presented without the outer one, but the outer one can. -/
theorem issueFromPreissuance_presents_nested :
    (¬ ∃ report, restoreWithLimits .reference .verifier
      (.map [(redactedClaimKeysLabel, .array [.bytes outerClaim.encoded])]) [innerClaim]
      plainHasher ampleLimits = .ok report) ∧
    ∃ report, restoreWithLimits .reference .verifier
      (.map [(redactedClaimKeysLabel, .array [.bytes outerClaim.encoded])]) [outerClaim]
      plainHasher ampleLimits = .ok report ∧
      SameData (.map [((Label.int 100).toValue, .map [])]) report.value := by
  have h : issueFromPreissuanceWithLimits .reference claimInClaim countingSalts plainHasher {} =
      .ok ⟨.map [(redactedClaimKeysLabel, .array [.bytes outerClaim.encoded])],
        [innerClaim, outerClaim]⟩ := rfl
  have hinner := (issueFromPreissuance_presents h ample_ampleLimits
    (List.Sublist.subperm (.cons_cons innerClaim (List.nil_sublist [outerClaim])))).1
  have houter := issueFromPreissuance_presents h ample_ampleLimits
    (List.Sublist.subperm (.cons innerClaim (.refl [outerClaim])))
  have hclosed : ParentClosed plainHasher [innerClaim, outerClaim] [outerClaim] := by
    intro d _ p hp hmem
    rcases List.mem_cons.mp hp with rfl | hp
    · exact absurd hmem List.not_mem_nil
    · exact hp
  obtain ⟨report, hreport⟩ := houter.1.mpr hclosed
  refine ⟨fun hpresented => ?_, report, hreport, (houter.2 report hreport).1⟩
  have hmem := hinner.mp hpresented innerClaim List.mem_cons_self outerClaim
    (List.mem_cons_of_mem _ List.mem_cons_self) (by decide)
  have hsalt := congrArg Disclosure.salt (List.mem_singleton.mp hmem)
  exact absurd hsalt (by decide)

end Cose2.SdCwt
