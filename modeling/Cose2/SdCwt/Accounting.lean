import Cose2.SdCwt.Derivation
import Cose2.SdCwt.Loading

/-! # Accounting for disclosures

Every marker that restoration meets stands in an input or in the value of a
disclosure that has been used up, and every one of these is met once.  So the three
counts of a report add up to the markers of all these values, and when nothing is
left pending the disclosures have been used up one each.
-/
namespace Cose2.SdCwt

open Cbor

/-- The markers that are come upon: those of the inputs, and those in the value of a
disclosure that is used up at one of them. -/
inductive Reached (roots : List Marker) (used : List (Marker × Disclosure)) : Marker → Prop
  | root {m : Marker} : m ∈ roots → Reached roots used m
  | inside {m m' : Marker} {d : Disclosure} : Reached roots used m → (m, d) ∈ used →
    m' ∈ d.markers → Reached roots used m'

theorem Reached.mono {roots roots' : List Marker} {used used' : List (Marker × Disclosure)}
    (hroots : ∀ m ∈ roots, Reached roots' used' m) (hused : ∀ p ∈ used, p ∈ used') {m : Marker}
    (h : Reached roots used m) : Reached roots' used' m := by
  induction h with
  | root hm => exact hroots _ hm
  | inside _ hd hm ih => exact .inside ih (hused _ hd) hm

/-- The markers met are those of `roots` and those they lead to. -/
structure Accounted (roots : List Marker) (ms : List Meeting) : Prop where
  markers : (ms.map Prod.fst).Perm (roots ++ (usedUp ms).flatMap Disclosure.markers)
  fits : ∀ p ∈ BTreeMap.found ms, p.1.Fits p.2.kind
  reached : ∀ m ∈ ms, Reached roots (BTreeMap.found ms) m.1

namespace Accounted

variable {roots roots' : List Marker} {ms ms' : List Meeting}

theorem nil : Accounted [] [] := ⟨.refl _, List.forall_mem_nil _, List.forall_mem_nil _⟩

theorem of_perm (h : Accounted roots ms) (hperm : roots.Perm roots') : Accounted roots' ms := by
  refine ⟨h.markers.trans (hperm.append_right _), h.fits, fun m hm => ?_⟩
  exact (h.reached m hm).mono (fun m hm => .root (hperm.mem_iff.mp hm)) fun _ => id

theorem append (h : Accounted roots ms) (h' : Accounted roots' ms') :
    Accounted (roots ++ roots') (ms ++ ms') := by
  have hfound : BTreeMap.found (ms ++ ms') = BTreeMap.found ms ++ BTreeMap.found ms' :=
    List.filterMap_append
  refine ⟨?_, fun p hp => ?_, fun m hm => ?_⟩
  · rw [List.map_append, usedUp, List.filterMap_append, List.flatMap_append]
    refine (h.markers.append h'.markers).trans ?_
    rw [List.append_assoc, List.append_assoc]
    refine List.Perm.append_left roots ?_
    rw [← List.append_assoc, ← List.append_assoc]
    exact List.perm_append_comm.append_right _
  · rw [hfound, List.mem_append] at hp
    rcases hp with hp | hp
    · exact h.fits p hp
    · exact h'.fits p hp
  · rw [hfound]
    rcases List.mem_append.mp hm with hm | hm
    · exact (h.reached m hm).mono (fun m hm => .root (List.mem_append_left _ hm))
        fun p hp => List.mem_append_left _ hp
    · exact (h'.reached m hm).mono (fun m hm => .root (List.mem_append_right _ hm))
        fun p hp => List.mem_append_right _ hp

/-- A marker that uses up a disclosure leads to the markers in its value. -/
theorem hit {m : Marker} {d : Disclosure} (hfits : m.Fits d.kind) (h : Accounted d.markers ms) :
    Accounted [m] ((m, some d) :: ms) := by
  have hfound : BTreeMap.found ((m, some d) :: ms) = (m, d) :: BTreeMap.found ms := rfl
  have hfirst : Reached [m] ((m, d) :: BTreeMap.found ms) m := .root List.mem_cons_self
  refine ⟨h.markers.cons m, fun p hp => ?_, fun m' hm' => ?_⟩
  · rcases List.mem_cons.mp hp with rfl | hp
    · exact hfits
    · exact h.fits p hp
  · rw [hfound]
    rcases List.mem_cons.mp hm' with rfl | hm'
    · exact hfirst
    · exact (h.reached m' hm').mono (fun _ => .inside hfirst List.mem_cons_self)
        fun p hp => List.mem_cons_of_mem _ hp

theorem decoy {m : Marker} {d : Disclosure} {salt : Bytes} (h : d.kind = .decoy salt) :
    Accounted [m] [(m, some d)] := by
  refine hit ?_ ?_
  · rw [h]
    exact trivial
  · rw [Disclosure.markers, h]
    exact nil

theorem miss (m : Marker) : Accounted [m] [(m, none)] :=
  ⟨.refl _, List.forall_mem_nil _, fun m' hm' => .root (by
    rw [List.mem_singleton.mp hm']
    exact List.mem_cons_self)⟩

end Accounted

/-! ### What a derivation meets -/

section Derivation

variable {limits : ProcessingLimits} {validate : Bool}
  {next : Value → Value → List Meeting → Nat → Prop} {depth : Nat}
  (hnext : ∀ v v' ms n, next v v' ms n → Accounted (markers v) ms)

include hnext

theorem EntriesRestore.accounted {es out : List (Value × Value)} {labels : List Label}
    {lists : List (List Bytes)} {ms : List Meeting} {n : Nat}
    (h : EntriesRestore limits next depth es out labels lists ms n) :
    ∃ roots, Accounted roots ms ∧
      (markersEntries es).Perm (roots ++ lists.flatten.map (Marker.mk .claimKeys)) := by
  induction h with
  | nil => exact ⟨[], .nil, .refl _⟩
  | @hashes key hs es _ _ lists ms n hkey _ _ _ _ ih =>
    obtain ⟨roots, hacc, hperm⟩ := ih
    refine ⟨roots, hacc, ?_⟩
    rw [markersEntries_hashes hkey, List.flatten_cons, List.map_append]
    refine (hperm.append_left _).trans ?_
    rw [← List.append_assoc, ← List.append_assoc]
    exact List.perm_append_comm.append_right _
  | @claim key value _ _ es _ _ lists ms ms' _ _ hkey _ _ hvalue _ ih =>
    obtain ⟨roots, hacc, hperm⟩ := ih
    refine ⟨markers value ++ roots, (hnext _ _ _ _ hvalue).append hacc, ?_⟩
    rw [markersEntries_claim hkey, List.append_assoc]
    exact hperm.append_left _

theorem HashesRestore.accounted {hs undisclosed : List Bytes} {out : List (Value × Value)}
    {labels : List Label} {ms : List Meeting} {n : Nat}
    (h : HashesRestore validate next depth hs out labels undisclosed ms n) :
    Accounted (hs.map (Marker.mk .claimKeys)) ms := by
  induction h with
  | nil => exact .nil
  | @claim hash salt d key value _ _ _ _ _ ms _ _ _ hkind _ hvalue _ ih =>
    have hmarkers : d.markers = markers value := by rw [Disclosure.markers, hkind]; rfl
    have hfits : (Marker.mk .claimKeys hash).Fits d.kind := by rw [hkind]; rfl
    have hvalue := hnext _ _ _ _ hvalue
    rw [← hmarkers] at hvalue
    exact (Accounted.hit hfits hvalue).append ih
  | decoy hkind _ ih => exact (Accounted.decoy hkind).append ih
  | undisclosed _ ih => exact (Accounted.miss _).append ih

theorem ItemRestores.accounted {item : Value} {out : List Value} {ms : List Meeting} {n : Nat}
    (h : ItemRestores limits validate next depth item out ms n) :
    Accounted (markersItems [item]) ms := by
  cases h with
  | keep hitem hvalue =>
    rw [markersItems_keep hitem, markersItems, List.append_nil]
    exact hnext _ _ _ _ hvalue
  | @disclosed hash salt d value _ ms _ _ hkind hvalue =>
    rw [markersItems_redacted, markersItems]
    have hmarkers : d.markers = markers value := by rw [Disclosure.markers, hkind]; rfl
    refine Accounted.hit (by rw [hkind]; rfl) ?_
    rw [hmarkers]
    exact hnext _ _ _ _ hvalue
  | decoy _ hkind =>
    rw [markersItems_redacted, markersItems]
    exact .decoy hkind
  | undisclosed =>
    rw [markersItems_redacted, markersItems]
    exact .miss _

theorem ItemsRestore.accounted {items out : List Value} {ms : List Meeting} {n : Nat}
    (h : ItemsRestore limits validate next depth items out ms n) :
    Accounted (markersItems items) ms := by
  induction h with
  | nil => exact .nil
  | @cons item items _ _ _ _ _ _ hitem _ ih =>
    have happend : markersItems (item :: items) = markersItems [item] ++ markersItems items := by
      rw [markersItems, markersItems, markersItems, List.append_nil]
    rw [happend]
    exact (hitem.accounted hnext).append ih

theorem ValueRestores.accounted {value value' : Value} {ms : List Meeting} {n : Nat}
    (h : ValueRestores limits validate next depth value value' ms n) :
    Accounted (markers value) ms := by
  cases h with
  | map _ hentries _ hhashes =>
    obtain ⟨roots, hacc, hperm⟩ := hentries.accounted hnext
    rw [markers]
    exact (hacc.append (hhashes.accounted hnext)).of_perm hperm.symm
  | array _ hitems =>
    rw [markers]
    exact hitems.accounted hnext
  | tag _ hvalue =>
    rw [markers]
    exact hnext _ _ _ _ hvalue
  | scalar hscalar =>
    rw [markers_scalar hscalar]
    exact .nil

end Derivation

theorem Restores.accounted {limits : ProcessingLimits} {validate : Bool} {levels depth : Nat}
    {value value' : Value} {ms : List Meeting} {n : Nat}
    (h : Restores limits validate levels depth value value' ms n) :
    Accounted (markers value) ms := by
  induction levels generalizing depth value value' ms n with
  | zero => exact h.elim
  | succ levels ih => exact ValueRestores.accounted (fun _ _ _ _ h => ih h) h

/-! ### What comes out -/

theorem mem_undisclosedEntry {hashes : List Bytes} {e : Value × Value}
    (h : e ∈ undisclosedEntry hashes) :
    e = (redactedClaimKeysLabel, .array (hashes.map .bytes)) ∧ hashes ≠ [] := by
  cases hashes with
  | nil => cases h
  | cons hash hashes => exact ⟨List.mem_singleton.mp h, List.cons_ne_nil _ _⟩

section Output

variable {limits : ProcessingLimits} {validate : Bool}
  {next : Value → Value → List Meeting → Nat → Prop} {depth : Nat}
  (hnext : ∀ v v' ms n, next v v' ms n → Redacted validate v')

include hnext

/-- The entries that come out, whose keys are the labels. -/
theorem EntriesRestore.redacted {es out : List (Value × Value)} {labels : List Label}
    {lists : List (List Bytes)} {ms : List Meeting} {n : Nat}
    (h : EntriesRestore limits next depth es out labels lists ms n) :
    out.map Prod.fst = labels.map Label.toValue ∧
      ∀ e ∈ out, (∃ l, labelFromValue e.1 = .ok l) ∧ Redacted validate e.2 := by
  induction h with
  | nil => exact ⟨rfl, by simp⟩
  | hashes _ _ _ _ _ ih => exact ih
  | claim _ hlabel _ hvalue _ ih =>
    refine ⟨?_, ?_⟩
    · rw [List.map_cons, List.map_cons, ih.1, labelFromValue_ok hlabel]
    · rw [List.forall_mem_cons]
      exact ⟨⟨⟨_, hlabel⟩, hnext _ _ _ _ hvalue⟩, ih.2⟩

/-- The entries that are disclosed; hashes stay undisclosed when they are kept. -/
theorem HashesRestore.redacted {hs undisclosed : List Bytes} {out : List (Value × Value)}
    {labels : List Label} {ms : List Meeting} {n : Nat}
    (h : HashesRestore validate next depth hs out labels undisclosed ms n) :
    out.map Prod.fst = labels.map Label.toValue ∧
      (∀ e ∈ out, (∃ l, labelFromValue e.1 = .ok l) ∧ Redacted validate e.2) ∧
      (undisclosed ≠ [] → validate = true) := by
  induction h with
  | nil => exact ⟨rfl, by simp, fun h => absurd rfl h⟩
  | claim hkind _ hvalue _ ih =>
    refine ⟨?_, ?_, ih.2.2⟩
    · rw [List.map_cons, List.map_cons, ih.1]
    · rw [List.forall_mem_cons]
      exact ⟨⟨⟨_, Disclosure.labelFromValue_key hkind⟩, hnext _ _ _ _ hvalue⟩, ih.2.1⟩
  | decoy _ _ ih => exact ih
  | undisclosed _ ih =>
    refine ⟨ih.1, ih.2.1, fun h => ?_⟩
    by_cases hvalidate : validate = true
    · exact hvalidate
    · rw [if_neg hvalidate] at h
      exact ih.2.2 h

theorem ItemRestores.redacted {item : Value} {out : List Value} {ms : List Meeting} {n : Nat}
    (h : ItemRestores limits validate next depth item out ms n) :
    ∀ v ∈ out, (validate = true ∧ ∃ hash, v = redactedElement hash) ∨ Redacted validate v := by
  intro v hv
  cases h with
  | keep _ hvalue | disclosed _ _ hvalue =>
    rw [List.mem_singleton.mp hv]
    exact .inr (hnext _ _ _ _ hvalue)
  | decoy => cases hv
  | undisclosed =>
    by_cases hvalidate : validate = true
    · rw [if_pos hvalidate] at hv
      exact .inl ⟨hvalidate, _, List.mem_singleton.mp hv⟩
    · rw [if_neg hvalidate] at hv
      cases hv

theorem ItemsRestore.redacted {items out : List Value} {ms : List Meeting} {n : Nat}
    (h : ItemsRestore limits validate next depth items out ms n) :
    ∀ v ∈ out, (validate = true ∧ ∃ hash, v = redactedElement hash) ∨ Redacted validate v := by
  induction h with
  | nil => exact List.forall_mem_nil _
  | cons hitem _ ih =>
    intro v hv
    rcases List.mem_append.mp hv with hv | hv
    · exact hitem.redacted hnext v hv
    · exact ih v hv

theorem ValueRestores.redacted {value value' : Value} {ms : List Meeting} {n : Nat}
    (h : ValueRestores limits validate next depth value value' ms n) :
    Redacted validate value' := by
  cases h with
  | scalar hscalar hlabel => exact .scalar hscalar hlabel
  | tag ht hvalue => exact .tag ht (hnext _ _ _ _ hvalue)
  | array _ hitems =>
    have hout := hitems.redacted hnext
    refine .array (fun v hv helement => ?_) (fun v hv helement => ?_)
    · rcases hout v hv with h | h
      · exact h
      · rw [h.not_redacted] at helement
        cases helement
    · rcases hout v hv with ⟨_, hash, rfl⟩ | h
      · cases helement
      · exact h
  | @map es out disclosed labels labels' lists undisclosed ms ms' n n' _ hentries _ hhashes
      hnodup =>
    obtain ⟨hkeys, hout⟩ := hentries.redacted hnext
    obtain ⟨hkeys', hout', hundisclosed⟩ := hhashes.redacted hnext
    have hmem (e : Value × Value) (he : e ∈ out ++ disclosed) :
        (∃ l, labelFromValue e.1 = .ok l) ∧ Redacted validate e.2 := by
      rcases List.mem_append.mp he with he | he
      · exact hout e he
      · exact hout' e he
    have hkept (e : Value × Value) (he : e ∈ out ++ disclosed) : isVisible e = true := by
      obtain ⟨⟨l, hl⟩, _⟩ := hmem e he
      exact isVisible_of_label hl
    have hdistinct : ((out ++ disclosed).map Prod.fst).Nodup := by
      rw [List.map_append, hkeys, hkeys', ← List.map_append]
      exact hnodup.map Label.toValue_injective
    -- a visible entry is none of those put in for undisclosed hashes
    have hvisible (e : Value × Value)
        (he : e ∈ out ++ disclosed ++ undisclosedEntry undisclosed) (hv : isVisible e = true) :
        e ∈ out ++ disclosed := by
      rcases List.mem_append.mp he with he | he
      · exact he
      · rw [(mem_undisclosedEntry he).1] at hv
        cases hv
    refine .map (fun e he hv => ?_) (fun e he hv => ?_) ?_ (fun e he hv => ?_)
    · rcases List.mem_append.mp he with he | he
      · rw [hkept e he] at hv
        cases hv
      · obtain ⟨rfl, hsome⟩ := mem_undisclosedEntry he
        exact ⟨hundisclosed hsome, undisclosed, rfl⟩
    · exact (hmem e (hvisible e he hv)).1
    · rw [List.map_append, List.nodup_append']
      refine ⟨hdistinct, ?_, ?_⟩
      · cases undisclosed with
        | nil => exact List.nodup_nil
        | cons => exact List.nodup_singleton _
      · intro key hkey hlast
        obtain ⟨e, he, rfl⟩ := List.mem_map.mp hkey
        obtain ⟨e', he', heq⟩ := List.mem_map.mp hlast
        have hv := hkept e he
        rw [isVisible, ← heq, (mem_undisclosedEntry he').1] at hv
        cases hv
    · exact (hmem e (hvisible e he hv)).2

end Output

theorem Restores.redacted {limits : ProcessingLimits} {validate : Bool} {levels depth : Nat}
    {value value' : Value} {ms : List Meeting} {n : Nat}
    (h : Restores limits validate levels depth value value' ms n) : Redacted validate value' := by
  induction levels generalizing depth value value' ms n with
  | zero => exact h.elim
  | succ levels ih => exact ValueRestores.redacted (fun _ _ _ _ h => ih h) h

/-! ### Reports -/

theorem OptionRestores.accounted {limits : ProcessingLimits} {validate : Bool}
    {claims claims' : Option Value} {ms : List Meeting} {n : Nat}
    (h : OptionRestores limits validate claims claims' ms n) :
    Accounted ((claims.map markers).getD []) ms := by
  cases h with
  | absent => exact .nil
  | present h => exact Restores.accounted h

theorem OptionRestores.redacted {limits : ProcessingLimits} {validate : Bool}
    {claims claims' : Option Value} {ms : List Meeting} {n : Nat}
    (h : OptionRestores limits validate claims claims' ms n) :
    ∀ v, claims' = some v → Redacted validate v := by
  intro v hv
  cases h with
  | absent => cases hv
  | present h =>
    cases hv
    exact Restores.redacted h

/-- How the disclosures of a presentation are used up, and what is left of the markers.
`roots` are the markers of the claims maps. -/
structure Accounts (hasher : RedactionHasher) (mode : RestoreMode) (roots : List Marker)
    (ds : List Disclosure) (report : RestoreReport) (used : List (Marker × Disclosure))
    (removed : List Marker) : Prop where
  /-- Every disclosure is used up once. -/
  once : (used.map Prod.snd).Perm ds
  digest : ∀ p ∈ used, p.1.hash = p.2.redactedHash hasher
  fits : ∀ p ∈ used, p.1.Fits p.2.kind
  /-- The markers are those of the inputs and of the disclosed values. -/
  markers : (used.map Prod.fst ++ removed).Perm (roots ++ ds.flatMap Disclosure.markers)
  reached : ∀ m ∈ used.map Prod.fst ++ removed, Reached roots used m
  disclosed : report.disclosed = used.countP fun p => !p.2.kind.isDecoy
  decoys : report.decoys = used.countP fun p => p.2.kind.isDecoy
  removedRedactions : report.removedRedactions = removed.length
  holder : mode = .holder → removed = []

theorem Accounts.counts {hasher : RedactionHasher} {mode : RestoreMode} {roots : List Marker}
    {ds : List Disclosure} {report : RestoreReport} {used : List (Marker × Disclosure)}
    {removed : List Marker} (h : Accounts hasher mode roots ds report used removed) :
    report.disclosed + report.decoys = ds.length ∧
      report.disclosed + report.decoys + report.removedRedactions =
        roots.length + (ds.map fun d => d.markers.length).sum := by
  have hused : report.disclosed + report.decoys = used.length := by
    rw [h.disclosed, h.decoys, List.length_eq_countP_add_countP fun p => p.2.kind.isDecoy,
      Nat.add_comm]
    simp only [Bool.not_eq_true, Bool.decide_eq_false]
  have hlength := h.once.length_eq
  have hmarkers := h.markers.length_eq
  rw [List.length_map] at hlength
  rw [List.length_append, List.length_append, List.length_map, List.length_flatMap] at hmarkers
  rw [h.removedRedactions, hused]
  exact ⟨hlength, hmarkers⟩

theorem Presented.accounts {mode : RestoreMode} {limits : ProcessingLimits} {validate : Bool}
    {value : Value} {protectedClaims : Option Value} {hasher : RedactionHasher}
    {ds : List Disclosure} {report : RestoreReport} {ms : List Meeting} {n : Nat}
    (h : Presented mode limits validate value protectedClaims hasher ds report ms n) :
    Accounts hasher mode ((protectedClaims.map markers).getD [] ++ markers value) ds report
      (BTreeMap.found ms) (BTreeMap.missed ms) := by
  have hacc : Accounted ((protectedClaims.map markers).getD [] ++ markers value) ms := by
    obtain ⟨ms₁, ms₂, _, _, rfl, _, h₁, h₂⟩ := h.restores
    exact h₁.accounted.append h₂.accounted
  have hkeys : ((digested hasher ds).map Prod.fst).Nodup := by
    rw [digested, List.map_map]
    exact h.loads.digests
  -- nothing stays pending, so what has been found is all there was
  have hfound : ((BTreeMap.found ms).map fun p => (p.1.hash, p.2)).Perm (digested hasher ds) := by
    have hperm := h.passes.finds.perm
    rw [startRestoring] at hperm
    dsimp only at hperm
    rw [h.usesAll, List.append_nil] at hperm
    exact hperm.trans (BTreeMap.ofList_entries_perm hkeys)
  have hmet := BTreeMap.found_missed_perm ms
  have hused : usedUp ms = (BTreeMap.found ms).map Prod.snd := (BTreeMap.map_snd_found ms).symm
  have honce : ((BTreeMap.found ms).map Prod.snd).Perm ds := by
    have h := hfound.map Prod.snd
    rw [List.map_map, digested, List.map_map] at h
    exact h.trans (.of_eq (List.map_id ds))
  have hstats := h.stats
  rw [RestoreStats.after, hused] at hstats
  simp only [Nat.zero_add, RestoreStats.mk.injEq] at hstats
  refine ⟨honce, fun p hp => ?_, hacc.fits, ?_, fun m hm => ?_, ?_, ?_, ?_, fun hmode => ?_⟩
  · have hmem := hfound.mem_iff.mp (List.mem_map_of_mem hp)
    obtain ⟨d, _, heq⟩ := List.mem_map.mp hmem
    simp only [Prod.mk.injEq] at heq
    rw [← heq.1, heq.2]
  · refine (hmet.trans hacc.markers).trans (List.Perm.append_left _ ?_)
    rw [hused]
    exact honce.flatMap_right _
  · obtain ⟨e, he, rfl⟩ := List.mem_map.mp (hmet.mem_iff.mp hm)
    exact hacc.reached e he
  · rw [← hstats.1, List.countP_map]
    rfl
  · rw [← hstats.2.1, List.countP_map]
    rfl
  · rw [← hstats.2.2, BTreeMap.length_missed]
  · rw [← List.length_eq_zero_iff, BTreeMap.length_missed, List.countP_eq_zero]
    intro m hm hnone
    exact h.passes.answered hmode m hm (Option.isNone_iff_eq_none.mp hnone)

/-- Nothing is hidden in the restored values, and the keys of their maps are distinct labels. -/
structure RestoreReport.Clean (report : RestoreReport) : Prop where
  value : Disclosed report.value
  protectedClaims : ∀ v, report.protectedClaims = some v → Disclosed v

section Report

variable {c : SdCbor2} {mode : RestoreMode} {limits : ProcessingLimits} {value : Value}
  {protectedClaims : Option Value} {hasher : RedactionHasher} {ds : List Disclosure}
  {validateClaims : Bool} {report : RestoreReport}

/-- The two policies: claims are reported as restored, or compared and stripped of markers. -/
theorem restoreWithProtectedClaims_ok
    (h : restoreWithProtectedClaims c mode value protectedClaims ds hasher limits validateClaims =
      .ok report) :
    ∃ restored, restoreClaims c mode value protectedClaims ds hasher limits validateClaims =
        .ok restored ∧
      ((validateClaims = false ∧ report = restored) ∨
        (validateClaims = true ∧
          (∃ entries, restored.value = .map entries ∧
            validateMatchingClaims c (claimMaps entries restored.protectedClaims) = .ok ()) ∧
          report = { restored with
            value := removeUndisclosedRedactions restored.value
            protectedClaims := restored.protectedClaims.map removeUndisclosedRedactions })) := by
  rw [restoreWithProtectedClaims, Except.bind_eq_ok] at h
  obtain ⟨restored, hrestored, h⟩ := h
  refine ⟨restored, hrestored, ?_⟩
  cases validateClaims with
  | false =>
    rw [if_neg Bool.false_ne_true, Except.pure_eq_ok] at h
    exact .inl ⟨rfl, h.symm⟩
  | true =>
    rw [if_pos rfl] at h
    cases hvalue : restored.value with
    | map entries =>
      rw [hvalue] at h
      obtain ⟨hmatch, hreport⟩ := Except.seq_eq_ok.mp h
      rw [Except.pure_eq_ok] at hreport
      exact .inr ⟨rfl, ⟨entries, rfl, hmatch⟩, hreport.symm⟩
    | integer | bytes | text | float | bool | null | simple | tag | array =>
      rw [hvalue] at h
      cases h

/-- A report accounts for all disclosures and all markers, and shows none of them. -/
theorem restore_accounts
    (h : restoreWithProtectedClaims c mode value protectedClaims ds hasher limits validateClaims =
      .ok report) :
    report.Clean ∧
    report.disclosed + report.decoys = ds.length ∧
    report.disclosed + report.decoys + report.removedRedactions =
      ((protectedClaims.map markers).getD [] ++ markers value).length +
        (ds.map fun d => d.markers.length).sum ∧
    (mode = .holder → report.removedRedactions = 0) ∧
    ∃ used removed, Accounts hasher mode ((protectedClaims.map markers).getD [] ++ markers value)
      ds report used removed := by
  obtain ⟨restored, hrestored, hpolicy⟩ := restoreWithProtectedClaims_ok h
  obtain ⟨ms, n, hpresented⟩ := restoreClaims_ok.mp hrestored
  have haccounts := hpresented.accounts
  obtain ⟨ms₁, ms₂, _, _, _, _, hclaims, hvalue⟩ := hpresented.restores
  have hclaims := hclaims.redacted
  have hvalue := hvalue.redacted
  have hreport : report.Clean ∧ Accounts hasher mode
      ((protectedClaims.map markers).getD [] ++ markers value) ds report
      (BTreeMap.found ms) (BTreeMap.missed ms) := by
    rcases hpolicy with ⟨rfl, rfl⟩ | ⟨rfl, _, rfl⟩
    · exact ⟨⟨hvalue.disclosed, fun v hv => (hclaims v hv).disclosed⟩, haccounts⟩
    · refine ⟨⟨hvalue.remove, fun v hv => ?_⟩, ⟨haccounts.once, haccounts.digest, haccounts.fits,
        haccounts.markers, haccounts.reached, haccounts.disclosed, haccounts.decoys,
        haccounts.removedRedactions, haccounts.holder⟩⟩
      obtain ⟨w, hw, rfl⟩ := Option.map_eq_some_iff.mp hv
      exact (hclaims w hw).remove
  obtain ⟨hclean, haccounts⟩ := hreport
  refine ⟨hclean, haccounts.counts.1, haccounts.counts.2, fun hmode => ?_, _, _, haccounts⟩
  rw [haccounts.removedRedactions, haccounts.holder hmode]
  rfl

end Report

/-- A claim whose value holds the marker of a decoy. -/
def decoyHolder : Disclosure where
  kind := .claim (List.replicate 16 1) (.int 500) (.array [redactedElement (plainDecoy 2).encoded])
  encoded := [1]
  valid := rfl

/-- A decoy that is reached through a disclosed claim, next to a marker that is removed. -/
theorem restore_accounts_nested :
    ∃ used removed, Accounts plainHasher .verifier
      (markers (.map [(redactedClaimKeysLabel, .array [.bytes [1], .bytes [9]])]))
      [plainDecoy 2, decoyHolder]
      ⟨.map [((Label.int 500).toValue, .array [])], none, 1, 1, 1⟩ used removed := by
  have h : restoreWithProtectedClaims .reference .verifier
      (.map [(redactedClaimKeysLabel, .array [.bytes [1], .bytes [9]])]) none
      [plainDecoy 2, decoyHolder] plainHasher {} false =
      .ok ⟨.map [((Label.int 500).toValue, .array [])], none, 1, 1, 1⟩ := rfl
  exact (restore_accounts h).2.2.2.2

end Cose2.SdCwt
