import Cose2.SdCwt.Issued
import Cose2.SdCwt.ReadBack

/-! # The shape of what is issued

Issuance collapses hidden entries into a list of hashes and replaces hidden elements by
tagged hashes.  What it makes passes the structural checks of the crate within the same
limits, and each digest stands in it once.
-/
namespace Cose2.SdCwt

open Cbor

/-- The hashes in the markers of a value and of the disclosed values. -/
def allHashes (value : Value) (ds : List Disclosure) : List Bytes :=
  (markers value ++ ds.flatMap Disclosure.markers).map Marker.hash

/-- What a disclosure takes of a budget when it is loaded and its value entered. -/
def Disclosure.weight (d : Disclosure) : Nat := d.items + (d.kind.value.map SdCwt.items).getD 1

/-- `weight` of all disclosures. -/
def weights (ds : List Disclosure) : Nat := (ds.map Disclosure.weight).sum

theorem weights_cons (d : Disclosure) (ds : List Disclosure) :
    weights (d :: ds) = d.weight + weights ds := by
  rw [weights, List.map_cons, List.sum_cons, weights]

theorem weights_append (ds ds' : List Disclosure) :
    weights (ds ++ ds') = weights ds + weights ds' := by
  rw [weights, List.map_append, List.sum_append, weights, weights]

/-- An issued value with its disclosures, for which `n` items were visited. -/
structure Shaped (c : SdCbor2) (limits : ProcessingLimits) (hasher : RedactionHasher)
    (depth : Nat) (iv : Value) (ds : List Disclosure) (n : Nat) : Prop where
  redacted : Redacted true iv
  fits : Fits limits depth iv
  items : items iv ≤ n
  weight : 2 * SdCwt.items iv + weights ds + 2 ≤ 4 * n
  visits : ds ≠ [] → 2 ≤ n
  made : ∀ d ∈ ds, d.Made c limits
  hashes : (allHashes iv ds).Perm (ds.map fun d => d.redactedHash hasher)

/-- The same for the entries of a map, `own` of whose disclosures are for hidden entries. -/
structure EntriesShaped (c : SdCbor2) (limits : ProcessingLimits) (hasher : RedactionHasher)
    (depth : Nat) (es out : List (Value × Value)) (labels : List Label)
    (own ds : List Disclosure) (n : Nat) : Prop where
  keys : out.map Prod.fst = labels.map Label.toValue
  entries : ∀ e ∈ out, EntryValid limits depth e ∧ isVisible e = true
  length : out.length + own.length = es.length
  items : items.itemsEntries out + 3 * own.length ≤ n
  weight : 2 * SdCwt.items.itemsEntries out + 6 * own.length + weights ds ≤ 4 * n
  visits : ds ≠ [] → 2 ≤ n
  deep : own ≠ [] → depth + 2 ≤ limits.maxDepth
  made : ∀ d ∈ ds, d.Made c limits
  hashes : ((markersEntries out).map Marker.hash ++ own.map (fun d => d.redactedHash hasher) ++
    (ds.flatMap Disclosure.markers).map Marker.hash).Perm (ds.map fun d => d.redactedHash hasher)

/-- The same for elements of an array. -/
structure ItemsShaped (c : SdCbor2) (limits : ProcessingLimits) (hasher : RedactionHasher)
    (depth : Nat) (out : List Value) (ds : List Disclosure) (n : Nat) : Prop where
  values : ∀ v ∈ out, ItemValid limits depth v
  items : items.itemsAll out ≤ n
  weight : 2 * SdCwt.items.itemsAll out + weights ds ≤ 4 * n
  visits : ds ≠ [] → 2 ≤ n
  made : ∀ d ∈ ds, d.Made c limits
  hashes : ((markersItems out).map Marker.hash ++
    (ds.flatMap Disclosure.markers).map Marker.hash).Perm (ds.map fun d => d.redactedHash hasher)

variable {c : SdCbor2} {limits : ProcessingLimits} {hasher : RedactionHasher} {depth : Nat}

theorem items_pos (v : Value) : 0 < items v := by
  cases v <;> simp only [items] <;> omega

/-- A claim or an element made of an issued value. -/
theorem Shaped.made_of_kind {value' : Value} {ds : List Disclosure} {n : Nat} {d : Disclosure}
    {kind : DisclosureKind} (h : Shaped c limits hasher (depth + 1) value' ds n)
    (hkind : kind.value = some value')
    (hd : Disclosure.fromKindWithLimits c kind limits = .ok d) : d.Made c limits := by
  have hsame := ((Disclosure.fromKindWithLimits_ok c).mp hd).1
  subst hsame
  refine ⟨hd, ?_, fun v hv => ?_⟩
  · have := h.fits.depth_le
    omega
  · rw [hkind, Option.some.injEq] at hv
    rw [← hv]
    exact h.fits.mono (Nat.le_add_left 1 depth)

theorem made_decoy {salt : Bytes} {d : Disclosure} (hdepth : depth + 2 ≤ limits.maxDepth)
    (hd : Disclosure.fromKindWithLimits c (.decoy salt) limits = .ok d) : d.Made c limits := by
  have hkind := ((Disclosure.fromKindWithLimits_ok c).mp hd).1
  refine ⟨by rwa [hkind], by omega, fun v hv => ?_⟩
  rw [hkind] at hv
  cases hv

theorem forall_made {ds ds' : List Disclosure} {d : Disclosure}
    (h : ∀ d ∈ ds, d.Made c limits) (hd : d.Made c limits) (h' : ∀ d ∈ ds', d.Made c limits) :
    ∀ d' ∈ ds ++ d :: ds', d'.Made c limits := by
  intro d' hd'
  rcases List.mem_append.mp hd' with hd' | hd'
  · exact h d' hd'
  · rcases List.mem_cons.mp hd' with hd' | hd'
    · rw [hd']
      exact hd
    · exact h' d' hd'

section Walk

variable {R : Nat → Value → Value → List Disclosure → Nat → Prop}
  (hR : ∀ depth v iv ds n, R depth v iv ds n → Shaped c limits hasher depth iv ds n)
include hR

theorem EntriesIssue.shaped {es out : List (Value × Value)} {labels hidden : List Label}
    {own ds : List Disclosure} {n : Nat}
    (h : EntriesIssue c limits R depth es out labels own hidden ds n) :
    EntriesShaped c limits hasher depth es out labels own ds n := by
  induction h with
  | nil =>
    exact ⟨rfl, by simp, rfl, Nat.le_refl _, Nat.le_refl _, absurd rfl, absurd rfl, by simp,
      List.Perm.nil⟩
  | @redacted inner value value' salt label d es out labels hidden own ds ds' n n' hdepth _ hvalue
      hd _ ih =>
    have hshaped := hR _ _ _ _ _ hvalue
    have hkind := ((Disclosure.fromKindWithLimits_ok c).mp hd).1
    have hpos := items_pos value'
    have hitems := hshaped.items
    have hweight : d.weight = 3 + 2 * items value' := by
      rw [Disclosure.weight, Disclosure.items, hkind]
      simp only [DisclosureKind.fixedItems, DisclosureKind.value, Option.map_some,
        Option.getD_some]
      omega
    refine ⟨ih.keys, ih.entries, ?_, ?_, ?_, fun _ => by omega, fun _ => hdepth,
      forall_made hshaped.made (hshaped.made_of_kind rfl hd) ih.made, ?_⟩
    · have := ih.length
      simp only [List.length_cons]
      omega
    · have := ih.items
      simp only [List.length_cons]
      omega
    · have := ih.weight
      have := hshaped.weight
      rw [List.length_cons, weights_append, weights_cons, hweight]
      omega
    · have hmarkers : d.markers = markers value' := by
        rw [Disclosure.markers, hkind]
        rfl
      refine List.perm_iff_count.mpr fun a => ?_
      have h₁ := ih.hashes.count_eq a
      have h₂ := hshaped.hashes.count_eq a
      simp only [allHashes, List.map_append, List.count_append] at h₁ h₂
      simp only [List.map_cons, List.flatMap_append, List.flatMap_cons, List.map_append,
        List.count_append, List.count_cons, hmarkers]
      omega
  | @decoy inner salt d es out labels hidden own ds n hdepth hd _ ih =>
    have hkind := ((Disclosure.fromKindWithLimits_ok c).mp hd).1
    have hweight : d.weight = 3 := by
      rw [Disclosure.weight, Disclosure.items, hkind]
      rfl
    refine ⟨ih.keys, ih.entries, ?_, ?_, ?_, fun _ => by omega, fun _ => hdepth,
      List.forall_mem_cons.mpr ⟨made_decoy hdepth hd, ih.made⟩, ?_⟩
    · have := ih.length
      simp only [List.length_cons]
      omega
    · have := ih.items
      simp only [List.length_cons]
      omega
    · have := ih.weight
      rw [List.length_cons, weights_cons, hweight]
      omega
    · have hmarkers : d.markers = [] := by
        rw [Disclosure.markers, hkind]
        rfl
      refine List.perm_iff_count.mpr fun a => ?_
      have h₁ := ih.hashes.count_eq a
      simp only [List.count_append] at h₁
      simp only [List.map_cons, List.flatMap_cons, List.count_append, List.count_cons, hmarkers,
        List.nil_append]
      omega
  | @plain key value value' label es out labels hidden own ds ds' n n' hlabel hvalue _ ih =>
    have hshaped := hR _ _ _ _ _ hvalue
    have hkey : IsKey key := .inr ⟨label, hlabel⟩
    have hvisible : isVisible (key, value') = true := by
      rw [labelFromValue_ok hlabel]
      cases label with
      | int | text => rfl
    have hitems : items.itemsEntries ((key, value') :: out) =
        1 + items value' + items.itemsEntries out := by
      rw [items.itemsEntries, items_scalar hkey.scalar]
    refine ⟨?_, List.forall_mem_cons.mpr ⟨⟨⟨?_, fun _ => ⟨label, hlabel⟩, fun _ => hshaped.redacted,
      ?_, hshaped.fits⟩, hvisible⟩, ih.entries⟩, ?_, ?_, ?_, ?_, ih.deep, ?_, ?_⟩
    · rw [List.map_cons, List.map_cons, ih.keys, labelFromValue_ok hlabel]
    · intro h
      rw [hvisible] at h
      cases h
    · exact .scalar hkey.scalar hshaped.fits.depth_le
    · have := ih.length
      simp only [List.length_cons]
      omega
    · have := ih.items
      have := hshaped.items
      rw [hitems]
      omega
    · have := ih.weight
      have := hshaped.weight
      rw [hitems, weights_append]
      omega
    · intro _
      have := hshaped.items
      have := items_pos value'
      omega
    · intro d hd
      rcases List.mem_append.mp hd with hd | hd
      · exact hshaped.made d hd
      · exact ih.made d hd
    · have hhidden : isRedactedClaimKeysLabel key = false := by
        simpa [isVisible] using hvisible
      refine List.perm_iff_count.mpr fun a => ?_
      have h₁ := ih.hashes.count_eq a
      have h₂ := hshaped.hashes.count_eq a
      simp only [allHashes, List.map_append, List.count_append] at h₁ h₂
      simp only [markersEntries_claim hhidden, List.flatMap_append, List.map_append,
        List.count_append]
      omega

/-- An element that was not redacted, or the hash in its place. -/
theorem ItemIssues.shaped {item item' : Value} {ds : List Disclosure} {n : Nat}
    (h : ItemIssues c limits hasher R depth item item' ds n) :
    ItemsShaped c limits hasher depth [item'] ds n := by
  have hash (hdepth : depth + 2 ≤ limits.maxDepth) (hash : Bytes) :
      ∀ v ∈ [redactedElement hash], ItemValid limits depth v := by
    intro v hv
    rw [List.mem_singleton.mp hv]
    exact ⟨fun _ => ⟨hash, rfl⟩, by rintro ⟨⟩, fits_redactedElement.mpr hdepth⟩
  cases h with
  | @redacted inner value' salt d ds n hvalue hd =>
    have hshaped := hR _ _ _ _ _ hvalue
    have hkind := ((Disclosure.fromKindWithLimits_ok c).mp hd).1
    have hitems := hshaped.items
    have hpos := items_pos value'
    have hweight : d.weight = 2 + 2 * items value' := by
      rw [Disclosure.weight, Disclosure.items, hkind]
      simp only [DisclosureKind.fixedItems, DisclosureKind.value, Option.map_some,
        Option.getD_some]
      omega
    have htwo : items.itemsAll [redactedElement (d.redactedHash hasher)] = 2 := rfl
    refine ⟨hash hshaped.fits.depth_le _, ?_, ?_, fun _ => by omega,
      forall_made hshaped.made (hshaped.made_of_kind rfl hd) (by simp), ?_⟩
    · omega
    · have := hshaped.weight
      rw [htwo, weights_append, weights_cons, hweight]
      simp only [weights, List.map_nil, List.sum_nil] at *
      omega
    · have hmarkers : d.markers = markers value' := by
        rw [Disclosure.markers, hkind]
        rfl
      refine List.perm_iff_count.mpr fun a => ?_
      have h₁ := hshaped.hashes.count_eq a
      simp only [allHashes, List.map_append, List.count_append] at h₁
      rw [markersItems_redacted, markersItems]
      simp only [List.map_cons, List.map_nil, List.flatMap_append,
        List.flatMap_cons, List.flatMap_nil, List.append_nil, List.map_append, List.count_append,
        List.count_cons, List.count_nil, hmarkers]
      omega
  | @decoy inner salt d hdepth hd =>
    have hkind := ((Disclosure.fromKindWithLimits_ok c).mp hd).1
    have hweight : d.weight = 3 := by
      rw [Disclosure.weight, Disclosure.items, hkind]
      rfl
    have htwo : items.itemsAll [redactedElement (d.redactedHash hasher)] = 2 := rfl
    refine ⟨hash hdepth _, Nat.le_of_eq htwo, ?_, fun _ => Nat.le_refl _,
      List.forall_mem_cons.mpr ⟨made_decoy hdepth hd, by simp⟩, ?_⟩
    · rw [htwo, weights_cons, hweight]
      exact Nat.le_add_right 7 1
    · have hmarkers : d.markers = [] := by
        rw [Disclosure.markers, hkind]
        rfl
      rw [List.flatMap_singleton, hmarkers, List.map_nil, List.append_nil]
      exact List.Perm.refl _
  | plain hvalue =>
    have hshaped := hR _ _ _ _ _ hvalue
    have hkeep := hshaped.redacted.not_redacted
    refine ⟨?_, ?_, ?_, hshaped.visits, hshaped.made, ?_⟩
    · intro v hv
      rw [List.mem_singleton.mp hv]
      exact ⟨fun h => absurd h (by simp [hkeep]), fun _ => hshaped.redacted, hshaped.fits⟩
    · rw [items.itemsAll, items.itemsAll]
      exact hshaped.items
    · have := hshaped.weight
      rw [items.itemsAll, items.itemsAll]
      omega
    · rw [markersItems_keep hkeep, markersItems, List.append_nil, ← List.map_append]
      exact hshaped.hashes

theorem ItemsIssue.shaped {items out : List Value} {ds : List Disclosure} {n : Nat}
    (h : ItemsIssue c limits hasher R depth items out ds n) :
    ItemsShaped c limits hasher depth out ds n ∧ out.length = items.length := by
  induction h with
  | nil =>
    exact ⟨⟨by simp, Nat.le_refl _, Nat.le_refl _, absurd rfl, by simp, List.Perm.nil⟩, rfl⟩
  | @cons item item' items out ds ds' n n' hitem _ ih =>
    obtain ⟨ih, hlength⟩ := ih
    have hfirst := hitem.shaped hR
    have hcons : markersItems (item' :: out) = markersItems [item'] ++ markersItems out := by
      rw [markersItems, markersItems, markersItems, List.append_nil]
    have hitems : SdCwt.items.itemsAll (item' :: out) =
        SdCwt.items.itemsAll [item'] + SdCwt.items.itemsAll out := rfl
    refine ⟨⟨?_, ?_, ?_, ?_, ?_, ?_⟩, ?_⟩
    · exact List.forall_mem_cons.mpr ⟨hfirst.values item' List.mem_cons_self, ih.values⟩
    · rw [hitems]
      exact Nat.add_le_add hfirst.items ih.items
    · have := hfirst.weight
      have := ih.weight
      rw [hitems, weights_append]
      omega
    · intro hne
      by_cases hds : ds = []
      · rw [hds, List.nil_append] at hne
        have := ih.visits hne
        omega
      · have := hfirst.visits hds
        omega
    · intro d hd
      rcases List.mem_append.mp hd with hd | hd
      · exact hfirst.made d hd
      · exact ih.made d hd
    · refine List.perm_iff_count.mpr fun a => ?_
      have h₁ := hfirst.hashes.count_eq a
      have h₂ := ih.hashes.count_eq a
      simp only [List.count_append] at h₁ h₂
      simp only [hcons, List.flatMap_append, List.map_append, List.count_append]
      omega
    · rw [List.length_cons, List.length_cons, hlength]

end Walk

/-! ### The list of hashes of a map -/

theorem itemsEntries_append (es fs : List (Value × Value)) :
    items.itemsEntries (es ++ fs) = items.itemsEntries es + items.itemsEntries fs := by
  rw [itemsEntries_eq, itemsEntries_eq, itemsEntries_eq, List.map_append, List.sum_append]

theorem markersEntries_append (es fs : List (Value × Value)) :
    markersEntries (es ++ fs) = markersEntries es ++ markersEntries fs := by
  induction es with
  | nil => rfl
  | cons e es ih =>
    obtain ⟨key, value⟩ := e
    rw [List.cons_append, markersEntries, ih, markersEntries, List.append_assoc]

/-- The hidden entries of a map become one entry. -/
theorem EntriesShaped.value {es out : List (Value × Value)} {labels hidden : List Label}
    {own ds : List Disclosure} {n : Nat}
    (h : EntriesShaped c limits hasher depth es out labels own ds n)
    (hdepth : depth ≤ limits.maxDepth) (hlength : es.length ≤ limits.maxContainerEntries)
    (hnodup : (labels ++ hidden).Nodup) :
    Shaped c limits hasher depth
      (.map (out ++ undisclosedEntry (own.map fun d => d.redactedHash hasher))) ds (1 + n) := by
  have hlengths := h.length
  have hlabels : (out.map Prod.fst).Nodup := by
    rw [h.keys]
    exact (List.nodup_append.mp hnodup).1.map Label.toValue_injective
  cases hown : own.map fun d => d.redactedHash hasher with
  | nil =>
    rw [List.map_eq_nil_iff] at hown
    subst hown
    have hmap : Redacted true (.map out) ∧ Fits limits depth (.map out) := by
      refine redacted_map_iff.mpr ⟨hdepth, ?_, fun e he => (h.entries e he).1, hlabels⟩
      rw [List.length_nil] at hlengths
      omega
    have hitems := h.items
    have hweight := h.weight
    rw [List.length_nil] at hitems hweight
    rw [undisclosedEntry, List.append_nil]
    refine ⟨hmap.1, hmap.2, ?_, ?_, fun hne => ?_, h.made, ?_⟩
    · rw [SdCwt.items]
      omega
    · rw [SdCwt.items]
      omega
    · have := h.visits hne
      omega
    · have hhashes := h.hashes
      rw [List.map_nil, List.append_nil, ← List.map_append] at hhashes
      exact hhashes
  | cons hash hashes =>
    have hcount : own.length = hashes.length + 1 := by
      have := congrArg List.length hown
      rwa [List.length_map, List.length_cons] at this
    have hdeep : depth + 2 ≤ limits.maxDepth := h.deep fun heq => by
      rw [heq] at hown
      cases hown
    have hlist : undisclosedEntry (hash :: hashes) =
        [(redactedClaimKeysLabel, .array ((hash :: hashes).map .bytes))] := rfl
    have hhidden : EntryValid limits depth
        (redactedClaimKeysLabel, .array ((hash :: hashes).map .bytes)) := by
      refine ⟨fun _ => ⟨_, rfl⟩, by rintro ⟨⟩, by rintro ⟨⟩, .scalar trivial (by omega), ?_⟩
      refine fits_hashes.mpr ⟨by omega, ?_, fun _ => hdeep⟩
      rw [List.length_cons]
      omega
    have hmap : Redacted true (.map (out ++ undisclosedEntry (hash :: hashes))) ∧
        Fits limits depth (.map (out ++ undisclosedEntry (hash :: hashes))) := by
      refine redacted_map_iff.mpr ⟨hdepth, ?_, fun e he => ?_, ?_⟩
      · rw [hlist, List.length_append, List.length_singleton]
        omega
      · rcases List.mem_append.mp he with he | he
        · exact (h.entries e he).1
        · rw [List.mem_singleton.mp he]
          exact hhidden
      · rw [List.map_append]
        refine List.nodup_append.mpr ⟨hlabels, List.nodup_singleton _, fun k hk k' hk' heq => ?_⟩
        obtain ⟨e, he, rfl⟩ := List.mem_map.mp hk
        have hvisible := (h.entries e he).2
        rw [isVisible, heq, List.mem_singleton.mp hk'] at hvisible
        cases hvisible
    have hitems : SdCwt.items (.map (out ++ undisclosedEntry (hash :: hashes))) =
        1 + (SdCwt.items.itemsEntries out + (2 + own.length)) := by
      rw [SdCwt.items, itemsEntries_append, hlist, SdCwt.items.itemsEntries,
        SdCwt.items.itemsEntries, SdCwt.items, itemsAll_hashes,
        items_scalar (v := redactedClaimKeysLabel) trivial, List.length_cons, hcount]
      omega
    have hentries := h.items
    have hweight := h.weight
    refine ⟨hmap.1, hmap.2, ?_, ?_, fun hne => ?_, h.made, ?_⟩
    · rw [hitems]
      omega
    · rw [hitems]
      omega
    · have := h.visits hne
      omega
    · have hhashes := h.hashes
      have hmarked : (markersEntries (undisclosedEntry (hash :: hashes))).map Marker.hash =
          own.map fun d => d.redactedHash hasher := by
        rw [hlist, markersEntries_hashes rfl, markersEntries, List.append_nil, List.map_map, hown]
        exact List.map_id _
      rw [allHashes, markers, markersEntries_append, List.map_append, List.map_append, hmarked]
      exact hhashes

theorem ValueIssues.shaped {R : Nat → Value → Value → List Disclosure → Nat → Prop}
    (hR : ∀ depth v iv ds n, R depth v iv ds n → Shaped c limits hasher depth iv ds n)
    {v iv : Value} {ds : List Disclosure} {n : Nat}
    (h : ValueIssues c limits hasher R depth v iv ds n) :
    Shaped c limits hasher depth iv ds n := by
  cases h with
  | map hdepth hlength hes hnodup => exact (hes.shaped hR).value hdepth hlength hnodup
  | array hdepth hlength hitems =>
    obtain ⟨hshaped, hsame⟩ := hitems.shaped hR
    rw [← hsame] at hlength
    have harray := redacted_array_iff.mpr ⟨hdepth, hlength, hshaped.values⟩
    have hitems := hshaped.items
    have hweight := hshaped.weight
    refine ⟨harray.1, harray.2, ?_, ?_, fun hne => ?_, hshaped.made, ?_⟩
    · rw [items]
      omega
    · rw [items]
      omega
    · have := hshaped.visits hne
      omega
    · rw [allHashes, markers, List.map_append]
      exact hshaped.hashes
  | tag hdepth ht hvalue =>
    have hshaped := hR _ _ _ _ _ hvalue
    have hitems := hshaped.items
    have hweight := hshaped.weight
    refine ⟨.tag ht hshaped.redacted, .tag hdepth hshaped.fits, ?_, ?_, fun hne => ?_,
      hshaped.made, hshaped.hashes⟩
    · rw [items]
      omega
    · rw [items]
      omega
    · have := hshaped.visits hne
      omega
  | scalar hdepth hs hlabel =>
    have hone := items_scalar hs
    refine ⟨.scalar hs hlabel, .scalar hs hdepth, Nat.le_of_eq hone, ?_, absurd rfl, by simp, ?_⟩
    · rw [hone]
      exact Nat.le_refl 4
    · rw [allHashes, markers_scalar hs]
      exact List.Perm.nil

/-- **What is issued has its shape.** -/
theorem Issues.shaped {levels : Nat} {v iv : Value} {ds : List Disclosure} {n : Nat}
    (h : Issues c limits hasher levels depth v iv ds n) :
    Shaped c limits hasher depth iv ds n := by
  induction levels generalizing depth v iv ds n with
  | zero => exact h.elim
  | succ levels ih => exact ValueIssues.shaped (fun _ _ _ _ _ h => ih h) h

/-! ### The checks of the crate -/

/-- What the structural checks of the crate make of an issued value and its disclosures. -/
structure IssueResult.Sound (c : SdCbor2) (limits : ProcessingLimits) (hasher : RedactionHasher)
    (r : IssueResult) : Prop where
  /-- `validate_issued_value` succeeds. -/
  validates : ∃ b, validateIssuedValue c r.value { limits } 0 = .ok b
  /-- Reserved tags and `simple(59)` stand only where hashes are hidden. -/
  redacted : Redacted true r.value
  disclosed : ∀ d ∈ r.disclosures, ∀ v, d.kind.value = some v → Redacted true v
  /-- Each disclosure is decoded to its kind as it is read, which has the same canonical
  encoding where there is no undefined to be read as null. -/
  decodes : ∀ d ∈ r.disclosures, ∃ d',
    Disclosure.fromEncodedWithLimits c d.encoded limits = .ok d' ∧ d'.kind = d.kind.asRead ∧
    (d.kind.toValue.Defined → d'.kind.toValue.canonical = d.kind.toValue.canonical) ∧
    d'.redactedHash hasher = d.redactedHash hasher
  salts : (r.disclosures.map Disclosure.salt).Nodup
  digests : (r.disclosures.map fun d => d.redactedHash hasher).Nodup
  /-- Each digest is the hash of one marker. -/
  once : ∀ d ∈ r.disclosures, (allHashes r.value r.disclosures).count (d.redactedHash hasher) = 1

theorem encoded_length_le {ds : List Disclosure} {d : Disclosure} (hd : d ∈ ds) :
    d.encoded.length ≤ encodedBytes ds :=
  List.single_le_sum (fun _ _ => Nat.zero_le _) _ (List.mem_map_of_mem hd)

/-- The items of a disclosure are within the limit, as they were when it was made. -/
theorem Disclosure.Made.affords {d : Disclosure} (h : d.Made c limits)
    (hk : c.EncodesKeys) (hdecoy : (TraversalBudget.mk limits 0).Affords 2) :
    (TraversalBudget.mk limits 0).Affords d.items := by
  have hvalue := (validateDisclosureValue_ok hk).mp ((fromKindWithLimits_ok c).mp h.fromKind).2.1
  cases hkind : d.kind.value with
  | none =>
    have htwo : d.items = 2 := by
      cases hd : d.kind with
      | claim | element =>
        rw [hd] at hkind
        cases hkind
      | decoy =>
        rw [Disclosure.items, hd]
        rfl
    rw [htwo]
    exact hdecoy
  | some v => exact (hvalue v hkind).2

/-- **What is issued passes the structural checks of the crate.** -/
theorem issueFromPreissuance_sound (hr : c.ReadsCanonically) {value : Value}
    {salts : SaltGenerator} {r : IssueResult}
    (h : issueFromPreissuanceWithLimits c value salts hasher limits = .ok r) :
    r.Sound c limits hasher := by
  obtain ⟨n, hissues, haffords, _, hsize, hbytes, hdigests, hsalts⟩ := issueFromPreissuance_ok h
  have hshaped := hissues.shaped
  refine ⟨⟨_, (validateIssuedValue_ok hr.encodesKeys).mpr
      ⟨⟨hshaped.redacted, hshaped.fits⟩, ?_, rfl⟩⟩, hshaped.redacted, fun d hd => ?_,
    fun d hd => ?_, hsalts, hdigests, fun d hd => ?_⟩
  · exact haffords.mono hshaped.items
  · exact (hshaped.made d hd).redacted hr
  · have hmade := hshaped.made d hd
    have hitems := hmade.affords hr.encodesKeys
      (haffords.mono (hshaped.visits (List.ne_nil_of_mem hd)))
    have hle := encoded_length_le hd
    refine ⟨d.asRead, ?_, rfl, fun hdefined => ?_, rfl⟩
    · exact hmade.fromEncoded hr (hle.trans_lt hsize) (hle.trans hbytes)
        (hitems.mono d.items_asRead_le)
    · show d.kind.asRead.toValue.canonical = _
      rw [← d.kind.toValue_asRead, hdefined.asRead, Value.canonical_norm]
  · rw [hshaped.hashes.count_eq]
    exact List.count_eq_one_of_mem hdigests (List.mem_map_of_mem hd)

/-- Salts that count the calls. -/
def countingSalts : SaltGenerator := fun n =>
  .ok ⟨List.replicate 16 (UInt8.ofNat n), List.length_replicate⟩

/-- `{58(100): 0, 62(1): null}`. -/
def hiddenRequests : Value :=
  .map [(.tag toBeRedactedTag (Label.int 100).toValue, (Label.int 0).toValue),
    (.tag toBeDecoyTag (Label.int 1).toValue, .null)]

theorem issueFromPreissuance_sound_hidden :
    ∃ r, issueFromPreissuanceWithLimits .reference hiddenRequests countingSalts plainHasher {} =
      .ok r ∧ r.disclosures.length = 2 ∧ r.Sound .reference {} plainHasher := by
  have hok : (issueFromPreissuanceWithLimits .reference hiddenRequests countingSalts plainHasher
      {}).isOk = true := rfl
  obtain ⟨r, hr⟩ := Except.isOk_iff.mp hok
  refine ⟨r, hr, ?_, issueFromPreissuance_sound SdCbor2.reference_readsCanonically hr⟩
  have hlength : (issueFromPreissuanceWithLimits .reference hiddenRequests countingSalts
      plainHasher {}).map (fun r => r.disclosures.length) = .ok 2 := rfl
  rw [hr] at hlength
  exact Except.ok.inj hlength

/-- `{58(100): undefined}`. -/
def hiddenUndefined : Value :=
  .map [(.tag toBeRedactedTag (Label.int 100).toValue, .undefined)]

/-- The disclosure that is issued for it. -/
def undefinedClaim : Disclosure where
  kind := .claim (List.replicate 16 0) (.int 100) .undefined
  encoded :=
    (DisclosureKind.claim (List.replicate 16 0) (.int 100) .undefined).toValue.canonical
  valid := rfl

/-- Undefined is decoded as null, which has another canonical encoding. -/
theorem issueFromPreissuance_undefined :
    (issueFromPreissuanceWithLimits .reference hiddenUndefined countingSalts plainHasher {}).map
        IssueResult.disclosures = .ok [undefinedClaim] ∧
      ∃ d', Disclosure.fromEncodedWithLimits .reference undefinedClaim.encoded {} = .ok d' ∧
        d'.kind.toValue.canonical ≠ undefinedClaim.kind.toValue.canonical := by
  refine ⟨rfl, undefinedClaim.asRead, rfl, ?_⟩
  decide

end Cose2.SdCwt
