import Mathlib.Data.List.Perm.Basic
import Cose2.SdCwt.Accounting

/-! # The order of map entries

Two values are the same CBOR data when they differ in the order of map entries only.
A derivation for one is a derivation for the other up to that order, except that the
markers are met in another order.  Where no digest is met twice this makes no
difference; where one is, the disclosure goes to the first marker, and the order shows.
-/
namespace Cose2.SdCwt

open Cbor

/-- The same CBOR data: equal up to the order of the entries of maps. -/
inductive SameData : Value → Value → Prop
  | scalar {v : Value} : IsScalar v → SameData v v
  | tag {t : UInt64} {v w : Value} : SameData v w → SameData (.tag t v) (.tag t w)
  | array {vs ws : List Value} : vs.length = ws.length →
    (∀ p ∈ vs.zip ws, SameData p.1 p.2) → SameData (.array vs) (.array ws)
  | map {es fs gs : List (Value × Value)} : es.length = fs.length →
    (∀ p ∈ es.zip fs, SameData p.1.1 p.2.1) → (∀ p ∈ es.zip fs, SameData p.1.2 p.2.2) →
    fs.Perm gs → SameData (.map es) (.map gs)

/-- The same key with the same value. -/
def SameEntry (e f : Value × Value) : Prop := SameData e.1 f.1 ∧ SameData e.2 f.2

theorem sameData_scalar {v w : Value} (hv : IsScalar v) : SameData v w ↔ w = v := by
  constructor
  · intro h
    cases h with
    | scalar => rfl
    | tag | array | map => exact hv.elim
  · intro h
    rw [h]
    exact .scalar hv

theorem sameData_tag {t : UInt64} {v w : Value} :
    SameData (.tag t v) w ↔ ∃ w', w = .tag t w' ∧ SameData v w' := by
  constructor
  · intro h
    cases h with
    | scalar hv => exact hv.elim
    | tag h => exact ⟨_, rfl, h⟩
  · rintro ⟨w', hw, h⟩
    rw [hw]
    exact .tag h

theorem sameData_array {vs : List Value} {w : Value} :
    SameData (.array vs) w ↔ ∃ ws, w = .array ws ∧ List.Forall₂ SameData vs ws := by
  constructor
  · intro h
    cases h with
    | scalar hv => exact hv.elim
    | array hlength h => exact ⟨_, rfl, List.forall₂_iff_zip.mpr ⟨hlength, fun hp => h _ hp⟩⟩
  · rintro ⟨ws, hw, h⟩
    rw [hw]
    obtain ⟨hlength, h⟩ := List.forall₂_iff_zip.mp h
    exact .array hlength fun p hp => h hp

theorem sameData_map {es : List (Value × Value)} {w : Value} :
    SameData (.map es) w ↔
      ∃ fs gs, w = .map gs ∧ List.Forall₂ SameEntry es fs ∧ fs.Perm gs := by
  constructor
  · intro h
    cases h with
    | scalar hv => exact hv.elim
    | map hlength hkeys hvalues hperm =>
      refine ⟨_, _, rfl, List.forall₂_iff_zip.mpr ⟨hlength, fun hp => ?_⟩, hperm⟩
      exact ⟨hkeys _ hp, hvalues _ hp⟩
  · rintro ⟨fs, gs, hw, h, hperm⟩
    rw [hw]
    obtain ⟨hlength, h⟩ := List.forall₂_iff_zip.mp h
    exact .map hlength (fun p hp => (h hp).1) (fun p hp => (h hp).2) hperm

theorem SameData.refl (v : Value) : SameData v v := by
  induction v with
  | map es ih =>
    refine sameData_map.mpr ⟨es, es, rfl, ?_, .refl es⟩
    exact List.forall₂_same.mpr ih
  | array vs ih => exact sameData_array.mpr ⟨vs, rfl, List.forall₂_same.mpr ih⟩
  | tag t v ih => exact .tag ih
  | _ => exact .scalar trivial

theorem SameData.symm {v w : Value} (h : SameData v w) : SameData w v := by
  induction h with
  | scalar hv => exact .scalar hv
  | tag _ ih => exact .tag ih
  | array hlength _ ih =>
    refine .array hlength.symm fun p hp => ih _ (mem_zip_swap hp)
  | @map es fs gs hlength _ _ hperm hkeys hvalues =>
    -- the entries of the second map, in the order of the first
    have hswap : List.Forall₂ SameEntry fs es := by
      refine List.forall₂_iff_zip.mpr ⟨hlength.symm, fun hp => ?_⟩
      exact ⟨hkeys _ (mem_zip_swap hp), hvalues _ (mem_zip_swap hp)⟩
    obtain ⟨es', hes', hperm'⟩ := List.perm_comp_forall₂ hperm.symm hswap
    exact sameData_map.mpr ⟨es', es, rfl, hes', hperm'⟩

theorem sameData_hashes {hashes : List Bytes} {w : Value}
    (h : SameData (.array (hashes.map .bytes)) w) : w = .array (hashes.map .bytes) := by
  obtain ⟨ws, rfl, hws⟩ := sameData_array.mp h
  clear h
  congr 1
  induction hashes generalizing ws with
  | nil => exact List.forall₂_nil_left_iff.mp hws
  | cons hash hashes ih =>
    rw [List.map_cons] at hws ⊢
    obtain ⟨v, vs, hv, hvs, rfl⟩ := List.forall₂_cons_left_iff.mp hws
    have hscalar : IsScalar (.bytes hash) := trivial
    rw [(sameData_scalar hscalar).mp hv, ih vs hvs]

theorem sameData_redacted {hash : Bytes} {w : Value} (h : SameData (redactedElement hash) w) :
    w = redactedElement hash := by
  obtain ⟨w', rfl, hw⟩ := sameData_tag.mp h
  have hscalar : IsScalar (.bytes hash) := trivial
  rw [(sameData_scalar hscalar).mp hw]
  rfl

theorem SameData.isRedactedElement {v w : Value} (h : SameData v w) :
    isRedactedElement w = isRedactedElement v := by
  cases h with
  | scalar | tag | array | map => rfl

/-- The key of a claim and that of a list of hashes have no other form. -/
theorem sameData_key {key key' : Value} (h : SameData key key')
    (hkey : IsScalar key) : key' = key :=
  (sameData_scalar hkey).mp h

theorem isScalar_of_label {key : Value} {l : Label} (h : labelFromValue key = .ok l) :
    IsScalar key := by
  cases key with
  | integer | text => exact trivial
  | bytes | float | bool | null | simple | tag | array | map => cases h

theorem isScalar_of_redacted {key : Value} (h : isRedactedClaimKeysLabel key = true) :
    IsScalar key := by
  rw [isRedactedClaimKeysLabel_iff.mp h]
  exact trivial

/-! ### Derivations in another order -/

section Derivation

variable {limits : ProcessingLimits} {validate : Bool}
  {next : Value → Value → List Meeting → Nat → Prop} {depth : Nat}

theorem EntriesRestore.of_eq {es out : List (Value × Value)} {labels : List Label}
    {lists : List (List Bytes)} {ms : List Meeting} {n n' : Nat}
    (h : EntriesRestore limits next depth es out labels lists ms n) (hn : n = n') :
    EntriesRestore limits next depth es out labels lists ms n' := hn ▸ h

/-- The entries of a map in another order. -/
theorem EntriesRestore.of_perm {es fs out : List (Value × Value)} {labels : List Label}
    {lists : List (List Bytes)} {ms : List Meeting} {n : Nat}
    (h : EntriesRestore limits next depth es out labels lists ms n) (hperm : es.Perm fs) :
    ∃ out' labels' lists' ms', EntriesRestore limits next depth fs out' labels' lists' ms' n ∧
      out.Perm out' ∧ labels.Perm labels' ∧ lists.Perm lists' ∧ ms.Perm ms' := by
  induction hperm generalizing out labels lists ms n with
  | nil => exact ⟨out, labels, lists, ms, h, .refl _, .refl _, .refl _, .refl _⟩
  | cons e _ ih =>
    cases h with
    | hashes hkey hdepth hlength hdeep h =>
      obtain ⟨out', labels', lists', ms', h', hout, hlabels, hlists, hms⟩ := ih h
      exact ⟨out', labels', _, ms', .hashes hkey hdepth hlength hdeep h', hout, hlabels,
        hlists.cons _, hms⟩
    | claim hkey hlabel hdepth hvalue h =>
      obtain ⟨out', labels', lists', ms', h', hout, hlabels, hlists, hms⟩ := ih h
      exact ⟨_, _, lists', _, .claim hkey hlabel hdepth hvalue h', hout.cons _, hlabels.cons _,
        hlists, hms.append_left _⟩
  | trans _ _ ih ih' =>
    obtain ⟨out₁, labels₁, lists₁, ms₁, h₁, hout, hlabels, hlists, hms⟩ := ih h
    obtain ⟨out₂, labels₂, lists₂, ms₂, h₂, hout', hlabels', hlists', hms'⟩ := ih' h₁
    exact ⟨out₂, labels₂, lists₂, ms₂, h₂, hout.trans hout', hlabels.trans hlabels',
      hlists.trans hlists', hms.trans hms'⟩
  | swap e f es =>
    cases h with
    | hashes hkey hdepth hlength hdeep h =>
      cases h with
      | hashes hkey' hdepth' hlength' hdeep' h =>
        refine ⟨_, _, _, _, (EntriesRestore.hashes hkey' hdepth' hlength' hdeep'
          (.hashes hkey hdepth hlength hdeep h)).of_eq ?_, .refl _, .refl _, .swap _ _ _, .refl _⟩
        omega
      | claim hkey' hlabel' hdepth' hvalue' h =>
        refine ⟨_, _, _, _, (EntriesRestore.claim hkey' hlabel' hdepth' hvalue'
          (.hashes hkey hdepth hlength hdeep h)).of_eq ?_, .refl _, .refl _, .refl _, .refl _⟩
        omega
    | claim hkey hlabel hdepth hvalue h =>
      cases h with
      | hashes hkey' hdepth' hlength' hdeep' h =>
        refine ⟨_, _, _, _, (EntriesRestore.hashes hkey' hdepth' hlength' hdeep'
          (.claim hkey hlabel hdepth hvalue h)).of_eq ?_, .refl _, .refl _, .refl _, .refl _⟩
        omega
      | claim hkey' hlabel' hdepth' hvalue' h =>
        refine ⟨_, _, _, _, (EntriesRestore.claim hkey' hlabel' hdepth' hvalue'
          (.claim hkey hlabel hdepth hvalue h)).of_eq ?_, .swap _ _ _, .swap _ _ _, .refl _, ?_⟩
        · omega
        · -- the markers in the two values are met the other way round
          rw [← List.append_assoc, ← List.append_assoc]
          exact List.perm_append_comm.append_right _

variable (hnext : ∀ v v' ms n, next v v' ms n → ∀ w, SameData v w →
  ∃ w' ms', next w w' ms' n ∧ SameData v' w' ∧ ms.Perm ms')

include hnext

/-- Entries that are the same CBOR data. -/
theorem EntriesRestore.of_same {es fs out : List (Value × Value)} {labels : List Label}
    {lists : List (List Bytes)} {ms : List Meeting} {n : Nat}
    (h : EntriesRestore limits next depth es out labels lists ms n)
    (hsame : List.Forall₂ SameEntry es fs) :
    ∃ out' ms', EntriesRestore limits next depth fs out' labels lists ms' n ∧
      List.Forall₂ SameEntry out out' ∧ ms.Perm ms' := by
  induction h generalizing fs with
  | nil =>
    rw [List.forall₂_nil_left_iff.mp hsame]
    exact ⟨[], [], .nil, .nil, .refl _⟩
  | hashes hkey hdepth hlength hdeep _ ih =>
    obtain ⟨⟨key', value'⟩, fs, ⟨hkey', hvalue'⟩, hfs, rfl⟩ := List.forall₂_cons_left_iff.mp hsame
    obtain rfl := sameData_key hkey' (isScalar_of_redacted hkey)
    obtain rfl := sameData_hashes hvalue'
    obtain ⟨out', ms', h, hout, hms⟩ := ih hfs
    exact ⟨out', ms', .hashes hkey hdepth hlength hdeep h, hout, hms⟩
  | claim hkey hlabel hdepth hvalue _ ih =>
    obtain ⟨⟨key', value'⟩, fs, ⟨hkey', hvalue'⟩, hfs, rfl⟩ := List.forall₂_cons_left_iff.mp hsame
    obtain rfl := sameData_key hkey' (isScalar_of_label hlabel)
    obtain ⟨w, ms₁, hw, hsame₁, hms₁⟩ := hnext _ _ _ _ hvalue _ hvalue'
    obtain ⟨out', ms₂, h, hout, hms₂⟩ := ih hfs
    exact ⟨_, _, .claim hkey hlabel hdepth hw h, .cons ⟨.refl _, hsame₁⟩ hout, hms₁.append hms₂⟩

theorem ItemRestores.of_same {item item' : Value} {out : List Value} {ms : List Meeting} {n : Nat}
    (h : ItemRestores limits validate next depth item out ms n) (hsame : SameData item item') :
    ∃ out' ms', ItemRestores limits validate next depth item' out' ms' n ∧
      List.Forall₂ SameData out out' ∧ ms.Perm ms' := by
  cases h with
  | keep hitem hvalue =>
    obtain ⟨w, ms', hw, hsame', hms⟩ := hnext _ _ _ _ hvalue _ hsame
    rw [← hsame.isRedactedElement] at hitem
    exact ⟨[w], ms', .keep hitem hw, .cons hsame' .nil, hms⟩
  | disclosed hdepth hkind hvalue =>
    obtain rfl := sameData_redacted hsame
    exact ⟨_, _, .disclosed hdepth hkind hvalue, .cons (.refl _) .nil, .refl _⟩
  | decoy hdepth hkind =>
    obtain rfl := sameData_redacted hsame
    exact ⟨_, _, .decoy hdepth hkind, .nil, .refl _⟩
  | undisclosed hdepth =>
    obtain rfl := sameData_redacted hsame
    exact ⟨_, _, .undisclosed hdepth, List.forall₂_same.mpr fun v _ => .refl v, .refl _⟩

theorem ItemsRestore.of_same {items items' out : List Value} {ms : List Meeting} {n : Nat}
    (h : ItemsRestore limits validate next depth items out ms n)
    (hsame : List.Forall₂ SameData items items') :
    ∃ out' ms', ItemsRestore limits validate next depth items' out' ms' n ∧
      List.Forall₂ SameData out out' ∧ ms.Perm ms' := by
  induction h generalizing items' with
  | nil =>
    rw [List.forall₂_nil_left_iff.mp hsame]
    exact ⟨[], [], .nil, .nil, .refl _⟩
  | cons hitem _ ih =>
    obtain ⟨item', items', hitem', hitems', rfl⟩ := List.forall₂_cons_left_iff.mp hsame
    obtain ⟨out₁, ms₁, h₁, hout₁, hms₁⟩ := hitem.of_same hnext hitem'
    obtain ⟨out₂, ms₂, h₂, hout₂, hms₂⟩ := ih hitems'
    exact ⟨_, _, .cons h₁ h₂, List.rel_append hout₁ hout₂, hms₁.append hms₂⟩

theorem ValueRestores.of_same {value value' w : Value} {ms : List Meeting} {n : Nat}
    (h : ValueRestores limits validate next depth value value' ms n) (hsame : SameData value w) :
    ∃ w' ms', ValueRestores limits validate next depth w w' ms' n ∧ SameData value' w' ∧
      ms.Perm ms' := by
  cases h with
  | scalar hscalar hlabel =>
    obtain rfl := (sameData_scalar hscalar).mp hsame
    exact ⟨_, [], .scalar hscalar hlabel, .refl _, .refl _⟩
  | tag ht hvalue =>
    obtain ⟨w, rfl, hw⟩ := sameData_tag.mp hsame
    obtain ⟨w', ms', hw, hsame', hms⟩ := hnext _ _ _ _ hvalue _ hw
    exact ⟨_, _, .tag ht hw, .tag hsame', hms⟩
  | array hlength hitems =>
    obtain ⟨ws, rfl, hws⟩ := sameData_array.mp hsame
    obtain ⟨out', ms', h, hout, hms⟩ := hitems.of_same hnext hws
    rw [hws.length_eq] at hlength
    exact ⟨_, _, .array hlength h, sameData_array.mpr ⟨_, rfl, hout⟩, hms⟩
  | @map es out disclosed labels labels' lists undisclosed ms ms' n n' hlength hentries hlists
      hhashes hnodup =>
    obtain ⟨fs, gs, rfl, hfs, hperm⟩ := sameData_map.mp hsame
    obtain ⟨out₁, ms₁, h₁, hout₁, hms₁⟩ := hentries.of_same hnext hfs
    obtain ⟨out₂, labels₂, lists₂, ms₂, h₂, hout₂, hlabels₂, hlists₂, hms₂⟩ := h₁.of_perm hperm
    -- there is one list of hashes at most, so it stays where it is
    have hlists₂ : lists₂ = lists := by
      rcases Nat.le_one_iff_eq_zero_or_eq_one.mp hlists with h | h
      · rw [List.length_eq_zero_iff] at h
        rw [h] at hlists₂ ⊢
        exact hlists₂.symm.eq_nil
      · obtain ⟨list, rfl⟩ := List.length_eq_one_iff.mp h
        exact (List.perm_singleton.mp hlists₂.symm)
    rw [hfs.length_eq, hperm.length_eq] at hlength
    refine ⟨_, ms₂ ++ ms', .map hlength h₂ (by rwa [hlists₂]) (by rwa [hlists₂]) ?_, ?_, ?_⟩
    · exact (hlabels₂.append_right _).nodup_iff.mp hnodup
    · refine sameData_map.mpr ⟨out₁ ++ disclosed ++ undisclosedEntry undisclosed, _, rfl, ?_, ?_⟩
      · have hrefl (es : List (Value × Value)) : List.Forall₂ SameEntry es es :=
          List.forall₂_same.mpr fun e _ => ⟨.refl _, .refl _⟩
        exact List.rel_append (List.rel_append hout₁ (hrefl _)) (hrefl _)
      · exact (hout₂.append_right _).append_right _
    · exact (hms₁.trans hms₂).append_right _

end Derivation

theorem Restores.of_same {limits : ProcessingLimits} {validate : Bool} {levels depth : Nat}
    {value value' w : Value} {ms : List Meeting} {n : Nat}
    (h : Restores limits validate levels depth value value' ms n) (hsame : SameData value w) :
    ∃ w' ms', Restores limits validate levels depth w w' ms' n ∧ SameData value' w' ∧
      ms.Perm ms' := by
  induction levels generalizing depth value value' w ms n with
  | zero => exact h.elim
  | succ levels ih =>
    have hnext (v v' : Value) (ms : List Meeting) (n : Nat)
        (h : Restores limits validate levels (depth + 1) v v' ms n) (w : Value)
        (hsame : SameData v w) := ih h hsame
    exact ValueRestores.of_same hnext h hsame

/-! ### Restoration of the same data -/

/-- The same restored value with the same counts. -/
structure SameReport (r r' : RestoreReport) : Prop where
  value : SameData r.value r'.value
  disclosed : r.disclosed = r'.disclosed
  decoys : r.decoys = r'.decoys
  removedRedactions : r.removedRedactions = r'.removedRedactions

/-- No digest of a disclosure is the hash of two markers, of those in the value and in the
disclosed values. -/
def OnceEach (hasher : RedactionHasher) (ds : List Disclosure) (value : Value) : Prop :=
  ∀ d ∈ ds, ((markers value ++ ds.flatMap Disclosure.markers).map Marker.hash).count
    (d.redactedHash hasher) ≤ 1

instance (hasher : RedactionHasher) (ds : List Disclosure) (value : Value) :
    Decidable (OnceEach hasher ds value) :=
  inferInstanceAs (Decidable (∀ d ∈ ds, _ ≤ 1))

section Restoration

variable {c : SdCbor2} {mode : RestoreMode} {ds : List Disclosure} {hasher : RedactionHasher}
  {limits : ProcessingLimits} {value w : Value} {r r' : RestoreReport} {ms ms' : List Meeting}
  {n n' : Nat}

theorem restoreWithLimits_ok :
    restoreWithLimits c mode value ds hasher limits = .ok r ↔
      ∃ ms n, Presented mode limits false value none hasher ds r ms n := by
  rw [← restoreClaims_ok (c := c), restoreWithLimits, restoreWithProtectedClaims,
    Except.bind_eq_ok]
  simp only [Bool.false_eq_true, if_false, Except.pure_eq_ok, exists_eq_right]

/-- The derivation of a restoration without protected claims. -/
theorem Presented.restores_value {validate : Bool}
    (h : Presented mode limits validate value none hasher ds r ms n) :
    r.protectedClaims = none ∧
      Restores limits validate (limits.maxDepth + 1) 0 value r.value ms n := by
  obtain ⟨ms₁, ms₂, n₁, n₂, rfl, rfl, h₁, h₂⟩ := h.restores
  generalize hclaims : r.protectedClaims = claims at h₁
  cases h₁ with
  | absent =>
    rw [List.nil_append, Nat.zero_add]
    exact ⟨rfl, h₂⟩

/-- The hashes asked for are those of the value and of all disclosed values. -/
theorem Presented.asked_perm {out : Value}
    (h : Presented mode limits false w none hasher ds r ms n)
    (hR : Restores limits false (limits.maxDepth + 1) 0 value out ms' n')
    (hperm : ms.Perm ms') :
    (BTreeMap.asked Marker.hash ms).Perm
      ((markers value ++ ds.flatMap Disclosure.markers).map Marker.hash) := by
  have hused : (usedUp ms').Perm ds := by
    have honce := h.accounts.once
    rw [BTreeMap.map_snd_found] at honce
    exact (hperm.symm.filterMap _).trans honce
  have hmarkers := hR.accounted.markers.trans ((hused.flatMap_right _).append_left _)
  have hasked := ((hperm.map Prod.fst).trans hmarkers).map Marker.hash
  rwa [List.map_map] at hasked

/-- A value that is the same data is restored to the same data. -/
theorem Presented.of_same (h : Presented mode limits false value none hasher ds r ms n)
    (hsame : SameData value w)
    (honce : mode = .holder ∨ OnceEach hasher ds value ∨ OnceEach hasher ds w) :
    ∃ r' ms', Presented mode limits false w none hasher ds r' ms' n ∧ SameReport r r' := by
  obtain ⟨hprotected, hR⟩ := h.restores_value
  obtain ⟨w', ms', hR', hsame', hperm⟩ := hR.of_same hsame
  refine ⟨⟨w', none, r.disclosed, r.decoys, r.removedRedactions⟩, ms', ?_, hsame', rfl, rfl, rfl⟩
  have hasked : (BTreeMap.asked Marker.hash ms).Perm (BTreeMap.asked Marker.hash ms') :=
    hperm.map _
  -- no disclosure that is pending is asked for twice
  have hcount : ∀ e ∈ (BTreeMap.ofList (digested hasher ds)).entries,
      (BTreeMap.asked Marker.hash ms).count e.1 ≤ 1 := by
    intro e he
    obtain ⟨hd, hdigest⟩ := (get_digested h.loads.digests).mp (BTreeMap.get_eq_some.mpr he)
    rw [← hdigest]
    rcases honce with hmode | honce | honce
    · exact List.nodup_iff_count_le_one.mp (h.passes.finds.nodup (h.passes.answered hmode)) _
    · rw [(h.asked_perm hR (.refl _)).count_eq]
      exact honce _ hd
    · rw [(h.asked_perm hR' hperm).count_eq]
      exact honce _ hd
  refine ⟨h.loads, ⟨[], ms', 0, n, rfl, (Nat.zero_add n).symm, .absent, hR'⟩, ?_, ?_, ?_⟩
  · refine ⟨h.passes.finds.of_perm hperm hcount, fun hmode m hm => ?_, h.passes.affords⟩
    exact h.passes.answered hmode m (hperm.mem_iff.mpr hm)
  · rw [← BTreeMap.removeAll_perm _ hasked]
    exact h.usesAll
  · have hstats := h.stats
    have hused : (usedUp ms').Perm (usedUp ms) := hperm.symm.filterMap _
    rw [RestoreStats.after] at hstats ⊢
    rw [← hstats, hused.countP_eq, hused.countP_eq, hperm.symm.countP_eq]

end Restoration

/-! ### A digest that occurs twice -/

/-- A disclosure of the claim 500. -/
def plainClaim : Disclosure where
  kind := .claim (List.replicate 16 1) (.int 500) (.bool true)
  encoded := (DisclosureKind.claim (List.replicate 16 1) (.int 500) (.bool true)).toValue.canonical
  valid := rfl

end Cose2.SdCwt
