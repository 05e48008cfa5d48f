import Cose2.SdCwt.Markers

/-! # What `validate_issued_value` accepts

The structural validator accepts a value exactly when its markers stand in their places
and its depth, the sizes of its containers and its items are within the limits
(`validateIssuedValue_ok`).
-/
namespace Cose2.SdCwt

open Cbor

/-! ### Keys -/

/-- A label, or `simple(59)`. -/
def IsKey (v : Value) : Prop := v = redactedClaimKeysLabel ∨ ∃ l, labelFromValue v = .ok l

theorem IsKey.scalar {v : Value} (h : IsKey v) : IsScalar v := by
  rcases h with rfl | ⟨l, h⟩
  · trivial
  · rw [labelFromValue_ok h]
    cases l with
    | int | text => trivial

theorem IsKey.writable {v : Value} (h : IsKey v) : v.Writable := by
  rcases h with rfl | ⟨l, h⟩
  · exact Value.writable_simple _
  · have hv := labelFromValue_ok h
    subst hv
    cases l with
    | int i => exact Value.writable_integer _
    | text s =>
      rw [Label.toValue, labelFromValue] at h
      split_ifs at h with hlength
      rw [Label.toValue, Value.writable_text]
      omega

theorem IsKey.norm {v : Value} (h : IsKey v) : v.norm = v := by
  rcases h with rfl | ⟨l, h⟩
  · rfl
  · rw [labelFromValue_ok h]
    cases l with
    | int | text => rfl

/-- Keys are the same when they are encoded alike. -/
theorem IsKey.canonical_inj {v w : Value} (hv : IsKey v) (hw : IsKey w) :
    v.canonical = w.canonical ↔ v = w := by
  rw [Value.canonical_inj hv.writable hw.writable, hv.norm, hw.norm]

/-- Keys have their deterministic encodings. -/
structure SdCbor2.EncodesKeys (c : SdCbor2) : Prop where
  key : ∀ {v}, IsKey v → c.toCanonicalVec v = .ok v.canonical

theorem IsKey.canonicalVec {c : SdCbor2} (hc : c.EncodesKeys) {v : Value} (h : IsKey v) :
    c.canonicalVec v = .ok v.canonical :=
  Except.mapError_eq_ok.mpr (hc.key h)

theorem SdCbor2.ReadsCanonically.encodesKeys {c : SdCbor2} (hr : c.ReadsCanonically) :
    c.EncodesKeys where
  key h := by
    obtain ⟨hw, hd, hdepth⟩ := encodable_scalar hr.positive h.scalar h.writable
    exact hr.canonical hw hd hdepth

/-! ### Depth and size -/

/-- The depth and the containers are within the limits. -/
inductive Fits (limits : ProcessingLimits) : (depth : Nat) → Value → Prop
  | scalar {depth : Nat} {v : Value} : IsScalar v → depth ≤ limits.maxDepth → Fits limits depth v
  | tag {depth : Nat} {t : UInt64} {v : Value} : depth ≤ limits.maxDepth →
    Fits limits (depth + 1) v → Fits limits depth (.tag t v)
  | array {depth : Nat} {vs : List Value} : depth ≤ limits.maxDepth →
    vs.length ≤ limits.maxContainerEntries → (∀ v ∈ vs, Fits limits (depth + 1) v) →
    Fits limits depth (.array vs)
  | map {depth : Nat} {es : List (Value × Value)} : depth ≤ limits.maxDepth →
    es.length ≤ limits.maxContainerEntries → (∀ e ∈ es, Fits limits (depth + 1) e.1) →
    (∀ e ∈ es, Fits limits (depth + 1) e.2) → Fits limits depth (.map es)

variable {limits : ProcessingLimits} {depth : Nat}

theorem Fits.depth_le {v : Value} (h : Fits limits depth v) : depth ≤ limits.maxDepth := by
  cases h with
  | scalar _ h | tag h | array h | map h => exact h

theorem fits_scalar {v : Value} (hv : IsScalar v) :
    Fits limits depth v ↔ depth ≤ limits.maxDepth :=
  ⟨Fits.depth_le, .scalar hv⟩

theorem fits_tag {t : UInt64} {v : Value} :
    Fits limits depth (.tag t v) ↔ depth ≤ limits.maxDepth ∧ Fits limits (depth + 1) v := by
  constructor
  · intro h
    cases h with
    | scalar hs => exact hs.elim
    | tag hdepth hv => exact ⟨hdepth, hv⟩
  · rintro ⟨hdepth, hv⟩
    exact .tag hdepth hv

theorem fits_array {vs : List Value} :
    Fits limits depth (.array vs) ↔ depth ≤ limits.maxDepth ∧
      vs.length ≤ limits.maxContainerEntries ∧ ∀ v ∈ vs, Fits limits (depth + 1) v := by
  constructor
  · intro h
    cases h with
    | scalar hs => exact hs.elim
    | array hdepth hlength hvs => exact ⟨hdepth, hlength, hvs⟩
  · rintro ⟨hdepth, hlength, hvs⟩
    exact .array hdepth hlength hvs

theorem fits_map {es : List (Value × Value)} :
    Fits limits depth (.map es) ↔ depth ≤ limits.maxDepth ∧
      es.length ≤ limits.maxContainerEntries ∧
      ∀ e ∈ es, Fits limits (depth + 1) e.1 ∧ Fits limits (depth + 1) e.2 := by
  constructor
  · intro h
    cases h with
    | scalar hs => exact hs.elim
    | map hdepth hlength hkeys hvalues =>
      exact ⟨hdepth, hlength, fun e he => ⟨hkeys e he, hvalues e he⟩⟩
  · rintro ⟨hdepth, hlength, hes⟩
    exact .map hdepth hlength (fun e he => (hes e he).1) fun e he => (hes e he).2

theorem fits_hashes {hashes : List Bytes} :
    Fits limits depth (.array (hashes.map .bytes)) ↔ depth ≤ limits.maxDepth ∧
      hashes.length ≤ limits.maxContainerEntries ∧
      (hashes ≠ [] → depth + 1 ≤ limits.maxDepth) := by
  rw [fits_array, List.length_map]
  refine and_congr_right fun _ => and_congr_right fun _ => ?_
  constructor
  · intro h hne
    obtain ⟨hash, hashes, rfl⟩ := List.exists_cons_of_ne_nil hne
    exact (h (.bytes hash) List.mem_cons_self).depth_le
  · intro h v hv
    obtain ⟨hash, hhash, rfl⟩ := List.mem_map.mp hv
    exact .scalar trivial (h (List.ne_nil_of_mem hhash))

theorem fits_redactedElement {hash : Bytes} :
    Fits limits (depth + 1) (redactedElement hash) ↔ depth + 2 ≤ limits.maxDepth := by
  have hbytes : IsScalar (.bytes hash) := trivial
  rw [redactedElement, fits_tag, fits_scalar hbytes]
  omega

/-- A value that fits further down fits further up. -/
theorem Fits.mono {v : Value} {depth' : Nat} (h : Fits limits depth v) (hle : depth' ≤ depth) :
    Fits limits depth' v := by
  induction h generalizing depth' with
  | scalar hs hdepth => exact .scalar hs (hle.trans hdepth)
  | tag hdepth _ ih => exact .tag (hle.trans hdepth) (ih (Nat.succ_le_succ hle))
  | array hdepth hlength _ ih =>
    exact .array (hle.trans hdepth) hlength fun v hv => ih v hv (Nat.succ_le_succ hle)
  | map hdepth hlength _ _ ihkeys ihvalues =>
    exact .map (hle.trans hdepth) hlength (fun e he => ihkeys e he (Nat.succ_le_succ hle))
      fun e he => ihvalues e he (Nat.succ_le_succ hle)

/-- Only the bounds on what is counted up differ. -/
structure SameShapeLimits (limits limits' : ProcessingLimits) : Prop where
  maxDepth : limits'.maxDepth = limits.maxDepth
  maxContainerEntries : limits'.maxContainerEntries = limits.maxContainerEntries

theorem Fits.of_same {limits' : ProcessingLimits} {v : Value} (h : Fits limits depth v)
    (hsame : SameShapeLimits limits limits') : Fits limits' depth v := by
  have hdepths := hsame.maxDepth
  have hentries := hsame.maxContainerEntries
  induction h with
  | scalar hs hdepth => exact .scalar hs (by omega)
  | tag hdepth _ ih => exact .tag (by omega) ih
  | array hdepth hlength _ ih => exact .array (by omega) (by omega) ih
  | map hdepth hlength _ _ ihkeys ihvalues =>
    exact .map (by omega) (by omega) ihkeys ihvalues

theorem items_scalar {v : Value} (h : IsScalar v) : items v = 1 := by
  cases v with
  | map | array | tag => exact h.elim
  | integer | bytes | text | float | bool | null | simple => rfl

theorem itemsAll_hashes (hashes : List Bytes) :
    items.itemsAll (hashes.map .bytes) = hashes.length := by
  induction hashes with
  | nil => rfl
  | cons hash hashes ih =>
    rw [List.map_cons, items.itemsAll, ih, List.length_cons, Nat.add_comm]
    rfl

/-! ### The validator -/

/-- An entry of an issued map. -/
structure EntryValid (limits : ProcessingLimits) (depth : Nat) (e : Value × Value) : Prop where
  hidden : isVisible e = false → ∃ hashes : List Bytes, e.2 = .array (hashes.map .bytes)
  label : isVisible e = true → ∃ l, labelFromValue e.1 = .ok l
  value : isVisible e = true → Redacted true e.2
  fitsKey : Fits limits (depth + 1) e.1
  fitsValue : Fits limits (depth + 1) e.2

/-- An element of an issued array. -/
structure ItemValid (limits : ProcessingLimits) (depth : Nat) (v : Value) : Prop where
  redacted : isRedactedElement v = true → ∃ hash, v = redactedElement hash
  value : isRedactedElement v = false → Redacted true v
  fits : Fits limits (depth + 1) v

theorem EntryValid.key {e : Value × Value} (h : EntryValid limits depth e) : IsKey e.1 := by
  cases hv : isVisible e with
  | true => exact .inr (h.label hv)
  | false =>
    rw [isVisible, Bool.not_eq_false'] at hv
    exact .inl (isRedactedClaimKeysLabel_iff.mp hv)

theorem redacted_map_iff {es : List (Value × Value)} :
    Redacted true (.map es) ∧ Fits limits depth (.map es) ↔
      depth ≤ limits.maxDepth ∧ es.length ≤ limits.maxContainerEntries ∧
        (∀ e ∈ es, EntryValid limits depth e) ∧ (es.map Prod.fst).Nodup := by
  rw [fits_map]
  constructor
  · rintro ⟨hR, hdepth, hlength, hfits⟩
    cases hR with
    | scalar hs => exact hs.elim
    | map hhidden hlabels hnodup hvalues =>
      refine ⟨hdepth, hlength, fun e he => ?_, hnodup⟩
      exact ⟨fun h => (hhidden e he h).2, hlabels e he, hvalues e he, (hfits e he).1,
        (hfits e he).2⟩
  · rintro ⟨hdepth, hlength, hes, hnodup⟩
    refine ⟨.map ?_ ?_ hnodup ?_, hdepth, hlength, fun e he => ?_⟩
    · exact fun e he h => ⟨rfl, (hes e he).hidden h⟩
    · exact fun e he h => (hes e he).label h
    · exact fun e he h => (hes e he).value h
    · exact ⟨(hes e he).fitsKey, (hes e he).fitsValue⟩

theorem redacted_array_iff {vs : List Value} :
    Redacted true (.array vs) ∧ Fits limits depth (.array vs) ↔
      depth ≤ limits.maxDepth ∧ vs.length ≤ limits.maxContainerEntries ∧
        ∀ v ∈ vs, ItemValid limits depth v := by
  rw [fits_array]
  constructor
  · rintro ⟨hR, hdepth, hlength, hfits⟩
    cases hR with
    | scalar hs => exact hs.elim
    | array hredacted hvalues =>
      refine ⟨hdepth, hlength, fun v hv => ?_⟩
      exact ⟨fun h => (hredacted v hv h).2, hvalues v hv, hfits v hv⟩
  · rintro ⟨hdepth, hlength, hvs⟩
    refine ⟨.array ?_ ?_, hdepth, hlength, fun v hv => (hvs v hv).fits⟩
    · exact fun v hv h => ⟨rfl, (hvs v hv).redacted h⟩
    · exact fun v hv h => (hvs v hv).value h

theorem redacted_tag_iff {t : UInt64} {v : Value} :
    Redacted true (.tag t v) ↔ ¬ IsReservedTag t ∧ Redacted true v := by
  constructor
  · intro h
    cases h with
    | scalar hs => exact hs.elim
    | tag ht hv => exact ⟨ht, hv⟩
  · rintro ⟨ht, hv⟩
    exact .tag ht hv

theorem redacted_scalar_iff {v : Value} (hv : IsScalar v) :
    Redacted true v ↔ isRedactedClaimKeysLabel v = false := by
  constructor
  · intro h
    cases h with
    | scalar _ hlabel => exact hlabel
    | tag | array | map => exact hv.elim
  · exact .scalar hv

section Validator

variable {c : SdCbor2} (hc : c.EncodesKeys) {b b' : TraversalBudget}
include hc

theorem validateIssuedEntries_ok {es : List (Value × Value)} {keys : List Bytes}
    (hvalues : ∀ e ∈ es, ∀ b b', validateIssuedValue c e.2 b (depth + 1) = .ok b' ↔
      (Redacted true e.2 ∧ Fits b.limits (depth + 1) e.2) ∧ b.Affords (items e.2) ∧
        b' = b.spend (items e.2)) :
    validateIssuedEntries c es keys b depth = .ok b' ↔
      (∀ e ∈ es, EntryValid b.limits depth e) ∧ (es.map Prod.fst).Nodup ∧
        (∀ e ∈ es, e.1.canonical ∉ keys) ∧ b.Affords (items.itemsEntries es) ∧
        b' = b.spend (items.itemsEntries es) := by
  induction es generalizing keys b b' with
  | nil =>
    rw [validateIssuedEntries, Except.ok.injEq, eq_comm]
    refine ⟨fun h => ⟨by simp, List.nodup_nil, by simp, .inl rfl, h⟩, fun h => h.2.2.2.2⟩
  | cons e es ih =>
    obtain ⟨key, value⟩ := e
    have ih {keys : List Bytes} {b b' : TraversalBudget} :=
      @ih b b' keys fun e he => hvalues e (List.mem_cons_of_mem _ he)
    have hvalue := hvalues (key, value) List.mem_cons_self
    rw [validateIssuedEntries]
    simp only [Except.bind_eq_ok, TraversalBudget.enter_ok, Except.failIf_eq_ok]
    -- what the rest checks once the first entry is known to be valid
    have hnodup (hkey : EntryValid b.limits depth (key, value))
        (hes : ∀ e ∈ es, EntryValid b.limits depth e) :
        (∀ e ∈ es, e.1.canonical ∉ key.canonical :: keys) ↔
          key ∉ es.map Prod.fst ∧ ∀ e ∈ es, e.1.canonical ∉ keys := by
      constructor
      · intro h
        refine ⟨fun hmem => ?_, fun e he hmem => h e he (List.mem_cons_of_mem _ hmem)⟩
        obtain ⟨e, he, heq⟩ := List.mem_map.mp hmem
        exact h e he (by rw [heq]; exact List.mem_cons_self)
      · rintro ⟨hnew, h⟩ e he hmem
        rcases List.mem_cons.mp hmem with heq | hmem
        · rw [(hes e he).key.canonical_inj hkey.key] at heq
          exact hnew (List.mem_map.mpr ⟨e, he, heq⟩)
        · exact h e he hmem
    have hentry {n : Nat} (hkey : IsKey key) (hn : items value = n) :
        items.itemsEntries ((key, value) :: es) = 1 + (n + items.itemsEntries es) := by
      rw [items.itemsEntries, items_scalar hkey.scalar, hn, Nat.add_assoc]
    by_cases hmarked : isRedactedClaimKeysLabel key = true
    · have hkey : IsKey key := .inl (isRedactedClaimKeysLabel_iff.mp hmarked)
      have hhidden : isVisible (key, value) = false := by simp [isVisible, hmarked]
      simp only [if_pos hmarked, Except.bind_eq_ok, Prod.exists, readRedactedKeys_ok,
        Except.pure_eq_ok, exists_eq_left', ih]
      constructor
      · rintro ⟨b₁, ⟨hdepth, haffords, hb₁⟩, k, hk, _, hnew, hashes, b₂,
          ⟨hlist, hdeep, hlength, hdeeper, haffords', hb₂⟩, hes, hdistinct, hfresh, hrest, hb'⟩
        subst hb₁ hb₂ hlist
        rw [hkey.canonicalVec hc, Except.ok.injEq] at hk
        subst hk
        have hfirst : EntryValid b.limits depth (key, .array (hashes.map .bytes)) := by
          refine ⟨fun _ => ⟨hashes, rfl⟩, fun h => absurd h (by simp [hhidden]),
            fun h => absurd h (by simp [hhidden]), .scalar hkey.scalar hdepth, ?_⟩
          exact fits_hashes.mpr ⟨hdeep, hlength, hdeeper⟩
        have hcount : items (.array (hashes.map .bytes)) = 1 + hashes.length := by
          rw [items, itemsAll_hashes]
        rw [hentry hkey hcount, TraversalBudget.affords_add, TraversalBudget.affords_add,
          List.map_cons, List.nodup_cons, List.forall_mem_cons, List.forall_mem_cons]
        have hfresh := (hnodup hfirst hes).mp hfresh
        refine ⟨⟨hfirst, hes⟩, ⟨hfresh.1, hdistinct⟩, ⟨hnew, hfresh.2⟩,
          ⟨haffords, haffords', hrest⟩, ?_⟩
        rw [hb', TraversalBudget.spend_spend, TraversalBudget.spend_spend, Nat.add_assoc]
      · rintro ⟨hvalid, hdistinct, hfresh, haffords, hb'⟩
        obtain ⟨hfirst, hes⟩ := List.forall_mem_cons.mp hvalid
        obtain ⟨hashes, hlist⟩ := hfirst.hidden hhidden
        rw [List.map_cons, List.nodup_cons] at hdistinct
        obtain ⟨hnew, hfresh⟩ := List.forall_mem_cons.mp hfresh
        have hfresh := (hnodup hfirst hes).mpr ⟨hdistinct.1, hfresh⟩
        have hdepth := hfirst.fitsKey.depth_le
        have hfits := hfirst.fitsValue
        rw [hlist] at hfits
        obtain ⟨hdeep, hlength, hdeeper⟩ := fits_hashes.mp hfits
        have hcount : items value = 1 + hashes.length := by
          rw [show value = _ from hlist, items, itemsAll_hashes]
        rw [hentry hkey hcount, TraversalBudget.affords_add,
          TraversalBudget.affords_add] at haffords
        rw [hentry hkey hcount, ← TraversalBudget.spend_spend, ← TraversalBudget.spend_spend] at hb'
        exact ⟨_, ⟨hdepth, haffords.1, rfl⟩, _, hkey.canonicalVec hc, (), hnew, hashes, _,
          ⟨hlist, hdeep, hlength, hdeeper, haffords.2.1, rfl⟩, hes, hdistinct.2, hfresh,
          haffords.2.2, hb'⟩
    · have hvisible : isVisible (key, value) = true := by simpa [isVisible] using hmarked
      simp only [if_neg hmarked, Except.bind_eq_ok, Except.mapError_eq_ok, hvalue, ih]
      constructor
      · rintro ⟨b₁, ⟨hdepth, haffords, hb₁⟩, k, hk, _, hnew, label, hlabel, b₂,
          ⟨⟨hR, hfits⟩, haffords', hb₂⟩, hes, hdistinct, hfresh, hrest, hb'⟩
        subst hb₁ hb₂
        have hkey : IsKey key := .inr ⟨label, hlabel⟩
        rw [hkey.canonicalVec hc, Except.ok.injEq] at hk
        subst hk
        have hfirst : EntryValid b.limits depth (key, value) :=
          ⟨fun h => absurd h (by simp [hvisible]), fun _ => ⟨label, hlabel⟩, fun _ => hR,
            .scalar hkey.scalar hdepth, hfits⟩
        rw [hentry hkey rfl, TraversalBudget.affords_add, TraversalBudget.affords_add,
          List.map_cons, List.nodup_cons, List.forall_mem_cons, List.forall_mem_cons]
        have hfresh := (hnodup hfirst hes).mp hfresh
        refine ⟨⟨hfirst, hes⟩, ⟨hfresh.1, hdistinct⟩, ⟨hnew, hfresh.2⟩,
          ⟨haffords, haffords', hrest⟩, ?_⟩
        rw [hb', TraversalBudget.spend_spend, TraversalBudget.spend_spend]
      · rintro ⟨hvalid, hdistinct, hfresh, haffords, hb'⟩
        obtain ⟨hfirst, hes⟩ := List.forall_mem_cons.mp hvalid
        obtain ⟨label, hlabel⟩ := hfirst.label hvisible
        have hkey : IsKey key := .inr ⟨label, hlabel⟩
        rw [List.map_cons, List.nodup_cons] at hdistinct
        obtain ⟨hnew, hfresh⟩ := List.forall_mem_cons.mp hfresh
        have hfresh := (hnodup hfirst hes).mpr ⟨hdistinct.1, hfresh⟩
        rw [hentry hkey rfl, TraversalBudget.affords_add, TraversalBudget.affords_add] at haffords
        rw [hentry hkey rfl, ← TraversalBudget.spend_spend, ← TraversalBudget.spend_spend] at hb'
        exact ⟨_, ⟨hfirst.fitsKey.depth_le, haffords.1, rfl⟩, _, hkey.canonicalVec hc, (), hnew,
          label, hlabel, _, ⟨⟨hfirst.value hvisible, hfirst.fitsValue⟩, haffords.2.1, rfl⟩, hes,
          hdistinct.2, hfresh, haffords.2.2, hb'⟩

omit hc in
theorem validateIssuedItems_ok {vs : List Value}
    (hvalues : ∀ v ∈ vs, ∀ b b', validateIssuedValue c v b (depth + 1) = .ok b' ↔
      (Redacted true v ∧ Fits b.limits (depth + 1) v) ∧ b.Affords (items v) ∧
        b' = b.spend (items v)) :
    validateIssuedItems c vs b depth = .ok b' ↔
      (∀ v ∈ vs, ItemValid b.limits depth v) ∧ b.Affords (items.itemsAll vs) ∧
        b' = b.spend (items.itemsAll vs) := by
  induction vs generalizing b b' with
  | nil =>
    rw [validateIssuedItems, Except.ok.injEq, eq_comm]
    exact ⟨fun h => ⟨by simp, .inl rfl, h⟩, fun h => h.2.2⟩
  | cons v vs ih =>
    have ih {b b' : TraversalBudget} := @ih b b' fun v hv => hvalues v (List.mem_cons_of_mem _ hv)
    have hvalue := hvalues v List.mem_cons_self
    rw [validateIssuedItems, items.itemsAll, TraversalBudget.affords_add,
      ← TraversalBudget.spend_spend, List.forall_mem_cons]
    cases hinner : redactedInner v with
    | some inner =>
      have hv := redactedInner_eq_some.mp hinner
      have helement : isRedactedElement v = true := by
        rw [hv]
        rfl
      simp only [Except.bind_eq_ok, TraversalBudget.enter_ok, expectBytes_ok, Except.pure_eq_ok,
        exists_eq_left', ih]
      constructor
      · rintro ⟨b₁, ⟨_, haffords₁, hb₁⟩, b₂, ⟨hdepth, haffords₂, hb₂⟩, hash, hhash, hvs, hrest, hb'⟩
        subst hb₁ hb₂ hhash hv
        have htwo := TraversalBudget.affords_add.mpr ⟨haffords₁, haffords₂⟩
        refine ⟨⟨⟨fun _ => ⟨hash, rfl⟩, by rintro ⟨⟩, fits_redactedElement.mpr hdepth⟩, hvs⟩,
          ⟨htwo, hrest⟩, hb'⟩
      · rintro ⟨⟨hfirst, hvs⟩, ⟨haffords, hrest⟩, hb'⟩
        obtain ⟨hash, heq⟩ := hfirst.redacted helement
        have hfits := hfirst.fits
        subst heq
        have hdepth := fits_redactedElement.mp hfits
        obtain ⟨haffords₁, haffords₂⟩ :=
          TraversalBudget.affords_add.mp (show b.Affords (1 + 1) from haffords)
        exact ⟨_, ⟨by omega, haffords₁, rfl⟩, _, ⟨hdepth, haffords₂, rfl⟩, hash,
          (Value.tag.inj hv).2.symm, hvs, hrest, hb'⟩
    | none =>
      have helement := redactedInner_eq_none.mp hinner
      simp only [Except.bind_eq_ok, hvalue, ih]
      constructor
      · rintro ⟨b₁, ⟨⟨hR, hfits⟩, haffords, hb₁⟩, hvs, hrest, hb'⟩
        subst hb₁
        exact ⟨⟨⟨fun h => absurd h (by simp [helement]), fun _ => hR, hfits⟩, hvs⟩,
          ⟨haffords, hrest⟩, hb'⟩
      · rintro ⟨⟨hfirst, hvs⟩, ⟨haffords, hrest⟩, hb'⟩
        exact ⟨_, ⟨⟨hfirst.value helement, hfirst.fits⟩, haffords, rfl⟩, hvs, hrest, hb'⟩

/-- **The structural validator accepts exactly the values whose markers stand in their
places, within the limits.** -/
theorem validateIssuedValue_ok {v : Value} :
    validateIssuedValue c v b depth = .ok b' ↔
      (Redacted true v ∧ Fits b.limits depth v) ∧ b.Affords (items v) ∧
        b' = b.spend (items v) := by
  induction v generalizing b b' depth with
  | map es ih =>
    have hes (b b' : TraversalBudget) := @validateIssuedEntries_ok depth c hc b b' es []
      fun e he b b' => (ih e he).2
    rw [validateIssuedValue, Except.bind_eq_ok, redacted_map_iff, items,
      TraversalBudget.affords_add, ← TraversalBudget.spend_spend]
    simp only [TraversalBudget.enter_ok, Except.seq_eq_ok, TraversalBudget.container_ok, hes]
    constructor
    · rintro ⟨b₁, ⟨hdepth, haffords, hb₁⟩, hlength, hvalid, hnodup, _, hrest, hb'⟩
      subst hb₁
      exact ⟨⟨hdepth, hlength, hvalid, hnodup⟩, ⟨haffords, hrest⟩, hb'⟩
    · rintro ⟨⟨hdepth, hlength, hvalid, hnodup⟩, ⟨haffords, hrest⟩, hb'⟩
      exact ⟨_, ⟨hdepth, haffords, rfl⟩, hlength, hvalid, hnodup, fun _ _ => by simp, hrest, hb'⟩
  | array vs ih =>
    have hvs (b b' : TraversalBudget) := @validateIssuedItems_ok depth c b b' vs
      fun v hv b b' => ih v hv
    rw [validateIssuedValue, Except.bind_eq_ok, redacted_array_iff, items,
      TraversalBudget.affords_add, ← TraversalBudget.spend_spend]
    simp only [TraversalBudget.enter_ok, Except.seq_eq_ok, TraversalBudget.container_ok, hvs]
    constructor
    · rintro ⟨b₁, ⟨hdepth, haffords, hb₁⟩, hlength, hvalid, hrest, hb'⟩
      subst hb₁
      exact ⟨⟨hdepth, hlength, hvalid⟩, ⟨haffords, hrest⟩, hb'⟩
    · rintro ⟨⟨hdepth, hlength, hvalid⟩, ⟨haffords, hrest⟩, hb'⟩
      exact ⟨_, ⟨hdepth, haffords, rfl⟩, hlength, hvalid, hrest, hb'⟩
  | tag t v ih =>
    rw [validateIssuedValue, Except.bind_eq_ok, redacted_tag_iff, fits_tag, items,
      TraversalBudget.affords_add, ← TraversalBudget.spend_spend]
    simp only [TraversalBudget.enter_ok]
    by_cases ht : IsReservedTag t
    · simp only [if_pos ht]
      refine iff_of_false (fun h => ?_) fun h => h.1.1.1 ht
      obtain ⟨_, _, h⟩ := h
      cases h
    · simp only [if_neg ht, ih]
      constructor
      · rintro ⟨b₁, ⟨hdepth, haffords, hb₁⟩, ⟨hR, hfits⟩, hrest, hb'⟩
        subst hb₁
        exact ⟨⟨⟨ht, hR⟩, hdepth, hfits⟩, ⟨haffords, hrest⟩, hb'⟩
      · rintro ⟨⟨⟨_, hR⟩, hdepth, hfits⟩, ⟨haffords, hrest⟩, hb'⟩
        exact ⟨_, ⟨hdepth, haffords, rfl⟩, ⟨hR, hfits⟩, hrest, hb'⟩
  | simple s =>
    have hs : IsScalar (.simple s) := trivial
    rw [redacted_scalar_iff hs, fits_scalar hs, items_scalar hs]
    simp only [validateIssuedValue, Except.bind_eq_ok, TraversalBudget.enter_ok]
    by_cases hlabel : isRedactedClaimKeysLabel (.simple s) = true
    · simp only [if_pos hlabel]
      refine iff_of_false (fun h => ?_) fun h => absurd hlabel (by simp [h.1.1])
      obtain ⟨_, _, h⟩ := h
      cases h
    · simp only [if_neg hlabel, Except.pure_eq_ok]
      rw [Bool.not_eq_true] at hlabel
      constructor
      · rintro ⟨b₁, ⟨hdepth, haffords, hb₁⟩, hb'⟩
        exact ⟨⟨hlabel, hdepth⟩, haffords, by rw [← hb', hb₁]⟩
      · rintro ⟨⟨_, hdepth⟩, haffords, hb'⟩
        exact ⟨_, ⟨hdepth, haffords, rfl⟩, hb'.symm⟩
  | integer | bytes | text | float | bool | null =>
    have scalar {v : Value} (hv : IsScalar v) (hlabel : isRedactedClaimKeysLabel v = false) :
        b.enter depth = .ok b' ↔ (Redacted true v ∧ Fits b.limits depth v) ∧
          b.Affords (items v) ∧ b' = b.spend (items v) := by
      rw [TraversalBudget.enter_ok, redacted_scalar_iff hv, fits_scalar hv, items_scalar hv]
      exact ⟨fun h => ⟨⟨hlabel, h.1⟩, h.2⟩, fun h => ⟨h.1.2, h.2⟩⟩
    simp only [validateIssuedValue]
    exact scalar trivial rfl

end Validator

end Cose2.SdCwt
