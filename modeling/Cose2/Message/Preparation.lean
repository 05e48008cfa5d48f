import Cose2.HeaderRoundTrip

/-! # What the preparation of headers establishes

`prepare_headers` puts the algorithm of a provider into the protected bucket and its
key id into the unprotected one, unless they are there, and encodes the protected
bucket.  `AlgStep` and `KidStep` say what its two parts do when they succeed; once
done they have nothing left to do, so that preparing again gives the same bytes.
-/
namespace Cose2

open Cbor Iana

/-! ### The two steps -/

/-- What `ensure_protected_alg` makes of the buckets. -/
inductive AlgStep (b : Buckets) : Option Label → Buckets → Prop
  | skip : AlgStep b none b
  | there {alg : Label} (h : b.protectedHeader.alg = .ok (some alg)) : AlgStep b (some alg) b
  | put {alg : Label} (hp : b.protectedHeader.alg = .ok none)
      (hu : b.unprotectedHeader.alg = .ok none ∨ b.unprotectedHeader.alg = .ok (some alg)) :
      AlgStep b (some alg)
        ⟨b.protectedHeader.setAlg alg, b.unprotectedHeader.remove headerParameterAlg⟩

/-- What `ensure_unprotected_kid` makes of the buckets. -/
inductive KidStep (b : Buckets) : Option Bytes → Buckets → Prop
  | skip : KidStep b none b
  | there {kid : Bytes} {existing : Option Bytes} (hp : b.protectedHeader.kid = .ok existing)
      (h : existing ≠ none ∨ b.unprotectedHeader.containsKey headerParameterKid = true) :
      KidStep b (some kid) b
  | put {kid : Bytes} (hp : b.protectedHeader.kid = .ok none)
      (hu : b.unprotectedHeader.containsKey headerParameterKid = false) :
      KidStep b (some kid) { b with unprotectedHeader := b.unprotectedHeader.setKid kid }

section Steps

variable {alg : Option Label} {kid : Option Bytes} {b b' : Buckets}

theorem requireSameAlg_ok {existing expected : Label} :
    requireSameAlg existing expected = .ok () ↔ existing = expected := by
  rw [requireSameAlg, Except.failIf_eq_ok, not_not]

/-- There is no algorithm to read where there is no entry for it. -/
theorem alg_eq_none {h : Header} : h.alg = .ok none ↔ h.get headerParameterAlg = none :=
  CoseMap.getLabel_eq_ok

theorem alg_eq_some {h : Header} {alg : Label} :
    h.alg = .ok (some alg) ↔ h.get headerParameterAlg = some alg.toValue :=
  CoseMap.getLabel_eq_ok

theorem ensureProtectedAlg_ok :
    (ensureProtectedAlg alg).run b = (.ok (), b') ↔ AlgStep b alg b' := by
  cases alg with
  | none =>
    rw [ensureProtectedAlg, Op.run_pure_eq_ok]
    constructor
    · rintro ⟨-, rfl⟩
      exact .skip
    · rintro ⟨⟩
      exact ⟨rfl, rfl⟩
  | some alg =>
    simp only [ensureProtectedAlg, Op.run_bind_eq_ok, Op.run_get_eq_ok, Op.run_lift_eq_ok]
    constructor
    · rintro ⟨_, _, ⟨rfl, rfl⟩, existing, _, ⟨hp, rfl⟩, h⟩
      cases existing with
      | some existing =>
        obtain ⟨hsame, rfl⟩ := Op.run_lift_eq_ok.mp h
        rw [requireSameAlg_ok.mp hsame] at hp
        exact .there hp
      | none =>
        obtain ⟨existing, _, hread, h⟩ := Op.run_bind_eq_ok.mp h
        obtain ⟨hu, rfl⟩ := Op.run_lift_eq_ok.mp hread
        cases existing with
        | some existing =>
          simp only [Op.run_bind_eq_ok, Op.run_lift_eq_ok, Op.run_modify_eq_ok] at h
          obtain ⟨_, _, ⟨hsame, rfl⟩, _, _, rfl, rfl⟩ := h
          rw [requireSameAlg_ok.mp hsame] at hu
          exact .put hp (.inr hu)
        | none =>
          -- there is nothing to remove, which makes the two ways of putting one
          rw [← Op.run_modify_eq_ok.mp h, ← BTreeMap.remove_of_get (alg_eq_none.mp hu)]
          exact .put hp (.inl hu)
    · intro h
      refine ⟨b, b, ⟨rfl, rfl⟩, ?_⟩
      rcases h with _ | h | ⟨hp, hu⟩
      · refine ⟨some alg, b, ⟨h, rfl⟩, ?_⟩
        exact Op.run_lift_eq_ok.mpr ⟨requireSameAlg_ok.mpr rfl, rfl⟩
      · refine ⟨none, b, ⟨hp, rfl⟩, ?_⟩
        rcases hu with hu | hu
        · refine Op.run_bind_eq_ok.mpr ⟨none, b, Op.run_lift_eq_ok.mpr ⟨hu, rfl⟩, ?_⟩
          refine Op.run_modify_eq_ok.mpr ?_
          rw [BTreeMap.remove_of_get (alg_eq_none.mp hu)]
        · refine Op.run_bind_eq_ok.mpr ⟨some alg, b, Op.run_lift_eq_ok.mpr ⟨hu, rfl⟩, ?_⟩
          simp only [Op.run_bind_eq_ok, Op.run_lift_eq_ok, Op.run_modify_eq_ok]
          exact ⟨(), b, ⟨requireSameAlg_ok.mpr rfl, rfl⟩, (), _, rfl, rfl⟩

theorem ensureUnprotectedKid_ok :
    (ensureUnprotectedKid kid).run b = (.ok (), b') ↔ KidStep b kid b' := by
  cases kid with
  | none =>
    rw [ensureUnprotectedKid, Op.run_pure_eq_ok]
    constructor
    · rintro ⟨-, rfl⟩
      exact .skip
    · rintro ⟨⟩
      exact ⟨rfl, rfl⟩
  | some kid =>
    simp only [ensureUnprotectedKid, Op.run_bind_eq_ok, Op.run_get_eq_ok, Op.run_lift_eq_ok]
    constructor
    · rintro ⟨_, _, ⟨rfl, rfl⟩, existing, _, ⟨hp, rfl⟩, h⟩
      split_ifs at h with hnew
      · obtain ⟨rfl, hu⟩ := hnew
        rw [← Op.run_modify_eq_ok.mp h]
        exact .put hp hu
      · rw [← (Op.run_pure_eq_ok.mp h).2]
        rw [not_and_or, Bool.not_eq_false] at hnew
        exact .there hp hnew
    · intro h
      refine ⟨b, b, ⟨rfl, rfl⟩, ?_⟩
      rcases h with _ | ⟨hp, h⟩ | ⟨hp, hu⟩
      · refine ⟨_, b, ⟨hp, rfl⟩, ?_⟩
        rw [if_neg]
        · exact Op.run_pure_eq_ok.mpr ⟨rfl, rfl⟩
        · rw [not_and_or, Bool.not_eq_false]
          exact h
      · refine ⟨none, b, ⟨hp, rfl⟩, ?_⟩
        rw [if_pos ⟨rfl, hu⟩]
        exact Op.run_modify_eq_ok.mpr rfl

/-- The whole of `prepare_headers`, when it succeeds. -/
theorem prepareHeaders_ok {c : Cbor2} {raw : Bytes} :
    (prepareHeaders c alg kid).run b = (.ok raw, b') ↔
      ∃ b₁, AlgStep b alg b₁ ∧ KidStep b₁ kid b' ∧
        BucketsOk b'.protectedHeader b'.unprotectedHeader ∧
        encodeProtected c b'.protectedHeader = .ok raw := by
  simp only [prepareHeaders, Op.run_bind_eq_ok, Op.run_get_eq_ok, Op.run_lift_eq_ok]
  constructor
  · rintro ⟨_, b₁, halg, _, _, hkid, _, _, ⟨rfl, rfl⟩, _, _, ⟨hvalid, rfl⟩, hraw, rfl⟩
    exact ⟨b₁, ensureProtectedAlg_ok.mp halg, ensureUnprotectedKid_ok.mp hkid,
      validateHeaderBuckets_ok.mp hvalid, hraw⟩
  · rintro ⟨b₁, halg, hkid, hvalid, hraw⟩
    exact ⟨(), b₁, ensureProtectedAlg_ok.mpr halg, (), b', ensureUnprotectedKid_ok.mpr hkid, b', b',
      ⟨rfl, rfl⟩, (), b', ⟨validateHeaderBuckets_ok.mpr hvalid, rfl⟩, hraw, rfl⟩

/-! ### What a step leaves -/

/-- Labels other than `alg` keep their bucket and their value. -/
theorem AlgStep.get (h : AlgStep b alg b') {label : Label}
    (hl : label = headerParameterAlg → alg = none) :
    b'.protectedHeader.get label = b.protectedHeader.get label ∧
      b'.unprotectedHeader.get label = b.unprotectedHeader.get label := by
  rcases h with _ | h | ⟨hp, hu⟩
  · exact ⟨rfl, rfl⟩
  · exact ⟨rfl, rfl⟩
  · have hne : label ≠ headerParameterAlg := by
      intro he
      cases hl he
    rw [Header.setAlg, BTreeMap.get_insert, BTreeMap.get_remove, if_neg hne, if_neg hne]
    exact ⟨rfl, rfl⟩

/-- Labels other than `kid` keep their bucket and their value. -/
theorem KidStep.get (h : KidStep b kid b') {label : Label}
    (hl : label = headerParameterKid → kid = none) :
    b'.protectedHeader.get label = b.protectedHeader.get label ∧
      b'.unprotectedHeader.get label = b.unprotectedHeader.get label := by
  rcases h with _ | ⟨-, -⟩ | ⟨hp, hu⟩
  · exact ⟨rfl, rfl⟩
  · exact ⟨rfl, rfl⟩
  · have hne : label ≠ headerParameterKid := by
      intro he
      cases hl he
    rw [Header.setKid, BTreeMap.get_insert, if_neg hne]
    exact ⟨rfl, rfl⟩

theorem KidStep.protectedHeader (h : KidStep b kid b') :
    b'.protectedHeader = b.protectedHeader := by
  cases h with
  | skip | there | put => rfl

/-- An algorithm that is asked for is in the protected bucket afterwards. -/
theorem AlgStep.algProtected {alg : Label} (h : AlgStep b (some alg) b') :
    b'.protectedHeader.alg = .ok (some alg) := by
  rcases h with _ | h | ⟨hp, hu⟩
  · exact h
  · rw [alg_eq_some, Header.setAlg, BTreeMap.get_insert, if_pos rfl]

/-- A key id that is asked for is in some bucket afterwards; one that was there is kept. -/
theorem KidStep.kidKept {kid : Bytes} (h : KidStep b (some kid) b') :
    (b'.protectedHeader.containsKey headerParameterKid = true ∨
      b'.unprotectedHeader.containsKey headerParameterKid = true) ∧
    (∀ v, b.protectedHeader.get headerParameterKid = some v →
      b'.protectedHeader.get headerParameterKid = some v) ∧
    ∀ v, b.unprotectedHeader.get headerParameterKid = some v →
      b'.unprotectedHeader.get headerParameterKid = some v := by
  rcases h with _ | ⟨hp, h⟩ | ⟨hp, hu⟩
  · refine ⟨?_, fun _ hv => hv, fun _ hv => hv⟩
    rcases h with h | h
    · left
      rename_i existing
      obtain ⟨k, rfl⟩ := Option.ne_none_iff_exists'.mp h
      rw [BTreeMap.containsKey, CoseMap.getBytes_eq_ok.mp hp]
      rfl
    · exact .inr h
  · have hnot : b.unprotectedHeader.get headerParameterKid = none := by
      rw [BTreeMap.containsKey] at hu
      exact Option.isSome_eq_false_iff.mp hu |> Option.isNone_iff_eq_none.mp
    refine ⟨.inr (BTreeMap.containsKey_insert.mpr (.inl rfl)), fun _ hv => hv, fun v hv => ?_⟩
    rw [hnot] at hv
    cases hv

end Steps

/-! ### Preparing again -/

/-- The steps have nothing to do where they were made. -/
theorem AlgStep.again {alg : Option Label} {kid : Option Bytes} {b b₁ b' : Buckets}
    (h : AlgStep b alg b₁) (hkid : KidStep b₁ kid b') : AlgStep b' alg b' := by
  cases alg with
  | none => exact .skip
  | some alg =>
    apply AlgStep.there
    rw [hkid.protectedHeader]
    exact h.algProtected

theorem KidStep.again {kid : Option Bytes} {b b' : Buckets} (h : KidStep b kid b') :
    KidStep b' kid b' := by
  cases h with
  | skip => exact .skip
  | there hp h => exact .there hp h
  | put hp hu => exact .there hp (.inr (BTreeMap.containsKey_insert.mpr (.inl rfl)))

/-! ### The result -/

/-- What a successful preparation establishes, its protected bytes aside. -/
structure PreparedHeaders (c : Cbor2) (alg : Option Label) (kid : Option Bytes)
    (b b' : Buckets) (raw : Bytes) : Prop where
  algProtected : ∀ a, alg = some a → b'.protectedHeader.alg = .ok (some a) ∧
    b'.unprotectedHeader.containsKey headerParameterAlg = false
  kidOnce : kid.isSome → b'.protectedHeader.containsKey headerParameterKid ≠
    b'.unprotectedHeader.containsKey headerParameterKid
  kidKept : (∀ v, b.protectedHeader.get headerParameterKid = some v →
      b'.protectedHeader.get headerParameterKid = some v) ∧
    ∀ v, b.unprotectedHeader.get headerParameterKid = some v →
      b'.unprotectedHeader.get headerParameterKid = some v
  frame : ∀ label, (label = headerParameterAlg → alg = none) →
    (label = headerParameterKid → kid = none) →
      b'.protectedHeader.get label = b.protectedHeader.get label ∧
        b'.unprotectedHeader.get label = b.unprotectedHeader.get label
  valid : validateHeaderBuckets b'.protectedHeader b'.unprotectedHeader = .ok ()
  empty : raw = [] ↔ b'.protectedHeader.entries = []
  again : (prepareHeaders c alg kid).run b' = (.ok raw, b')
  unchanged : alg = none → kid = none → b' = b

theorem preparedHeaders {c : Cbor2} {alg : Option Label} {kid : Option Bytes} {b b' : Buckets}
    {raw : Bytes} (h : (prepareHeaders c alg kid).run b = (.ok raw, b')) :
    PreparedHeaders c alg kid b b' raw := by
  obtain ⟨b₁, halg, hkid, hvalid, hraw⟩ := prepareHeaders_ok.mp h
  have hkidLabel : b₁.protectedHeader.get headerParameterKid =
      b.protectedHeader.get headerParameterKid ∧
      b₁.unprotectedHeader.get headerParameterKid =
        b.unprotectedHeader.get headerParameterKid := by
    apply halg.get
    intro he
    cases he
  refine ⟨?_, ?_, ?_, ?_, validateHeaderBuckets_ok.mpr hvalid, ?_, ?_, ?_⟩
  · rintro a rfl
    have hp : b'.protectedHeader.alg = .ok (some a) := by
      rw [hkid.protectedHeader]
      exact halg.algProtected
    refine ⟨hp, ?_⟩
    rw [Bool.eq_false_iff]
    intro hu
    refine hvalid.disjoint _ ⟨?_, hu⟩
    rw [BTreeMap.containsKey, alg_eq_some.mp hp]
    rfl
  · intro hsome
    obtain ⟨k, rfl⟩ := Option.isSome_iff_exists.mp hsome
    intro he
    -- a key id in both buckets is what disjointness excludes
    have hboth := hkid.kidKept.1
    rw [he, or_self] at hboth
    exact hvalid.disjoint headerParameterKid ⟨he.trans hboth, hboth⟩
  · rw [← hkidLabel.1, ← hkidLabel.2]
    cases kid with
    | none =>
      cases hkid
      exact ⟨fun _ hv => hv, fun _ hv => hv⟩
    | some k => exact hkid.kidKept.2
  · intro label hlalg hlkid
    rw [(hkid.get hlkid).1, (hkid.get hlkid).2]
    exact halg.get hlalg
  · constructor
    · rintro rfl
      exact encodeProtected_nil.mp hraw
    · intro hempty
      rw [encodeProtected_nil.mpr hempty] at hraw
      exact (Except.ok.inj hraw).symm
  · exact prepareHeaders_ok.mpr ⟨b', halg.again hkid, hkid.again, hvalid, hraw⟩
  · rintro rfl rfl
    cases halg
    cases hkid
    rfl

/-- **A successful preparation puts the algorithm and the key id in their places, keeps
everything else, and gives the bytes of the protected bucket**, from which the bucket
is decoded again if there is no undefined in it. -/
theorem prepareHeaders_prepares {c : Cbor2} (hw : c.WritesValues) (hr : c.ReadsBack)
    (hrecursion : defaultMaxDepth < c.recursionLimit) (alg : Option Label)
    (kid : Option Bytes) (b b' : Buckets) (raw : Bytes)
    (h : (prepareHeaders c alg kid).run b = (.ok raw, b')) :
    PreparedHeaders c alg kid b b' raw ∧
      (CoseMap.Defined b'.protectedHeader → (raw ≠ [] → WithinDefaults raw) →
        ∃ decoded, decodeProtected c raw = .ok decoded ∧
          SameHeader b'.protectedHeader decoded) := by
  refine ⟨preparedHeaders h, fun hdefined hdata => ?_⟩
  obtain ⟨b₁, -, -, -, hraw⟩ := prepareHeaders_ok.mp h
  exact ⟨_, decodeProtected_encodeProtected hw hr hrecursion
    (hdefined.apart_of_encodeProtected hr hraw) hdata hraw,
    (readAs_asRead _).sameHeader hdefined⟩

/-- An algorithm that moves from the unprotected bucket, next to a key id that stays in
the protected one. -/
def unprepared : Buckets where
  protectedHeader := BTreeMap.ofList [(headerParameterKid, .bytes [1])]
  unprotectedHeader := BTreeMap.ofList [(headerParameterAlg, (Label.int (-7)).toValue)]

theorem prepareHeaders_prepares_unprepared : ∃ b' raw,
    PreparedHeaders Cbor2.reference (some (.int (-7))) (some [2]) unprepared b' raw ∧
      ∃ decoded, decodeProtected Cbor2.reference raw = .ok decoded ∧
        SameHeader b'.protectedHeader decoded := by
  have h : (prepareHeaders Cbor2.reference (some (.int (-7))) (some [2])).run unprepared =
      (.ok [0xa2, 0x01, 0x26, 0x04, 0x41, 0x01],
        ⟨unprepared.protectedHeader.setAlg (.int (-7)), ∅⟩) := rfl
  obtain ⟨hprepared, hdecodes⟩ := prepareHeaders_prepares Cbor2.reference_writesValues
    Cbor2.reference_readsBack (by decide) _ _ _ _ _ h
  refine ⟨_, _, hprepared, hdecodes ?_ fun _ => ?_⟩
  · have hlist : unprepared.protectedHeader.setAlg (.int (-7)) = BTreeMap.ofList
        [(headerParameterKid, .bytes [1]), (headerParameterAlg, (Label.int (-7)).toValue)] := rfl
    rw [hlist]
    refine CoseMap.forall_mem_ofList (P := Value.Defined) ?_
    rw [List.forall_mem_cons, List.forall_mem_singleton]
    exact ⟨rfl, rfl⟩
  · exact withinDefaults_of_root (c := Cbor2.reference) (by decide) rfl

/-- A protected bucket whose only value is undefined. -/
def undefinedValue : Header := BTreeMap.ofList [(.text "a", .undefined)]

/-- Undefined is written, but it is read as null. -/
theorem not_prepareHeaders_decodes : ¬ ∀ (alg : Option Label) (kid : Option Bytes)
    (b b' : Buckets) (raw : Bytes),
    (prepareHeaders Cbor2.reference alg kid).run b = (.ok raw, b') →
      (raw ≠ [] → WithinDefaults raw) →
        ∃ decoded, decodeProtected Cbor2.reference raw = .ok decoded ∧
          SameHeader b'.protectedHeader decoded := by
  intro h
  have hrun : (prepareHeaders Cbor2.reference none none).run ⟨undefinedValue, ∅⟩ =
      (.ok [0xa1, 0x61, 0x61, 0xf7], ⟨undefinedValue, ∅⟩) := rfl
  obtain ⟨decoded, hdecoded, hsame⟩ := h none none _ _ _ hrun fun _ =>
    withinDefaults_of_root (c := Cbor2.reference) (by decide) rfl
  have hnull : decodeProtected Cbor2.reference [0xa1, 0x61, 0x61, 0xf7] =
      .ok (BTreeMap.ofList [(.text "a", .null)]) := rfl
  cases hnull.symm.trans hdecoded
  cases hsame (.text "a")

end Cose2
