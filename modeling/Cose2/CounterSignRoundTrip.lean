import Cose2.CounterSign
import Cose2.LayerRoundTrip

/-! # Countersignatures read back from a header

The header parameter holds one countersignature, an array that starts with a byte
string, or an array of them, which starts with an array; the two forms are told apart by
that element (`counterSignaturesFromValue_pack`).  What `set_counter_signatures` stores is
read back from the header, and from the header's encoding, where its values are as they are
read.
-/
namespace Cose2

open Cbor Cbor2 Iana

variable {c : Cbor2}

namespace CounterSignature

/-- A complete countersignature with a valid layer, whose parts fit in memory and are
admitted by the decoder's limits. -/
structure Admissible (c : Cbor2) (m : CounterSignature) : Prop where
  complete : m.state = .complete
  layer : LayerOk c m.protectedHeader m.unprotectedHeader m.protectedRaw
  protectedSize : ∀ b, encodeProtected c m.protectedHeader = .ok b → b.length < usizeBound
  unprotectedSize : m.unprotectedHeader.toValue.Writable
  protectedLimits : m.protectedRaw ≠ [] → WithinDefaults m.protectedRaw
  unprotectedLimits : WithinDefaults m.unprotectedHeader.toValue.canonical

/-- There is no undefined in the headers, and no map inside a value of the unprotected one has
a key twice. -/
structure Sound (c : Cbor2) (m : CounterSignature) : Prop extends m.Admissible c where
  defined : LayerDefined m.protectedHeader m.unprotectedHeader
  unprotectedDistinct : ∀ e ∈ m.unprotectedHeader.entries, e.2.DuplicateFree

/-- The same protected bytes and signature, and the same headers. -/
structure Same (m m' : CounterSignature) : Prop where
  state : m'.state = m.state
  protectedRaw : m'.protectedRaw = m.protectedRaw
  signature : m'.signature = m.signature
  protectedHeader : SameHeader m.protectedHeader m'.protectedHeader
  unprotectedHeader : SameHeader m.unprotectedHeader m'.unprotectedHeader

/-- The value of a countersignature. -/
def value (m : CounterSignature) : Value :=
  .array [.bytes m.protectedRaw, m.unprotectedHeader.toValue, .bytes m.signature]

theorem toValue_ok {m : CounterSignature} (h : m.Admissible c) : m.toValue c = .ok m.value := by
  have hcomplete : m.state.requireComplete
      "CounterSignature must be signed before encoding" = .ok () := by
    rw [h.complete]
    rfl
  rw [toValue, hcomplete, Except.ok_bind, validateLayer_ok.mpr h.layer]
  rfl

section Reading

variable (hread : c.ReadsItems) (hw : c.WritesValues) (hr : c.ReadsBack) (hc : c.ReadsValues)
  (hrecursion : defaultMaxDepth + 1 < c.recursionLimit) {m : CounterSignature}

theorem Sound.apart (h : m.Sound c) : ∀ e ∈ m.unprotectedHeader.entries, e.2.asRead.DuplicateFree :=
  fun e he => (h.defined.unprotectedHeader e he).duplicateFree_asRead.mpr
    (h.unprotectedDistinct e he)

include hr hrecursion in
/-- The unprotected map is encoded, as it is and in normal form. -/
theorem Sound.canonicalVec (h : m.Sound c) {v : Value}
    (hv : v = m.unprotectedHeader.toValue ∨ v = m.unprotectedHeader.toValue.norm) :
    c.canonicalVec v = .ok m.unprotectedHeader.toValue.canonical := by
  have hdistinct := Value.duplicateFree_of_asRead (CoseMap.apart_toValue h.apart)
  have hdepth := h.unprotectedLimits.of_encode.2.depth
  rw [Cbor2.canonicalVec, Except.mapError_eq_ok]
  rcases hv with rfl | rfl
  · have hle := m.unprotectedHeader.toValue.depth_le_norm
    exact hr.canonical h.unprotectedSize hdistinct
      ((hle.trans (Nat.succ_le_succ hdepth)).trans_lt hrecursion)
  · rw [← Value.canonical_norm]
    exact hr.canonical h.unprotectedSize.norm (Value.duplicateFree_norm.mpr hdistinct)
      (hdepth.trans_lt ((Nat.lt_succ_self _).trans hrecursion))

include hw hr hrecursion in
theorem fromSlice_unprotected (h : m.Sound c) :
    Header.fromSlice c m.unprotectedHeader.toValue.canonical =
      .ok m.unprotectedHeader.asRead := by
  refine Header.fromSlice_toVec hw hr ((Nat.lt_succ_self _).trans hrecursion) h.apart
    h.unprotectedLimits ?_
  rw [Header.toVec, Except.seq_eq_ok]
  refine ⟨h.layer.buckets.unprotectedOk, (CoseMap.toVec_deterministic hw _).1 _ ?_⟩
  exact h.canonicalVec hr hrecursion (.inl rfl)

include hread hw hr hc hrecursion in
/-- A countersignature is read back from its value, and from the value's normal form. -/
theorem fromValue_value (h : m.Sound c) : ∃ m', Same m m' ∧
    fromValue c m.value = .ok m' ∧ fromValue c m.value.norm = .ok m' := by
  have hapart : ∀ e ∈ m.protectedHeader.entries, e.2.asRead.DuplicateFree := by
    obtain ⟨current, hcurrent, -⟩ := h.layer.denotes
    exact h.defined.protectedHeader.apart_of_encodeProtected hr hcurrent
  obtain ⟨p, hp, hreadAs⟩ := decodeProtected_of_denotes hw hr
    ((Nat.lt_succ_self _).trans hrecursion) hread hc h.layer.denotes h.protectedSize
    h.protectedLimits hapart
  have hu := fromSlice_unprotected hw hr hrecursion h
  have hbuckets : validateHeaderBuckets p m.unprotectedHeader.asRead = .ok () :=
    validateHeaderBuckets_ok.mpr (h.layer.buckets.of_same hreadAs.containsKey
      (CoseMap.containsKey_asRead _) (validateCommon_of_decodeProtected hp)
      (Header.validateCommon_asRead h.layer.buckets.unprotectedOk))
  have hvalue {es : List (Value × Value)}
      (hvec : c.canonicalVec (.map es) = .ok m.unprotectedHeader.toValue.canonical) :
      fromValue c (.array [.bytes m.protectedRaw, .map es, .bytes m.signature]) =
        .ok { protectedHeader := p, unprotectedHeader := m.unprotectedHeader.asRead,
              signature := m.signature, protectedRaw := m.protectedRaw, state := .complete } := by
    simp only [fromValue, hp, hvec, hu, hbuckets, Except.ok_bind]
    rfl
  refine ⟨{ protectedHeader := p, unprotectedHeader := m.unprotectedHeader.asRead,
            signature := m.signature, protectedRaw := m.protectedRaw, state := .complete },
    ⟨h.complete.symm, rfl, rfl, hreadAs.sameHeader h.defined.protectedHeader,
      (readAs_asRead _).sameHeader h.defined.unprotectedHeader⟩, hvalue ?_, ?_⟩
  · exact h.canonicalVec hr hrecursion (.inl rfl)
  · rw [value, Value.norm, Value.normItems_eq]
    have hmap : m.unprotectedHeader.toValue.norm = .map _ := CoseMap.norm_toValue_eq _
    rw [List.map_cons, List.map_cons, List.map_singleton, hmap]
    apply hvalue
    rw [← hmap]
    exact h.canonicalVec hr hrecursion (.inr rfl)

end Reading

/-- What is read as a countersignature: its protected bytes, its unprotected map by its
encoding, and its signature. -/
theorem fromValue_ok {v : Value} {m : CounterSignature} : fromValue c v = .ok m ↔
    ∃ raw es signature p u b, v = .array [.bytes raw, .map es, .bytes signature] ∧
      decodeProtected c raw = .ok p ∧ c.canonicalVec (.map es) = .ok b ∧
      Header.fromSlice c b = .ok u ∧ validateHeaderBuckets p u = .ok () ∧
      m = { protectedHeader := p, unprotectedHeader := u, signature, protectedRaw := raw
            state := .complete } := by
  constructor
  · intro h
    unfold fromValue at h
    split at h
    · split at h
      · split at h
        · split at h
          · simp only [Except.bind_eq_ok, Except.pure_eq_ok] at h
            obtain ⟨p, hp, b, hb, u, hu, _, hvalid, rfl⟩ := h
            exact ⟨_, _, _, p, u, b, rfl, hp, hb, hu, hvalid, rfl⟩
          · cases h
        · cases h
      · cases h
    · cases h
    · cases h
  · rintro ⟨raw, es, signature, p, u, b, rfl, hp, hb, hu, hvalid, rfl⟩
    simp only [fromValue, hp, hb, hu, hvalid, Except.ok_bind]
    rfl

/-- What is read as a countersignature starts with a byte string. -/
theorem fromValue_head {v : Value} {m : CounterSignature} (h : fromValue c v = .ok m) :
    ∃ b items, v = .array (.bytes b :: items) := by
  obtain ⟨raw, es, signature, -, -, -, rfl, -⟩ := fromValue_ok.mp h
  exact ⟨raw, _, rfl⟩

/-- What is read of the value of a countersignature is one. -/
theorem fromValue_asRead (hread : c.ReadsItems) (hw : c.WritesValues) (hr : c.ReadsBack)
    (hc : c.ReadsValues) (hd : c.Describes) (hrecursion : defaultMaxDepth < c.recursionLimit)
    {v : Value} {m : CounterSignature} (h : fromValue c v = .ok m) (hwritable : v.norm.Writable)
    (hapart : v.asRead.DuplicateFree) (hdepth : v.norm.toTree.depth < c.recursionLimit) :
    ∃ m', fromValue c v.asRead = .ok m' := by
  obtain ⟨raw, es, signature, p, u, b, rfl, hp, hb, hu, hvalid, rfl⟩ := fromValue_ok.mp h
  obtain ⟨es', hes'⟩ : ∃ es', (Value.map es).asRead = .map es' := ⟨_, rfl⟩
  have hnorm : (Value.array [.bytes raw, .map es, .bytes signature]).norm =
      .array [.bytes raw, (Value.map es).norm, .bytes signature] := by
    rw [Value.norm, Value.normItems_eq]
    rfl
  have hasRead : (Value.array [.bytes raw, .map es, .bytes signature]).asRead =
      .array [.bytes raw, .map es', .bytes signature] := by
    rw [Value.asRead_array, ← hes']
    rfl
  rw [hnorm] at hwritable hdepth
  rw [hasRead] at hapart ⊢
  have hmap : (Value.map es).norm.Writable := (Value.writable_array.mp hwritable).2 _ (by simp)
  have hdistinct : (Value.map es).asRead.DuplicateFree := by
    rw [hes']
    exact hapart.child (by simp [Value.children])
  have hshallow : (Value.map es).asRead.toTree.depth < c.recursionLimit := by
    refine (Tree.nullify_noLarger _).depth.trans_lt (lt_trans ?_ hdepth)
    exact Value.depth_lt_of_mem_children (by simp [Value.children])
  have hb' : c.canonicalVec (.map es') = .ok (Value.map es).asRead.canonical := by
    rw [← hes', Cbor2.canonicalVec, Except.mapError_eq_ok]
    exact hr.canonical hmap.nullify hdistinct hshallow
  obtain ⟨hslice, hcommon⟩ := Header.fromSlice_ok.mp hu
  rw [Cbor2.canonicalVec, Except.mapError_eq_ok] at hb
  rw [hw.canonical hb] at hslice
  have hslice' := CoseMap.fromSlice_settle hread hc hd hr hrecursion hmap rfl
    (Value.defined_asRead _) hdistinct hslice
  have hu' : Header.fromSlice c (Value.map es).asRead.canonical = .ok u.asRead :=
    Header.fromSlice_ok.mpr ⟨hslice', Header.validateCommon_asRead hcommon⟩
  have hbuckets := validateHeaderBuckets_ok.mp hvalid
  have hvalid' : validateHeaderBuckets p u.asRead = .ok () :=
    validateHeaderBuckets_ok.mpr (hbuckets.of_same (fun _ => rfl) (CoseMap.containsKey_asRead u)
      hbuckets.protectedOk (Header.validateCommon_asRead hcommon))
  exact ⟨_, fromValue_ok.mpr ⟨raw, es', signature, p, _, _, rfl, hp, hb', hu', hvalid', rfl⟩⟩

end CounterSignature

/-! ### One or many -/

/-- The value of the parameter for a list of countersignatures. -/
def packCounterSignatures : List Value → Value
  | [v] => v
  | vs => .array vs

theorem norm_pack (vs : List Value) :
    (packCounterSignatures vs).norm = packCounterSignatures (vs.map Value.norm) := by
  rcases vs with _ | ⟨v, _ | ⟨v', vs⟩⟩
  · rfl
  · rfl
  · rw [packCounterSignatures, Value.norm, Value.normItems_eq]
    · rfl
    · rintro _ ⟨⟩

theorem defined_pack {vs : List Value} (h : ∀ v ∈ vs, v.Defined) :
    (packCounterSignatures vs).Defined := by
  rcases vs with _ | ⟨v, _ | ⟨v', vs⟩⟩
  · exact Value.defined_array.mpr h
  · exact h v List.mem_cons_self
  · exact Value.defined_array.mpr h

theorem duplicateFree_pack {vs : List Value} (h : ∀ v ∈ vs, v.DuplicateFree) :
    (packCounterSignatures vs).DuplicateFree := by
  rcases vs with _ | ⟨v, _ | ⟨v', vs⟩⟩
  · exact Value.duplicateFree_array h
  · exact h v List.mem_cons_self
  · exact Value.duplicateFree_array h

/-- The value is a list of items that are read as the countersignatures. -/
def IsList (c : Cbor2) (v : Value) (ms : List CounterSignature) : Prop :=
  ∃ items ≠ [], v = .array items ∧
    List.Forall₂ (fun item m => CounterSignature.fromValue c item = .ok m) items ms

/-- No value is both one countersignature and a list of them. -/
theorem not_isList_of_fromValue {v : Value} {m : CounterSignature}
    (h : CounterSignature.fromValue c v = .ok m) (ms : List CounterSignature) :
    ¬ IsList c v ms := by
  rintro ⟨items, -, hv, hitems⟩
  -- the first element would be a byte string and an array at once
  obtain ⟨b, rest, rfl⟩ := CounterSignature.fromValue_head h
  cases hv
  obtain ⟨m', -, hbytes, -, -⟩ := List.forall₂_cons_left_iff.mp hitems
  cases hbytes

/-- **The parameter is read as one countersignature when it is one, and as a list when it
is a list.** -/
theorem counterSignaturesFromValue_ok {v : Value} {ms : List CounterSignature} :
    counterSignaturesFromValue c v = .ok ms ↔
      (∃ m, CounterSignature.fromValue c v = .ok m ∧ ms = [m]) ∨ IsList c v ms := by
  constructor
  · intro h
    unfold counterSignaturesFromValue at h
    split at h
    · cases h
    · obtain ⟨m, hm, h⟩ := Except.bind_eq_ok.mp h
      exact .inl ⟨m, hm, (Except.pure_eq_ok.mp h).symm⟩
    · rename_i items hne _
      exact .inr ⟨items, hne, rfl, Except.mapM_eq_ok.mp h⟩
    · cases h
  · rintro (⟨m, hm, rfl⟩ | ⟨items, hne, rfl, hitems⟩)
    · obtain ⟨b, rest, rfl⟩ := CounterSignature.fromValue_head hm
      rw [counterSignaturesFromValue, hm]
      rfl
    · cases hitems with
      | nil => exact absurd rfl hne
      | @cons item m items ms hm hrest =>
        obtain ⟨b, rest, rfl⟩ := CounterSignature.fromValue_head hm
        rw [counterSignaturesFromValue, Except.mapM_eq_ok]
        · exact .cons hm hrest
        · rintro ⟨⟩
        · rintro b items ⟨⟩

theorem counterSignaturesFromValue_pack {vs : List Value} {ms : List CounterSignature}
    (hne : vs ≠ [])
    (h : List.Forall₂ (fun v m => CounterSignature.fromValue c v = .ok m) vs ms) :
    counterSignaturesFromValue c (packCounterSignatures vs) = .ok ms := by
  rw [counterSignaturesFromValue_ok]
  cases h with
  | nil => exact absurd rfl hne
  | @cons v m vs ms hm hrest =>
    cases hrest with
    | nil => exact .inl ⟨m, hm, rfl⟩
    | @cons v' m' vs ms hm' hrest => exact .inr ⟨_, hne, rfl, .cons hm (.cons hm' hrest)⟩

/-- What is read of the parameter is read as countersignatures. -/
theorem counterSignaturesFromValue_asRead (hread : c.ReadsItems) (hw : c.WritesValues)
    (hr : c.ReadsBack) (hc : c.ReadsValues) (hd : c.Describes)
    (hrecursion : defaultMaxDepth < c.recursionLimit) {v : Value} {ms : List CounterSignature}
    (h : counterSignaturesFromValue c v = .ok ms) (hwritable : v.norm.Writable)
    (hapart : v.asRead.DuplicateFree) (hdepth : v.norm.toTree.depth < c.recursionLimit) :
    ∃ ms', counterSignaturesFromValue c v.asRead = .ok ms' := by
  rcases counterSignaturesFromValue_ok.mp h with ⟨m, hm, rfl⟩ | ⟨items, hne, rfl, hitems⟩
  · obtain ⟨m', hm'⟩ := CounterSignature.fromValue_asRead hread hw hr hc hd hrecursion hm
      hwritable hapart hdepth
    exact ⟨_, counterSignaturesFromValue_ok.mpr (.inl ⟨m', hm', rfl⟩)⟩
  · rw [Value.norm, Value.normItems_eq] at hwritable hdepth
    have hone (item : Value) (hitem : item ∈ items) :
        ∃ m', CounterSignature.fromValue c item.asRead = .ok m' := by
      obtain ⟨m, -, hm⟩ := Tree.forall₂_mem_right hitems.flip hitem
      have hmem := List.mem_map_of_mem (f := Value.norm) hitem
      refine CounterSignature.fromValue_asRead hread hw hr hc hd hrecursion hm
        ((Value.writable_array.mp hwritable).2 _ hmem) ?_
        ((Value.depth_lt_of_mem_children (v := .array _) hmem).trans hdepth)
      rw [Value.asRead_array] at hapart
      exact hapart.child (List.mem_map_of_mem hitem)
    have : Nonempty CounterSignature := ⟨{}⟩
    choose! read hread' using hone
    rw [Value.asRead_array]
    refine ⟨items.map read, counterSignaturesFromValue_ok.mpr
      (.inr ⟨items.map Value.asRead, by simpa using hne, rfl, ?_⟩)⟩
    rw [List.forall₂_map_left_iff, List.forall₂_map_right_iff, List.forall₂_same]
    exact hread'

/-! ### Headers -/

/-- What is read of a header holds countersignatures when the header does. -/
theorem Header.counterSignatures_asRead (hread : c.ReadsItems) (hw : c.WritesValues)
    (hr : c.ReadsBack) (hc : c.ReadsValues) (hd : c.Describes)
    (hrecursion : defaultMaxDepth < c.recursionLimit) {h : Header}
    {o : Option (List CounterSignature)} (hheader : h.counterSignatures c = .ok o)
    (hwritable : h.toValue.norm.Writable) (hapart : ∀ e ∈ h.entries, e.2.asRead.DuplicateFree)
    (hdepth : h.toValue.norm.toTree.depth < c.recursionLimit) :
    ∃ o', Header.counterSignatures c h.asRead = .ok o' := by
  rw [Header.counterSignatures] at hheader
  rw [Header.counterSignatures, CoseMap.get_asRead]
  cases hget : h.get headerParameterCounterSignature with
  | none => exact ⟨none, rfl⟩
  | some v =>
    rw [hget, Except.map_eq_ok] at hheader
    obtain ⟨ms, hms, rfl⟩ := hheader
    have hmem := BTreeMap.get_eq_some.mp hget
    have hchild : v.norm ∈ h.toValue.norm.children := by
      rw [CoseMap.norm_toValue_eq]
      have hentry := h.entriesByKey_perm.mem_iff.mpr hmem
      exact List.mem_flatMap.mpr ⟨_, List.mem_map_of_mem hentry, by simp⟩
    obtain ⟨ms', hms'⟩ := counterSignaturesFromValue_asRead hread hw hr hc hd hrecursion hms
      (CoseMap.writable_of_get hwritable hget) (hapart _ hmem)
      ((Value.depth_lt_of_mem_children hchild).trans hdepth)
    exact ⟨some ms', Except.map_eq_ok.mpr ⟨ms', hms', rfl⟩⟩

/-- The header holds the countersignatures: none, or the same in the same order. -/
def HoldsCounterSignatures (c : Cbor2) (ms : List CounterSignature) (h : Header) : Prop :=
  (ms = [] → h.counterSignatures c = .ok none) ∧
    (ms ≠ [] → ∃ ms', h.counterSignatures c = .ok (some ms') ∧
      List.Forall₂ CounterSignature.Same ms ms')

theorem duplicateFree_value {m : CounterSignature} (h : m.Sound c) : m.value.DuplicateFree := by
  apply Value.duplicateFree_array
  have hbytes (b : Bytes) : (Value.bytes b).DuplicateFree := (Value.Plain.bytes b).duplicateFree
  rw [List.forall_mem_cons, List.forall_mem_cons, List.forall_mem_singleton]
  exact ⟨hbytes _, Value.duplicateFree_of_asRead (CoseMap.apart_toValue h.apart), hbytes _⟩

theorem defined_value {m : CounterSignature} (h : m.Sound c) : m.value.Defined := by
  rw [CounterSignature.value, Value.defined_array, List.forall_mem_cons, List.forall_mem_cons,
    List.forall_mem_singleton]
  exact ⟨rfl, CoseMap.defined_toValue h.defined.unprotectedHeader, rfl⟩

/-- What is stored for sound countersignatures. -/
theorem setCounterSignatures_ok {h : Header} {ms : List CounterSignature} (hne : ms ≠ [])
    (hsound : ∀ m ∈ ms, m.Sound c) : h.setCounterSignatures c ms = .ok
      (h.insert headerParameterCounterSignature
        (packCounterSignatures (ms.map CounterSignature.value))) := by
  have hvalues : ms.mapM (CounterSignature.toValue c) = .ok (ms.map CounterSignature.value) := by
    rw [Except.mapM_eq_ok, List.forall₂_map_right_iff, List.forall₂_same]
    exact fun m hm => CounterSignature.toValue_ok (hsound m hm).toAdmissible
  rw [Header.setCounterSignatures, if_neg (by rwa [List.isEmpty_iff]), hvalues]
  rfl

section Surviving

variable (hread : c.ReadsItems) (hw : c.WritesValues) (hr : c.ReadsBack) (hc : c.ReadsValues)
  (hrecursion : defaultMaxDepth + 1 < c.recursionLimit)
include hread hw hr hc hrecursion

/-- A header with the value, or with its normal form, holds the countersignatures. -/
theorem holds_of_get {h : Header} {ms : List CounterSignature} (hne : ms ≠ [])
    (hsound : ∀ m ∈ ms, m.Sound c)
    (hget : h.get headerParameterCounterSignature =
        some (packCounterSignatures (ms.map CounterSignature.value)) ∨
      h.get headerParameterCounterSignature =
        some (packCounterSignatures (ms.map CounterSignature.value)).norm) :
    HoldsCounterSignatures c ms h := by
  refine ⟨fun hnil => absurd hnil hne, fun _ => ?_⟩
  have hone (m : CounterSignature) (hm : m ∈ ms) :=
    CounterSignature.fromValue_value hread hw hr hc hrecursion (hsound m hm)
  -- one decoded countersignature for each of the list, from the value and from its normal form
  choose! read hsame hvalue hnorm using hone
  refine ⟨ms.map read, ?_, ?_⟩
  · rcases hget with hget | hget
    · rw [Header.counterSignatures, hget, Except.map_eq_ok]
      refine ⟨_, counterSignaturesFromValue_pack (by simpa using hne) ?_, rfl⟩
      rw [List.forall₂_map_left_iff, List.forall₂_map_right_iff, List.forall₂_same]
      exact hvalue
    · rw [norm_pack, List.map_map] at hget
      rw [Header.counterSignatures, hget, Except.map_eq_ok]
      refine ⟨_, counterSignaturesFromValue_pack (by simpa using hne) ?_, rfl⟩
      rw [List.forall₂_map_left_iff, List.forall₂_map_right_iff, List.forall₂_same]
      exact hnorm
  · rw [List.forall₂_map_right_iff, List.forall₂_same]
    exact hsame

/-- **Countersignatures survive the header that they are stored in, and its encoding; and
whatever a header holds, one countersignature is never taken for a list nor a list for
one.** -/
theorem counterSignatures_survive :
    (∀ (h : Header) (ms : List CounterSignature), (∀ m ∈ ms, m.Sound c) →
        ∃ h', h.setCounterSignatures c ms = .ok h' ∧ HoldsCounterSignatures c ms h' ∧
          (∀ m, ms = [m] → ∃ v, m.toValue c = .ok v ∧
            h'.get headerParameterCounterSignature = some v) ∧
          ∀ data, (∀ e ∈ h.entries, e.2.asRead.DuplicateFree) → h'.toVec c = .ok data →
            WithinDefaults data →
              ∃ d, Header.fromSlice c data = .ok d ∧ HoldsCounterSignatures c ms d) ∧
      ∀ (h : Header) (v : Value), h.get headerParameterCounterSignature = some v →
        (∀ ms, h.counterSignatures c = .ok (some ms) ↔
          (∃ m, CounterSignature.fromValue c v = .ok m ∧ ms = [m]) ∨ IsList c v ms) ∧
        ∀ m ms, CounterSignature.fromValue c v = .ok m → ¬ IsList c v ms := by
  constructor
  · intro h ms hsound
    by_cases hne : ms = []
    · subst hne
      -- an empty list removes the parameter, and nothing puts it back
      have hnone {d : Header} (hd : d.get headerParameterCounterSignature = none) :
          HoldsCounterSignatures c [] d := by
        refine ⟨fun _ => ?_, fun hne => absurd rfl hne⟩
        rw [Header.counterSignatures, hd]
      have hget : (h.remove headerParameterCounterSignature).get
          headerParameterCounterSignature = none := by
        rw [BTreeMap.get_remove, if_pos rfl]
      refine ⟨_, rfl, hnone hget, by rintro m ⟨⟩, ?_⟩
      intro data hapart hvec hdata
      refine ⟨_, Header.fromSlice_toVec hw hr ((Nat.lt_succ_self _).trans hrecursion) ?_ hdata hvec,
        hnone ?_⟩
      · exact fun e he => hapart e (BTreeMap.mem_remove.mp he).1
      · rw [CoseMap.get_asRead, hget]
        rfl
    · have hget := BTreeMap.get_insert h headerParameterCounterSignature
        (packCounterSignatures (ms.map CounterSignature.value)) headerParameterCounterSignature
      rw [if_pos rfl] at hget
      refine ⟨_, setCounterSignatures_ok hne hsound,
        holds_of_get hread hw hr hc hrecursion hne hsound (.inl hget), ?_, ?_⟩
      · rintro m rfl
        exact ⟨_, CounterSignature.toValue_ok (hsound m (List.mem_singleton_self m)).toAdmissible,
          hget⟩
      · intro data hapart hvec hdata
        have hdefined : (packCounterSignatures (ms.map CounterSignature.value)).Defined :=
          defined_pack (List.forall_mem_map.mpr fun m hm => defined_value (hsound m hm))
        refine ⟨_, Header.fromSlice_toVec hw hr ((Nat.lt_succ_self _).trans hrecursion) ?_ hdata
          hvec, holds_of_get hread hw hr hc hrecursion hne hsound (.inr ?_)⟩
        · intro e he
          rcases BTreeMap.mem_insert.mp he with rfl | ⟨he, -⟩
          · refine hdefined.duplicateFree_asRead.mpr (duplicateFree_pack ?_)
            exact List.forall_mem_map.mpr fun m hm => duplicateFree_value (hsound m hm)
          · exact hapart e he
        · rw [CoseMap.get_asRead, hget, Option.map_some, hdefined.asRead]
  · intro h v hget
    refine ⟨?_, fun m ms hm => not_isList_of_fromValue hm ms⟩
    intro ms
    rw [Header.counterSignatures, hget, Except.map_eq_ok, ← counterSignaturesFromValue_ok]
    constructor
    · rintro ⟨_, hms, heq⟩
      cases heq
      exact hms
    · intro hms
      exact ⟨ms, hms, rfl⟩

end Surviving
namespace CounterSignature

/-- A countersignature over `{1: -7}` with the key identifier of its signer. -/
def signed : CounterSignature where
  protectedHeader := BTreeMap.ofList [(headerParameterAlg, (Label.int (-7)).toValue)]
  unprotectedHeader := BTreeMap.ofList [(headerParameterKid, .bytes [1])]
  signature := [2]
  protectedRaw := [0xa1, 0x01, 0x26]
  state := .complete

theorem sound_signed : signed.Sound Cbor2.reference where
  complete := rfl
  layer := validateLayer_ok.mp rfl
  protectedSize := by
    intro b h
    have hb : encodeProtected Cbor2.reference signed.protectedHeader =
      .ok [0xa1, 0x01, 0x26] := rfl
    cases hb.symm.trans h
    decide
  unprotectedSize := (readAll_ok.mp (rfl : readAll 256 signed.unprotectedHeader.toValue.encode =
    .ok signed.unprotectedHeader.toValue.toTree)).1.1.fits
  protectedLimits _ := withinDefaults_of_root (c := Cbor2.reference) (by decide) rfl
  unprotectedLimits := withinDefaults_of_root (c := Cbor2.reference) (by decide) rfl
  defined :=
    { protectedHeader := CoseMap.forall_mem_ofList (P := Value.Defined)
        (List.forall_mem_singleton.mpr rfl)
      unprotectedHeader := CoseMap.forall_mem_ofList (P := Value.Defined)
        (List.forall_mem_singleton.mpr rfl) }
  unprotectedDistinct := CoseMap.forall_mem_ofList (P := Value.DuplicateFree)
    (List.forall_mem_singleton.mpr (Value.Plain.bytes _).duplicateFree)

end CounterSignature

theorem counterSignatures_survive_signed :
    ∃ h', (∅ : Header).setCounterSignatures Cbor2.reference [CounterSignature.signed] = .ok h' ∧
      HoldsCounterSignatures Cbor2.reference [CounterSignature.signed] h' ∧
      (∃ data d, h'.toVec Cbor2.reference = .ok data ∧
        Header.fromSlice Cbor2.reference data = .ok d ∧
          HoldsCounterSignatures Cbor2.reference [CounterSignature.signed] d) ∧
      ∀ ms, ¬ IsList Cbor2.reference CounterSignature.signed.value ms := by
  obtain ⟨hsurvive, hread⟩ := counterSignatures_survive Cbor2.reference_readsItems
    Cbor2.reference_writesValues Cbor2.reference_readsBack Cbor2.reference_readsValues (by decide)
  obtain ⟨h', hset, hholds, hone, hencoded⟩ := hsurvive ∅ [CounterSignature.signed]
    (by simpa using CounterSignature.sound_signed)
  have hvalue : CounterSignature.signed.toValue Cbor2.reference =
    .ok CounterSignature.signed.value := rfl
  obtain ⟨v, hv, hget⟩ := hone _ rfl
  cases hvalue.symm.trans hv
  have hstored : (∅ : Header).setCounterSignatures Cbor2.reference [CounterSignature.signed] =
      .ok (BTreeMap.ofList [(headerParameterCounterSignature,
        CounterSignature.signed.value)]) := rfl
  cases hstored.symm.trans hset
  have hvec : Header.toVec (BTreeMap.ofList [(headerParameterCounterSignature,
      CounterSignature.signed.value)]) Cbor2.reference = .ok [0xa1, 0x07, 0x83, 0x43, 0xa1, 0x01,
        0x26, 0xa1, 0x04, 0x41, 0x01, 0x41, 0x02] := rfl
  obtain ⟨d, hd, hkept⟩ := hencoded _ (by rintro e ⟨⟩) hvec
    (withinDefaults_of_root (c := Cbor2.reference) (by decide) rfl)
  refine ⟨_, hset, hholds, ⟨_, d, hvec, hd, hkept⟩, ?_⟩
  obtain ⟨m, hm⟩ : ∃ m, CounterSignature.fromValue Cbor2.reference
      CounterSignature.signed.value = .ok m := ⟨_, rfl⟩
  exact fun ms => (hread _ _ hget).2 m ms hm

/-- A countersignature with one value in its unprotected header. -/
def CounterSignature.noted (v : Value) : CounterSignature where
  unprotectedHeader := BTreeMap.ofList [(.text "a", v)]
  state := .complete

theorem admissible_noted {v : Value} (hsize : v.Writable)
    (hlimits : WithinDefaults (CounterSignature.noted v).unprotectedHeader.toValue.canonical) :
    (CounterSignature.noted v).Admissible Cbor2.reference where
  complete := rfl
  layer := validateLayer_ok.mp rfl
  protectedSize b h := by
    cases (encodeProtected_nil.mpr rfl).symm.trans h
    decide
  unprotectedSize := by
    have htext : (Value.text "a").Writable := Value.writable_text.mpr (by decide)
    refine Value.writable_map.mpr ⟨?_, List.forall_mem_singleton.mpr ⟨htext, hsize⟩⟩
    show 1 < 18446744073709551616
    decide
  protectedLimits hne := absurd rfl hne
  unprotectedLimits := hlimits

/-- The map `{1: 1, 1: 1}`. -/
def repeated : Value := .map [((Label.int 1).toValue, (Label.int 1).toValue),
  ((Label.int 1).toValue, (Label.int 1).toValue)]

/-- A duplicate key in a value is stored, but not read back, and undefined is read back as
null. -/
theorem not_counterSignatures_survive :
    (¬ ∀ (h h' : Header) (ms : List CounterSignature),
      (∀ m ∈ ms, m.Admissible Cbor2.reference ∧
        LayerDefined m.protectedHeader m.unprotectedHeader) →
      h.setCounterSignatures Cbor2.reference ms = .ok h' →
        HoldsCounterSignatures Cbor2.reference ms h') ∧
    ¬ ∀ (h h' : Header) (ms : List CounterSignature),
      (∀ m ∈ ms, m.Admissible Cbor2.reference ∧
        ∀ e ∈ m.unprotectedHeader.entries, e.2.DuplicateFree) →
      h.setCounterSignatures Cbor2.reference ms = .ok h' →
        HoldsCounterSignatures Cbor2.reference ms h' := by
  constructor
  · intro h
    have hset : (∅ : Header).setCounterSignatures Cbor2.reference [.noted repeated] =
      .ok (BTreeMap.ofList [(headerParameterCounterSignature,
        (CounterSignature.noted repeated).value)]) := rfl
    have hadmissible : (CounterSignature.noted repeated).Admissible Cbor2.reference := by
      refine admissible_noted ?_ (withinDefaults_of_root (c := Cbor2.reference) (by decide) rfl)
      have hread : readAll 256 repeated.encode = .ok repeated.toTree := rfl
      exact (readAll_ok.mp hread).1.1.fits
    have hdefined : LayerDefined (CounterSignature.noted repeated).protectedHeader
        (CounterSignature.noted repeated).unprotectedHeader :=
      { protectedHeader := by rintro e ⟨⟩
        unprotectedHeader := CoseMap.forall_mem_ofList (P := Value.Defined)
          (List.forall_mem_singleton.mpr rfl) }
    have hholds := h ∅ _ _ (List.forall_mem_singleton.mpr ⟨hadmissible, hdefined⟩) hset
    obtain ⟨ms', hread, -⟩ := hholds.2 (List.cons_ne_nil _ _)
    have hrefused : (Header.counterSignatures Cbor2.reference (BTreeMap.ofList
      [(headerParameterCounterSignature, (CounterSignature.noted repeated).value)])).isOk =
        false := rfl
    rw [hread] at hrefused
    cases hrefused
  · intro h
    have hset : (∅ : Header).setCounterSignatures Cbor2.reference [.noted .undefined] =
        .ok (BTreeMap.ofList [(headerParameterCounterSignature,
          (CounterSignature.noted .undefined).value)]) := rfl
    have hadmissible : (CounterSignature.noted .undefined).Admissible Cbor2.reference :=
      admissible_noted (Value.writable_simple _)
        (withinDefaults_of_root (c := Cbor2.reference) (by decide) rfl)
    have hdistinct : ∀ e ∈ (CounterSignature.noted .undefined).unprotectedHeader.entries,
        e.2.DuplicateFree :=
      CoseMap.forall_mem_ofList (P := Value.DuplicateFree) (List.forall_mem_singleton.mpr
        (Value.duplicateFree_of_children rfl (by rintro _ ⟨⟩)))
    have hholds := h ∅ _ _ (List.forall_mem_singleton.mpr ⟨hadmissible, hdistinct⟩) hset
    obtain ⟨ms', hread, hsame⟩ := hholds.2 (List.cons_ne_nil _ _)
    have hnull : Header.counterSignatures Cbor2.reference (BTreeMap.ofList
        [(headerParameterCounterSignature, (CounterSignature.noted .undefined).value)]) =
      .ok (some [.noted .null]) := rfl
    cases hnull.symm.trans hread
    cases (List.forall₂_cons.mp hsame).1.unprotectedHeader (.text "a")

end Cose2
