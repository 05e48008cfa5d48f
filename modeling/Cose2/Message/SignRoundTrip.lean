import Cose2.Message.RoundTrip
import Cose2.Message.SignSlots

/-! # Decoding undoes encoding, for every type

A `COSE_Sign` message has a list of slots behind its payload, each with a layer of its own.
With it, all six types of messages are read back as they were written.
-/
namespace Cose2

open Cbor Cbor2 Recipient Iana Forest

/-! ### Slots -/

namespace Signature

/-- The value that a slot is written as. -/
def value (s : Signature) : Value :=
  .array [.bytes s.protectedRaw, s.unprotectedHeader.toValue, .bytes s.signature]

/-- The layer of the slot has passed its checks. -/
def LayerChecked (c : Cbor2) (s : Signature) : Prop :=
  LayerOk c s.protectedHeader s.unprotectedHeader s.protectedRaw

/-- The layer of the slot is sound. -/
def Sound (c : Cbor2) (s : Signature) : Prop :=
  SoundLayer c s.protectedHeader s.unprotectedHeader s.protectedRaw

/-- There is no undefined in the headers of the slot. -/
def Defined (s : Signature) : Prop := LayerDefined s.protectedHeader s.unprotectedHeader

/-- The slot `s'` was decoded from `s`, with headers that are compared by `header`. -/
structure Same (header : Header → Header → Prop) (s s' : Signature) : Prop where
  protectedRaw : s'.protectedRaw = s.protectedRaw
  signature : s'.signature = s.signature
  protectedHeader : header s.protectedHeader s'.protectedHeader
  unprotectedHeader : header s.unprotectedHeader s'.unprotectedHeader

/-- The slot `s'` was decoded from `s`, and can be written again. -/
structure ReadFrom (c : Cbor2) (s s' : Signature) : Prop where
  same : s.Same HeaderRead s'
  layer : LayerRead c s.protectedHeader s.unprotectedHeader s'.protectedHeader
    s'.unprotectedHeader s.protectedRaw
  checked : s'.LayerChecked c
  written : Rewritten s.value s'.value

variable {c : Cbor2} {s : Signature}

theorem serialize_ok (h : s.LayerChecked c) : s.serialize = .ok s.value := by
  rw [serialize, Header.serialize, h.buckets.unprotectedOk]
  rfl

theorem norm_value (s : Signature) : s.value.norm =
    .array [.bytes s.protectedRaw, s.unprotectedHeader.toValue.norm, .bytes s.signature] := by
  rw [value, Value.norm, Value.normItems_eq]
  rfl

theorem apart_value (h : s.Sound c) : s.value.asRead.DuplicateFree := by
  have hbytes (b : Bytes) : (Value.bytes b).DuplicateFree := (Value.Plain.bytes b).duplicateFree
  apply Value.duplicateFree_asRead_array
  rw [List.forall_mem_cons, List.forall_mem_cons, List.forall_mem_singleton]
  exact ⟨hbytes _, CoseMap.apart_toValue h.unprotectedApart, hbytes _⟩

theorem defined_value (h : s.Defined) : s.value.Defined := by
  rw [value, Value.defined_array, List.forall_mem_cons, List.forall_mem_cons,
    List.forall_mem_singleton]
  exact ⟨rfl, CoseMap.defined_toValue h.unprotectedHeader, rfl⟩

/-- What is written as a slot has the shape of one. -/
theorem isSignature_value (s : Signature) : Strict.IsSignature s.value.norm.toTree := by
  rw [norm_value, Value.toTree, Value.toTreeItems_eq]
  refine ⟨_, _, _, _, rfl, trivial, ?_, trivial⟩
  rw [CoseMap.norm_toValue_eq]
  exact trivial

section Reading

variable (hread : c.ReadsItems) (hw : c.WritesValues) (hr : c.ReadsBack) (hc : c.ReadsValues)
  (hb : c.ReadsByteStrings) (hrecursion : defaultMaxDepth < c.recursionLimit)
include hread hw hr hc hb hrecursion

/-- **A slot that was written is read back**, with its headers as they are read. -/
theorem readBack (hchecked : s.LayerChecked c) (hsound : s.Sound c)
    (hadmitted : Admitted s.value.norm) : ∃ w s', readWire c s.value.norm.toTree = .ok w ∧
      w.decoded c = .ok s' ∧ ReadFrom c s s' := by
  have hwritable := hadmitted.regular.writable
  rw [norm_value] at hadmitted
  have hmap : Admitted s.unprotectedHeader.toValue.norm :=
    hadmitted.child (List.mem_cons_of_mem _ List.mem_cons_self)
  have hraw : (Value.bytes s.protectedRaw).Writable :=
    (hadmitted.child List.mem_cons_self).regular.writable
  have hsignature : (Value.bytes s.signature).Writable :=
    (hadmitted.child (by simp [Value.children])).regular.writable
  obtain ⟨p', hlayer⟩ := layer_readBack hread hw hr hc hrecursion hchecked hsound hmap
  have hu := deserializeChecked_value hr hrecursion hmap hchecked.buckets.unprotectedOk
  refine ⟨{ signature := s.signature, unprotectedHeader := s.unprotectedHeader.asRead
            protectedRaw := s.protectedRaw },
    { protectedHeader := p', unprotectedHeader := s.unprotectedHeader.asRead
      signature := s.signature, protectedRaw := s.protectedRaw, state := .complete },
    ?_, ?_, ?_, hlayer, hlayer.layer, ?_⟩
  · rw [norm_value, Value.toTree, Value.toTreeItems_eq]
    simp only [List.map_cons, List.map_nil, readWire, hb.bytes hraw, hu, hb.bytes hsignature,
      Except.ok_bind]
    rfl
  · rw [Signature.decoded, hlayer.decoded, Except.ok_bind,
      validateHeaderBuckets_ok.mpr hlayer.layer.buckets]
    rfl
  · exact ⟨rfl, rfl, hlayer.protectedRead, hlayer.unprotectedRead⟩
  · exact Rewritten.array (.cons (.plain (.bytes _) hraw) (.cons
      (rewritten_toValue hmap.regular.writable) (.cons (.plain (.bytes _) hsignature) .nil)))
      hwritable

/-- The slots of a message that was written are read back one by one. -/
theorem readBack_all {ss : List Signature} (hchecked : ∀ s ∈ ss, s.LayerChecked c)
    (hsound : ∀ s ∈ ss, s.Sound c) (hadmitted : ∀ s ∈ ss, Admitted s.value.norm) :
    ∃ ws ss', (ss.map fun s => s.value.norm.toTree).mapM (readWire c) = .ok ws ∧
      ws.mapM (decoded c) = .ok ss' ∧ List.Forall₂ (ReadFrom c) ss ss' := by
  induction ss with
  | nil => exact ⟨[], [], rfl, rfl, .nil⟩
  | cons s ss ih =>
    rw [List.forall_mem_cons] at hchecked hsound hadmitted
    obtain ⟨w, s', hwire, hdecoded, hfrom⟩ :=
      readBack hread hw hr hc hb hrecursion hchecked.1 hsound.1 hadmitted.1
    obtain ⟨ws, ss', hws, hss', hall⟩ := ih hchecked.2 hsound.2 hadmitted.2
    refine ⟨w :: ws, s' :: ss', ?_, ?_, .cons hfrom hall⟩
    · rw [Except.mapM_eq_ok] at hws ⊢
      exact .cons hwire hws
    · rw [Except.mapM_eq_ok] at hss' ⊢
      exact .cons hdecoded hss'

end Reading
end Signature

/-! ### Messages with several signatures -/

namespace SignMessage

/-- The message `m'` was decoded from `m`, with headers that are compared by `header`. -/
structure Same (header : Header → Header → Prop) (m m' : SignMessage) : Prop where
  state : m'.state = .complete
  protectedRaw : m'.protectedRaw = m.protectedRaw
  payload : m'.payload = m.payload
  protectedHeader : header m.protectedHeader m'.protectedHeader
  unprotectedHeader : header m.unprotectedHeader m'.unprotectedHeader
  signatures : List.Forall₂ (Signature.Same header) m.signatures m'.signatures

/-- The encoders. -/
def encoders (c : Cbor2) : List (SignMessage → Except Error Bytes) :=
  [toVec c, toCwtVec c, toUntaggedVec c]

theorem encode_of_mem {c : Cbor2} {write : SignMessage → Except Error Bytes}
    (hmem : write ∈ encoders c) :
    ∃ tags ∈ writtenTags 98, ∀ m, write m = encode c m (tagBytes tags) := by
  rw [encoders, List.mem_cons, List.mem_cons, List.mem_singleton] at hmem
  rcases hmem with rfl | rfl | rfl
  · exact ⟨[98], by simp [writtenTags], fun m => rfl⟩
  · exact ⟨[61, 98], by simp [writtenTags], fun m => rfl⟩
  · exact ⟨[], by simp [writtenTags], fun m => rfl⟩

/-- The same for the encoders, and for sound slots without undefined. -/
def DecodeUndoes (c : Cbor2) : Prop :=
  ∀ write ∈ encoders c, ∀ m b, write m = .ok b →
    SoundLayer c m.protectedHeader m.unprotectedHeader m.protectedRaw →
      LayerDefined m.protectedHeader m.unprotectedHeader →
      (∀ s ∈ m.signatures, s.Sound c) → (∀ s ∈ m.signatures, s.Defined) → WithinDefaults b →
        ∃ m', fromSlice c b = .ok m' ∧ m.Same SameHeader m' ∧ write m' = .ok b

/-- The array of the slots as it is written. -/
def slotsValue (ss : List Signature) : Value := .array (ss.map fun s => s.value.norm)

theorem norm_array_value (ss : List Signature) :
    (Value.array (ss.map Signature.value)).norm = slotsValue ss := by
  rw [Value.norm, Value.normItems_eq, List.map_map]
  rfl

theorem norm_slotsValue (ss : List Signature) : (slotsValue ss).norm = slotsValue ss := by
  rw [← norm_array_value, Value.norm_norm]

theorem toTree_slotsValue (ss : List Signature) : (slotsValue ss).toTree =
    .array (some (preferred ss.length)) (ss.map fun s => s.value.norm.toTree) := by
  rw [slotsValue, Value.toTree, Value.toTreeItems_eq, List.map_map, List.length_map]
  rfl

theorem apart_slotsValue {c : Cbor2} {ss : List Signature} (h : ∀ s ∈ ss, s.Sound c) :
    (slotsValue ss).asRead.DuplicateFree := by
  rw [← norm_array_value, Value.asRead, Value.norm_norm]
  refine Value.duplicateFree_asRead_array ?_
  rw [List.forall_mem_map]
  exact fun s hs => Signature.apart_value (h s hs)

theorem areSignatures_slotsValue {ss : List Signature} (hne : ss ≠ []) :
    Strict.AreSignatures (slotsValue ss).toTree := by
  rw [toTree_slotsValue]
  refine ⟨_, _, rfl, ?_, ?_⟩
  · rwa [ne_eq, List.map_eq_nil_iff]
  · rw [List.forall_mem_map]
    exact fun s _ => Signature.isSignature_value s

section Laws

variable {c : Cbor2} (hread : c.ReadsItems) (hw : c.WritesValues) (hr : c.ReadsBack)
  (hc : c.ReadsValues) (ht : c.WritesTuples) (hb : c.ReadsByteStrings)
  (hrecursion : defaultMaxDepth < c.recursionLimit)

/-- The slots as they are written. -/
theorem mapM_serialize {ss : List Signature} (h : ∀ s ∈ ss, s.LayerChecked c) :
    ss.mapM Signature.serialize = .ok (ss.map Signature.value) := by
  rw [Except.mapM_eq_ok, List.forall₂_map_right_iff, List.forall₂_same]
  exact fun s hs => Signature.serialize_ok (h s hs)

include hread hw hr hc ht hb hrecursion

/-- **What is encoded is decoded as the same message, with its headers as they are read.**
Without undefined it is encoded as the same bytes. -/
theorem decode_encode {tags : List UInt64} (htags : tags ∈ writtenTags 98) {m : SignMessage}
    {b : Bytes} (h : m.encode c (tagBytes tags) = .ok b)
    (hsound : SoundLayer c m.protectedHeader m.unprotectedHeader m.protectedRaw)
    (hslots : ∀ s ∈ m.signatures, s.Sound c) (hdata : WithinDefaults b) :
    ∃ m', fromSlice c b = .ok m' ∧ m.Same HeaderRead m' ∧
      (LayerDefined m.protectedHeader m.unprotectedHeader → (∀ s ∈ m.signatures, s.Defined) →
        m'.encode c (tagBytes tags) = .ok b) ∧
      LayerRead c m.protectedHeader m.unprotectedHeader m'.protectedHeader m'.unprotectedHeader
        m.protectedRaw ∧
      List.Forall₂ (Signature.ReadFrom c) m.signatures m'.signatures := by
  obtain ⟨-, hne, hlayer, hchecked, unprotected, hu, slots, hslotsRaw, hencoded⟩ :=
    encode_ok.mp h
  obtain ⟨vs, hvs, rfl⟩ := canonicalRaw_array hw ht hslotsRaw
  cases (mapM_serialize hchecked).symm.trans hvs
  rw [norm_array_value] at hencoded hslotsRaw
  have hplain := plain_serializedCiphertext m.payload
  have hnorms : ∀ v ∈ [serializedCiphertext m.payload, slotsValue m.signatures], v.norm = v :=
    List.forall_mem_cons.mpr
      ⟨hplain.norm, List.forall_mem_singleton.mpr (norm_slotsValue m.signatures)⟩
  have haparts : ∀ v ∈ [serializedCiphertext m.payload, slotsValue m.signatures],
      v.asRead.DuplicateFree :=
    List.forall_mem_cons.mpr ⟨hplain.asRead.symm ▸ hplain.duplicateFree,
      List.forall_mem_singleton.mpr (apart_slotsValue hslots)⟩
  have hspelled : List.Forall₂ Part.Spells
      [payloadPart m.payload, .raw (slotsValue m.signatures).encode]
      [serializedCiphertext m.payload, slotsValue m.signatures] :=
    .cons (payloadPart_spells m.payload) (.cons rfl .nil)
  obtain rfl := encodePrefixed_body hw ht hu hspelled hencoded
  obtain ⟨p', hbody⟩ := body_readBack hread hw hr hc hb hrecursion
    (by unfold Strict.IsMessageTag; decide) htags hlayer hsound hnorms haparts
    ⟨isBytesOrNull_serializedCiphertext _, areSignatures_slotsValue hne⟩ hdata
  have hinside := List.forall_mem_cons.mp hbody.content
  have hpayload := optionByteBuf_payload hb hinside.1.regular.writable
  have harray := List.forall_mem_singleton.mp hinside.2
  have hadmitted : ∀ s ∈ m.signatures, Admitted s.value.norm :=
    fun s hs => harray.child (List.mem_map_of_mem hs)
  obtain ⟨ws, ss', hws, hss', hall⟩ :=
    Signature.readBack_all hread hw hr hc hb hrecursion hchecked hslots hadmitted
  have hsame : List.Forall₂ (Signature.Same HeaderRead) m.signatures ss' :=
    hall.imp fun _ _ h => h.same
  have hne' : ss' ≠ [] := by
    rintro rfl
    exact hne (List.forall₂_nil_right_iff.mp hsame)
  have hwire : readWire c (bodyValue m.protectedRaw m.unprotectedHeader
      [serializedCiphertext m.payload, slotsValue m.signatures]).toTree = .ok
        { signatures := ws, unprotectedHeader := m.unprotectedHeader.asRead
          payload := m.payload, protectedRaw := m.protectedRaw } := by
    rw [bodyValue, Value.toTree, Value.toTreeItems_eq]
    simp only [List.map_cons, List.map_nil, toTree_slotsValue, readWire, hbody.protectedRaw,
      hbody.unprotected, hpayload, hws, Except.ok_bind]
    rfl
  have hwne : ws.isEmpty = false := by
    cases ws with
    | nil =>
      cases hss'
      exact absurd rfl hne'
    | cons w ws => rfl
  have hslice : fromSlice c (withTags tags (bodyValue m.protectedRaw m.unprotectedHeader
      [serializedCiphertext m.payload, slotsValue m.signatures])).encode = .ok
        { protectedHeader := p', unprotectedHeader := m.unprotectedHeader.asRead
          payload := m.payload, signatures := ss', protectedRaw := m.protectedRaw
          state := .complete } := by
    rw [fromSlice, show (98 : Nat) = UInt64.toNat 98 from rfl, hbody.body, Except.ok_bind,
      hbody.item, Except.ok_bind, hwire]
    simp only [Except.mapError, Except.ok_bind, hwne, hbody.layer.decoded,
      validateHeaderBuckets_ok.mpr hbody.layer.layer.buckets, hss']
    rfl
  refine ⟨_, hslice, ⟨rfl, rfl, rfl, hbody.layer.protectedRead, hbody.layer.unprotectedRead, hsame⟩,
    fun hdefined hslotsDefined => ?_, hbody.layer, hall⟩
  have hu' := headerRaw_same hw hu
    (hbody.layer.unprotectedRead.sameValues hdefined.unprotectedHeader)
    hbody.layer.layer.buckets.unprotectedOk hbody.layer.unprotectedEncodable
  have hchecked' : ∀ s ∈ ss', s.LayerChecked c := by
    intro s' hs'
    obtain ⟨s, -, h⟩ := Tree.forall₂_mem_right hall hs'
    exact h.checked
  have hwritten : List.Forall₂ Rewritten (m.signatures.map Signature.value)
      (ss'.map Signature.value) := by
    rw [List.forall₂_map_left_iff, List.forall₂_map_right_iff]
    exact hall.imp fun _ _ h => h.written
  have hadmitted' : Admitted (Value.array (m.signatures.map Signature.value)).norm := by
    rwa [norm_array_value]
  have hslots' := canonicalRaw_same hw hr.toEncodesCanonically hrecursion hslotsRaw hvs
    (mapM_serialize hchecked') hwritten hadmitted'
    (List.forall_mem_map.mpr fun s hs => Signature.defined_value (hslotsDefined s hs))
  exact encode_ok.mpr ⟨rfl, hne', hbody.layer.layer, hchecked', unprotected, hu', _, hslots',
    hencoded⟩

/-- Decoding undoes what the encoders return. -/
theorem decodeUndoes : DecodeUndoes c := by
  intro write hmem m b h hsound hdefined hslots hslotsDefined hdata
  obtain ⟨tags, htags, hwrite⟩ := encode_of_mem hmem
  rw [hwrite] at h
  obtain ⟨m', hslice, hsame, hagain, -⟩ :=
    decode_encode hread hw hr hc ht hb hrecursion htags h hsound hslots hdata
  refine ⟨m', hslice, ?_, (hwrite m').trans (hagain hdefined hslotsDefined)⟩
  exact {
    state := hsame.state
    protectedRaw := hsame.protectedRaw
    payload := hsame.payload
    protectedHeader := hsame.protectedHeader.sameHeader hdefined.protectedHeader
    unprotectedHeader := hsame.unprotectedHeader.sameHeader hdefined.unprotectedHeader
    signatures := by
      refine ((List.forall₂_and_left (p := Signature.Defined) _ _).mpr
        ⟨hslotsDefined, hsame.signatures⟩).imp ?_
      rintro s s' ⟨hone, hslot⟩
      exact { hslot with
        protectedHeader := hslot.protectedHeader.sameHeader hone.protectedHeader
        unprotectedHeader := hslot.unprotectedHeader.sameHeader hone.unprotectedHeader } }

end Laws
end SignMessage

/-! ### All types -/

theorem onWire_sign1 : sign1.OnWire 18 (· = []) where
  tag := rfl
  isTag := by unfold Strict.IsMessageTag; decide
  tagPrefix := rfl
  cwtPrefix := rfl
  content := by
    rintro _ _ _ hpayload hresult rfl
    exact ⟨hpayload, hresult⟩

theorem onWire_mac0 : mac0.OnWire 17 (· = []) where
  tag := rfl
  isTag := by unfold Strict.IsMessageTag; decide
  tagPrefix := rfl
  cwtPrefix := rfl
  content := by
    rintro _ _ _ hpayload hresult rfl
    exact ⟨hpayload, hresult⟩

theorem onWire_mac (c : Cbor2) : (mac c).OnWire 97 AreRecipientsTail where
  tag := rfl
  isTag := by unfold Strict.IsMessageTag; decide
  tagPrefix := rfl
  cwtPrefix := rfl
  content := by
    rintro _ _ _ hpayload hresult ⟨recipients, rfl, hrecipients⟩
    exact ⟨hpayload, hresult, hrecipients⟩

theorem onWire_encrypt0 : encrypt0.OnWire 16 (· = []) where
  tag := rfl
  isTag := by unfold Strict.IsMessageTag; decide
  tagPrefix := rfl
  cwtPrefix := rfl
  content := by
    rintro _ _ hciphertext rfl
    exact hciphertext

theorem onWire_encrypt (c : Cbor2) : (encrypt c).OnWire 96 AreRecipientsTail where
  tag := rfl
  isTag := by unfold Strict.IsMessageTag; decide
  tagPrefix := rfl
  cwtPrefix := rfl
  content := by
    rintro _ _ hciphertext ⟨recipients, rfl, hrecipients⟩
    exact ⟨hciphertext, hrecipients⟩

section Types

variable {c : Cbor2} (hread : c.ReadsItems) (hw : c.WritesValues) (hr : c.ReadsBack)
  (hc : c.ReadsValues) (hd : c.Describes) (hcap : c.CapturesRaw) (ht : c.WritesTuples)
  (hb : c.ReadsByteStrings) (hrecursion : defaultMaxDepth < c.recursionLimit)
include hread hw hr hc hd hcap ht hb hrecursion

/-- **Decoding undoes encoding, for all six types.** -/
theorem decodeUndoesEncode :
    sign1.DecodeUndoes c (fun _ => True) (fun _ => True) (fun _ _ => True) ∧
      mac0.DecodeUndoes c (fun _ => True) (fun _ => True) (fun _ _ => True) ∧
      (mac c).DecodeUndoes c (AllSound c) AllDefined (List.Forall₂ (SameTree c SameHeader)) ∧
      encrypt0.DecodeUndoes c (fun _ => True) (fun _ => True) (fun _ _ => True) ∧
      (encrypt c).DecodeUndoes c (AllSound c) AllDefined
        (List.Forall₂ (SameTree c SameHeader)) ∧
      SignMessage.DecodeUndoes c := by
  have htail (name : String) := recipientTail hread hw hr hc hd hcap ht hrecursion name
  refine ⟨?_, ?_, ?_, ?_, ?_, ?_⟩
  · exact AuthType.decodeUndoes hread hw hr hc ht hb hrecursion onWire_sign1 noTail
      fun _ _ _ h => h
  · exact AuthType.decodeUndoes hread hw hr hc ht hb hrecursion onWire_mac0 noTail
      fun _ _ _ h => h
  · exact AuthType.decodeUndoes hread hw hr hc ht hb hrecursion (onWire_mac c) (htail _)
      fun _ _ => sameTrees_of_defined
  · exact EncType.decodeUndoes hread hw hr hc ht hb hrecursion onWire_encrypt0 noTail
      fun _ _ _ h => h
  · exact EncType.decodeUndoes hread hw hr hc ht hb hrecursion (onWire_encrypt c) (htail _)
      fun _ _ => sameTrees_of_defined
  · exact SignMessage.decodeUndoes hread hw hr hc ht hb hrecursion

end Types

/-- A message whose recipient derives the key with the integer 5 as nonce.  Its protected
bytes were captured when it was decoded. -/
def derivedKey (captured : Bytes) : AuthMessage (List Recipient) where
  payload := some [0]
  recipients := [.mk
    (BTreeMap.ofList [(headerAlgorithmParameterPartyUNonce, (Label.int 5).toValue)])
    (BTreeMap.ofList [(headerParameterAlg, algorithmDirect_HKDF_SHA_256.toValue)]) (some []) []
    (some captured)]
  result := [1]
  state := .complete

theorem soundLayer_empty : SoundLayer Cbor2.reference ∅ ∅ [] where
  protectedSize b h := by
    cases (encodeProtected_nil.mpr rfl).symm.trans h
    decide
  protectedLimits h := absurd rfl h
  protectedApart := by rintro e ⟨⟩
  unprotectedApart := by rintro e ⟨⟩

theorem layerDefined_empty : LayerDefined ∅ ∅ where
  protectedHeader := by rintro e ⟨⟩
  unprotectedHeader := by rintro e ⟨⟩

theorem apart_singleton {label : Label} {v : Value} (h : v.asRead.DuplicateFree) :
    ∀ e ∈ (BTreeMap.ofList [(label, v)]).entries, e.2.asRead.DuplicateFree :=
  CoseMap.forall_mem_ofList (P := fun v => v.asRead.DuplicateFree)
    (List.forall_mem_singleton.mpr h)

/-- The captured bytes that can be read are sound. -/
theorem allSound_derivedKey {captured : Bytes} (hdata : WithinDefaults captured) :
    AllSound Cbor2.reference (derivedKey captured).recipients := by
  rw [allSound_iff, derivedKey, List.forall_mem_singleton]
  refine ⟨fun raw hraw => ?_, allSound_iff.mpr (by rintro r ⟨⟩)⟩
  obtain ⟨-, rfl⟩ : _ ∧ captured = raw :=
    Except.seq_eq_ok.mp hraw |>.imp_right Except.pure_eq_ok.mp
  have hencoded : encodeProtected Cbor2.reference (BTreeMap.ofList
    [(headerAlgorithmParameterPartyUNonce, (Label.int 5).toValue)]) = .ok [0xa1, 0x35, 0x05] := rfl
  have hplain (l : Label) : l.toValue.asRead.DuplicateFree := by
    rw [l.plain_toValue.asRead]
    exact l.plain_toValue.duplicateFree
  exact {
    protectedSize := fun b h => by
      cases hencoded.symm.trans h
      decide
    protectedLimits := fun _ => hdata
    protectedApart := apart_singleton (hplain _)
    unprotectedApart := apart_singleton (hplain _) }

theorem allDefined_derivedKey (captured : Bytes) :
    AllDefined (derivedKey captured).recipients := by
  rw [allDefined_iff, derivedKey, List.forall_mem_singleton]
  exact ⟨⟨CoseMap.forall_mem_ofList (List.forall_mem_singleton.mpr rfl),
    CoseMap.forall_mem_ofList (List.forall_mem_singleton.mpr rfl)⟩,
    allDefined_iff.mpr (by rintro r ⟨⟩)⟩

/-- The message whose captured bytes spell the nonce as a bignum, encoded. -/
def bignumNonce : Bytes :=
  [0xd8, 0x61, 0x85, 0x40, 0xa0, 0x41, 0x00, 0x41, 0x01, 0x81, 0x83, 0x45, 0xa1, 0x35, 0xc2, 0x41,
    0x05, 0xa1, 0x01, 0x29, 0x40]

theorem decodeUndoesEncode_bignumNonce : ∃ m',
    (mac Cbor2.reference).fromSlice Cbor2.reference bignumNonce = .ok m' ∧
    (derivedKey [0xa1, 0x35, 0xc2, 0x41, 0x05]).Same SameHeader
      (List.Forall₂ (SameTree Cbor2.reference SameHeader)) m' ∧
    (mac Cbor2.reference).toVec Cbor2.reference m' = .ok bignumNonce := by
  obtain ⟨-, -, hmac, -⟩ := decodeUndoesEncode Cbor2.reference_readsItems
    Cbor2.reference_writesValues Cbor2.reference_readsBack Cbor2.reference_readsValues
    Cbor2.reference_describes Cbor2.reference_capturesRaw Cbor2.reference_writesTuples
    Cbor2.reference_readsByteStrings (by decide)
  have hcaptured : WithinDefaults [0xa1, 0x35, 0xc2, 0x41, 0x05] :=
    withinDefaults_of_root (c := Cbor2.reference) (by decide) rfl
  exact hmac _ List.mem_cons_self (derivedKey [0xa1, 0x35, 0xc2, 0x41, 0x05]) _ rfl
    soundLayer_empty layerDefined_empty (allSound_derivedKey hcaptured) (allDefined_derivedKey _)
    (withinDefaults_of_root (c := Cbor2.reference) (by decide) rfl)

/-- A message with undefined in its unprotected header. -/
def undefinedNote : AuthMessage Unit where
  payload := some [0]
  unprotectedHeader := BTreeMap.ofList [(.text "a", .undefined)]
  recipients := ()
  result := [1]
  state := .complete

/-- Undefined is read as null, so the header is another one; and a detached ciphertext stays
behind. -/
theorem not_decodeUndoesEncode :
    (¬ ∀ write ∈ sign1.encoders Cbor2.reference, ∀ m b, write m = .ok b →
      SoundLayer Cbor2.reference m.protectedHeader m.unprotectedHeader m.protectedRaw →
        WithinDefaults b → ∃ m', sign1.fromSlice Cbor2.reference b = .ok m' ∧
          SameHeader m.unprotectedHeader m'.unprotectedHeader) ∧
    ¬ ∀ write ∈ encrypt0.encoders Cbor2.reference, ∀ m b, write m = .ok b →
      SoundLayer Cbor2.reference m.protectedHeader m.unprotectedHeader m.protectedRaw →
        WithinDefaults b → ∃ m', encrypt0.fromSlice Cbor2.reference b = .ok m' ∧
          m'.ciphertext = m.ciphertext := by
  constructor
  · intro h
    have hsound : SoundLayer Cbor2.reference undefinedNote.protectedHeader
        undefinedNote.unprotectedHeader undefinedNote.protectedRaw :=
      { soundLayer_empty with
        unprotectedApart := apart_singleton Value.Plain.null.duplicateFree }
    obtain ⟨m', hread, hsame⟩ := h _ List.mem_cons_self undefinedNote _ rfl hsound
      (withinDefaults_of_root (c := Cbor2.reference) (by decide) rfl)
    have hnull : sign1.fromSlice Cbor2.reference
        [0xd2, 0x84, 0x40, 0xa1, 0x61, 0x61, 0xf7, 0x41, 0x00, 0x41, 0x01] = .ok
      { undefinedNote with unprotectedHeader := BTreeMap.ofList [(.text "a", .null)] } := rfl
    cases hnull.symm.trans hread
    cases hsame (.text "a")
  · intro h
    obtain ⟨m', hread, hsame⟩ := h _ List.mem_cons_self
      { recipients := (), ciphertext := [7], ciphertextDetached := true, state := .complete } _ rfl
      soundLayer_empty (withinDefaults_of_root (c := Cbor2.reference) (by decide) rfl)
    have hdetached : encrypt0.fromSlice Cbor2.reference [0xd0, 0x83, 0x40, 0xa0, 0xf6] = .ok
      { recipients := (), ciphertextDetached := true, state := .complete } := rfl
    cases hdetached.symm.trans hread
    cases hsame

end Cose2
