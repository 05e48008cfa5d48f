import Cose2.Message.EncLifecycle
import Cose2.Message.RecipientRoundTrip
import Cose2.Message.Wire

/-! # Decoding undoes encoding

For each of the six message types, what an encoder returns is read back as the same message,
which is written as the same bytes again.
-/
namespace Cose2

open Cbor Cbor2 Recipient

/-! ### The last elements of a message -/

/-- The recipients of a type of messages: as elements that are written behind the others,
they are read back and pass their checks again; without undefined they are written as the
same elements. -/
structure TailTravels {ρ : Type} (validate validateDecoded : ρ → Except Error Unit)
    (write : ρ → Except Error (List Part)) (read : List Tree → Except String ρ)
    (shape : List Tree → Prop) (sound defined : ρ → Prop) (same : ρ → ρ → Prop) : Prop where
  written : ∀ {rs parts}, validate rs = .ok () → write rs = .ok parts → sound rs →
    ∃ vs, List.Forall₂ Part.Spells parts vs ∧ (∀ v ∈ vs, v.norm = v) ∧
      (∀ v ∈ vs, v.asRead.DuplicateFree) ∧ shape (vs.map Value.toTree) ∧
      ((∀ v ∈ vs, Admitted v) → ∃ rs', read (vs.map Value.toTree) = .ok rs' ∧
        validateDecoded rs' = .ok () ∧ same rs rs' ∧ validate rs' = .ok () ∧
        (defined rs → write rs' = .ok parts))

theorem noTail : TailTravels (fun _ : Unit => .ok ()) (fun _ => .ok ()) (fun _ => .ok [])
    readNoRecipients (· = []) (fun _ => True) (fun _ => True) (fun _ _ => True) where
  written _ hwrite _ := by
    cases hwrite
    exact ⟨[], .nil, by simp, by simp, rfl,
      fun _ => ⟨(), rfl, rfl, trivial, rfl, fun _ => rfl⟩⟩

section Laws

variable {c : Cbor2} (hread : c.ReadsItems) (hw : c.WritesValues) (hr : c.ReadsBack)
  (hc : c.ReadsValues) (hd : c.Describes) (hcap : c.CapturesRaw) (ht : c.WritesTuples)
  (hb : c.ReadsByteStrings) (hrecursion : defaultMaxDepth < c.recursionLimit)

/-- The one element that holds the recipients. -/
def AreRecipientsTail (ts : List Tree) : Prop :=
  ∃ t, ts = [t] ∧ Strict.AreRecipients Strict.TakenForNull t

include hread hw hr hc hd hcap ht hrecursion in
theorem recipientTail (name : String) :
    TailTravels (validateMessageRecipients c · name) (validateDecodedRecipients · name)
      (writeRecipientList c) (readRecipientList c) AreRecipientsTail (AllSound c) AllDefined
      (List.Forall₂ (SameTree c HeaderRead)) where
  written := by
    intro rs parts hvalid hwrite hsound
    obtain ⟨data, hdata, hparts⟩ := Except.bind_eq_ok.mp hwrite
    obtain rfl := Except.pure_eq_ok.mp hparts
    obtain ⟨vs, hvs, rfl⟩ := canonicalRaw_array hw ht hdata
    obtain ⟨⟨hlocal, hdecoded⟩, hnested⟩ := validateMessageRecipients_ok.mp hvalid
    rw [validateDecodedRecipients, Except.seq_eq_ok, requireRecipients_ok] at hdecoded
    obtain ⟨hne, hlayer⟩ := hdecoded
    refine ⟨[(Value.array vs).norm], .cons rfl .nil, ?_, ?_, ?_, ?_⟩
    · rw [List.forall_mem_singleton]
      exact Value.norm_norm _
    · rw [List.forall_mem_singleton, Value.asRead, Value.norm_norm]
      refine Value.duplicateFree_asRead_array fun v hv => ?_
      obtain ⟨r, hr', hwritten⟩ := Tree.forall₂_mem_right (serializeAll_ok.mp hvs) hv
      obtain ⟨hone, hbelow⟩ := allSound_iff.mp hsound r hr'
      exact apart_of_serialize hwritten hone hbelow
    · refine ⟨_, rfl, some (preferred (vs.map Value.norm).length),
        (vs.map Value.norm).map Value.toTree, ?_, ?_, ?_⟩
      · rw [Value.norm, Value.normItems_eq, Value.toTree, Value.toTreeItems_eq]
      · have hlength := (serializeAll_ok.mp hvs).length_eq
        intro hnil
        rw [List.map_eq_nil_iff, List.map_eq_nil_iff] at hnil
        rw [hnil, List.length_nil, List.length_eq_zero_iff] at hlength
        exact hne hlength
      · rw [List.map_map, List.forall_mem_map]
        intro v hv
        obtain ⟨r, -, hwritten⟩ := Tree.forall₂_mem_right (serializeAll_ok.mp hvs) hv
        exact isRecipient_of_serialize hwritten
    · intro hadmitted
      rw [List.forall_mem_singleton] at hadmitted
      obtain ⟨rs', hreadFrom⟩ :=
        readBack_all hread hw hr hc hd hcap hrecursion hvs hsound hadmitted
      have hdecoded' : validateDecodedRecipients rs' name = .ok () := by
        rw [validateDecodedRecipients, Except.seq_eq_ok, requireRecipients_ok,
          validateLayerRules_same hreadFrom.classes]
        refine ⟨?_, hlayer⟩
        rintro rfl
        exact hne (List.forall₂_nil_right_iff.mp hreadFrom.same)
      refine ⟨rs', ?_, hdecoded', hreadFrom.same, ?_, fun hdefined => ?_⟩
      · rw [List.map_singleton, Value.norm, Value.normItems_eq, Value.toTree,
          Value.toTreeItems_eq, List.map_map, readRecipientList]
        exact deserializeAll_ok.mpr ⟨hreadFrom.spelled, hreadFrom.valid⟩
      · exact validateMessageRecipients_ok.mpr
          ⟨⟨hreadFrom.valid, hdecoded'⟩, nestedWithin_of_same hreadFrom.same hnested⟩
      · obtain ⟨vs', hvs', hrewritten⟩ := hreadFrom.written
        have hvalues : ∀ v ∈ vs, v.Defined := by
          intro v hv
          obtain ⟨r, hr', hwritten⟩ := Tree.forall₂_mem_right (serializeAll_ok.mp hvs) hv
          obtain ⟨hone, hbelow⟩ := allDefined_iff.mp hdefined r hr'
          exact defined_of_serialize hwritten hone hbelow
        exact Except.bind_eq_ok.mpr ⟨_, canonicalRaw_same hw hr.toEncodesCanonically hrecursion
          hdata hvs hvs' hrewritten hadmitted hvalues, rfl⟩

/-! ### The body of a message -/

/-- The body of a message: its protected bytes, its unprotected map, and what follows. -/
def bodyValue (raw : Bytes) (u : Header) (content : List Value) : Value :=
  .array (.bytes raw :: u.toValue.norm :: content)

/-- The decoder is handed the body of the message, and reads the layer from it. -/
structure BodyRead (c : Cbor2) (tag : Nat) (p u p' : Header) (raw : Bytes)
    (content : List Value) (b : Bytes) : Prop where
  body : Strict.messageBody c b tag {} = .ok (bodyValue raw u content).encode
  item : c.item (bodyValue raw u content).encode = .ok (bodyValue raw u content).toTree
  protectedRaw : c.byteBuf (Value.bytes raw).toTree = .ok raw
  unprotected : Header.deserializeChecked c u.toValue.norm.toTree = .ok u.asRead
  content : ∀ v ∈ content, Admitted v
  layer : LayerRead c p u p' u.asRead raw

include hread hw hr hc hb hrecursion in
/-- **The layer of a message that was written is read back.** -/
theorem body_readBack {n : UInt64} {tags : List UInt64} {p u : Header} {raw : Bytes}
    {content : List Value} (htag : Strict.IsMessageTag n.toNat) (htags : tags ∈ writtenTags n)
    (hlayer : LayerOk c p u raw) (hsound : SoundLayer c p u raw)
    (hnorm : ∀ v ∈ content, v.norm = v) (hapart : ∀ v ∈ content, v.asRead.DuplicateFree)
    (hshape : Strict.IsContent Strict.TakenForNull n.toNat (content.map Value.toTree))
    (hdata : WithinDefaults (withTags tags (bodyValue raw u content)).encode) :
    ∃ p', BodyRead c n.toNat p u p' raw content
      (withTags tags (bodyValue raw u content)).encode := by
  have hmap : u.toValue.norm.asRead.DuplicateFree := by
    rw [Value.asRead, Value.norm_norm]
    exact CoseMap.apart_toValue hsound.unprotectedApart
  have hadmitted : Admitted (withTags tags (bodyValue raw u content)) := by
    refine admitted_withTags ?_ ?_ hdata
    · exact List.forall_mem_cons.mpr ⟨rfl, List.forall_mem_cons.mpr ⟨Value.norm_norm _, hnorm⟩⟩
    · exact List.forall_mem_cons.mpr
        ⟨(Value.Plain.bytes raw).duplicateFree, List.forall_mem_cons.mpr ⟨hmap, hapart⟩⟩
  have hmessage :
      Strict.IsMessage Strict.TakenForNull n.toNat (bodyValue raw u content).toTree := by
    rw [bodyValue, Value.toTree, Value.toTreeItems_eq]
    refine ⟨_, _, _, _, rfl, trivial, ?_, hshape⟩
    rw [CoseMap.norm_toValue_eq]
    exact trivial
  obtain ⟨hbody, hitem⟩ := messageBody_encode hr hrecursion htag htags hadmitted hmessage
  have hinside := hadmitted.inside
  have hunprotected : Admitted u.toValue.norm :=
    hinside.child (List.mem_cons_of_mem _ List.mem_cons_self)
  obtain ⟨p', hlayerRead⟩ := layer_readBack hread hw hr hc hrecursion hlayer hsound hunprotected
  refine ⟨p', hbody, hitem, ?_, ?_, ?_, hlayerRead⟩
  · exact hb.bytes (hinside.child List.mem_cons_self).regular.writable
  · exact deserializeChecked_value hr hrecursion hunprotected hlayer.buckets.unprotectedOk
  · exact fun v hv => hinside.child (List.mem_cons_of_mem _ (List.mem_cons_of_mem _ hv))

include hw ht in
/-- What is written behind the tags is the body. -/
theorem encodePrefixed_body {tags : List UInt64} {u : Header} {raw unprotected b : Bytes}
    {parts : List Part} {content : List Value} (hu : headerRaw c u = .ok unprotected)
    (hparts : List.Forall₂ Part.Spells parts content)
    (h : encodePrefixed c (tagBytes tags)
      (.value (.bytes raw) :: .raw unprotected :: parts) = .ok b) :
    b = (withTags tags (bodyValue raw u content)).encode := by
  obtain ⟨out, hout, rfl⟩ := encodePrefixed_ok h
  obtain ⟨-, rfl⟩ := headerRaw_ok hw ht hu
  rw [ht.tuple hout, encode_withTags, bodyValue]
  exact congrArg _ (tupleBytes_eq (.cons rfl (.cons rfl hparts)))

theorem payloadPart_spells (payload : Option Bytes) :
    (payloadPart payload).Spells (serializedCiphertext payload) := by
  cases payload <;> rfl

include hb in
theorem optionByteBuf_payload {payload : Option Bytes}
    (h : (serializedCiphertext payload).Writable) :
    c.optionByteBuf (serializedCiphertext payload).toTree = .ok payload := by
  cases payload with
  | some payload => exact hb.some h
  | none => exact hb.none

end Laws

/-! ### Signed and authenticated messages -/

/-- The message `m'` was decoded from `m`: its bytes are the same, its headers are compared by
`header`, and its recipients by `same`. -/
structure AuthMessage.Same {ρ : Type} (header : Header → Header → Prop) (same : ρ → ρ → Prop)
    (m m' : AuthMessage ρ) : Prop where
  state : m'.state = .complete
  protectedRaw : m'.protectedRaw = m.protectedRaw
  result : m'.result = m.result
  payload : m'.payload = m.payload
  protectedHeader : header m.protectedHeader m'.protectedHeader
  unprotectedHeader : header m.unprotectedHeader m'.unprotectedHeader
  recipients : same m.recipients m'.recipients

namespace AuthType

variable {ρ : Type} {shape : List Tree → Prop} {sound defined : ρ → Prop}
  {same : ρ → ρ → Prop}

/-- The encoders of a type. -/
def encoders (k : AuthType ρ) (c : Cbor2) : List (AuthMessage ρ → Except Error Bytes) :=
  [k.toVec c, k.toCwtVec c, k.toUntaggedVec c]

/-- The numbers of a type: its prefixes are the heads of its tag, and its elements have the
form that the strict parser requires under it. -/
structure OnWire (k : AuthType ρ) (n : UInt64) (shape : List Tree → Prop) : Prop where
  tag : k.tag = n.toNat
  isTag : Strict.IsMessageTag n.toNat
  tagPrefix : k.tagPrefix = tagBytes [n]
  cwtPrefix : k.cwtPrefix = tagBytes [61, n]
  content : ∀ {payload result rest}, Strict.IsBytesOrNull Strict.TakenForNull payload →
    Strict.IsBytes result → shape rest →
    Strict.IsContent Strict.TakenForNull n.toNat (payload :: result :: rest)

theorem encode_of_mem {k : AuthType ρ} {c : Cbor2} {n : UInt64} (h : k.OnWire n shape)
    {write : AuthMessage ρ → Except Error Bytes} (hmem : write ∈ k.encoders c) :
    ∃ tags ∈ writtenTags n, ∀ m, write m = k.encode c m (tagBytes tags) := by
  rw [encoders, List.mem_cons, List.mem_cons, List.mem_singleton] at hmem
  rcases hmem with rfl | rfl | rfl
  · exact ⟨[n], by simp [writtenTags], fun m => by rw [toVec, h.tagPrefix]⟩
  · exact ⟨[61, n], by simp [writtenTags], fun m => by rw [toCwtVec, h.cwtPrefix]⟩
  · exact ⟨[], by simp [writtenTags], fun m => rfl⟩

/-- Decoding undoes what the encoders of the type return for a sound message without undefined,
within the default limits. -/
def DecodeUndoes (k : AuthType ρ) (c : Cbor2) (sound defined : ρ → Prop) (same : ρ → ρ → Prop) :
    Prop :=
  ∀ write ∈ k.encoders c, ∀ m b, write m = .ok b →
    SoundLayer c m.protectedHeader m.unprotectedHeader m.protectedRaw →
      LayerDefined m.protectedHeader m.unprotectedHeader →
      sound m.recipients → defined m.recipients → WithinDefaults b →
        ∃ m', k.fromSlice c b = .ok m' ∧ m.Same SameHeader same m' ∧ write m' = .ok b

section Laws

variable {k : AuthType ρ} {c : Cbor2} (hread : c.ReadsItems) (hw : c.WritesValues)
  (hr : c.ReadsBack) (hc : c.ReadsValues) (ht : c.WritesTuples) (hb : c.ReadsByteStrings)
  (hrecursion : defaultMaxDepth < c.recursionLimit) {n : UInt64} (htype : k.OnWire n shape)
  (htail : TailTravels k.validateRecipients k.validateDecoded k.writeRecipients
    k.readRecipients shape sound defined same)
include hread hw hr hc ht hb hrecursion htype htail

/-- **What is encoded is decoded as the same message, with its headers as they are read.**
Without undefined it is encoded as the same bytes. -/
theorem decode_encode {tags : List UInt64} (htags : tags ∈ writtenTags n) {m : AuthMessage ρ}
    {b : Bytes} (h : k.encode c m (tagBytes tags) = .ok b)
    (hlayerSound : SoundLayer c m.protectedHeader m.unprotectedHeader m.protectedRaw)
    (hsound : sound m.recipients) (hdata : WithinDefaults b) :
    ∃ m', k.fromSlice c b = .ok m' ∧ m.Same HeaderRead same m' ∧
      (LayerDefined m.protectedHeader m.unprotectedHeader → defined m.recipients →
        k.encode c m' (tagBytes tags) = .ok b) ∧
      LayerRead c m.protectedHeader m.unprotectedHeader m'.protectedHeader m'.unprotectedHeader
        m.protectedRaw := by
  obtain ⟨-, hvalid, hlayer, unprotected, hu, parts, hparts, hencoded⟩ := encode_ok.mp h
  obtain ⟨vs, hspells, hnorm, hapart, hshape, hback⟩ := htail.written hvalid hparts hsound
  have hplain := plain_serializedCiphertext m.payload
  have hnorms : ∀ v ∈ serializedCiphertext m.payload :: .bytes m.result :: vs, v.norm = v :=
    List.forall_mem_cons.mpr ⟨hplain.norm, List.forall_mem_cons.mpr ⟨rfl, hnorm⟩⟩
  have haparts : ∀ v ∈ serializedCiphertext m.payload :: .bytes m.result :: vs,
      v.asRead.DuplicateFree :=
    List.forall_mem_cons.mpr ⟨hplain.asRead.symm ▸ hplain.duplicateFree,
      List.forall_mem_cons.mpr ⟨(Value.Plain.bytes m.result).duplicateFree, hapart⟩⟩
  have hspelled : List.Forall₂ Part.Spells
      (payloadPart m.payload :: .value (.bytes m.result) :: parts)
      (serializedCiphertext m.payload :: .bytes m.result :: vs) :=
    .cons (payloadPart_spells m.payload) (.cons rfl hspells)
  obtain rfl := encodePrefixed_body hw ht hu hspelled hencoded
  obtain ⟨p', hbody⟩ := body_readBack hread hw hr hc hb hrecursion htype.isTag htags hlayer
    hlayerSound hnorms haparts
    (htype.content (isBytesOrNull_serializedCiphertext _) trivial hshape) hdata
  have hinside := List.forall_mem_cons.mp hbody.content
  obtain ⟨rs', hrecipients, hdecoded, hsame, hvalid', hparts'⟩ :=
    hback (List.forall_mem_cons.mp hinside.2).2
  have hpayload := optionByteBuf_payload hb hinside.1.regular.writable
  have hresult := hb.bytes (List.forall_mem_cons.mp hinside.2).1.regular.writable
  have hwire : k.readWire c (bodyValue m.protectedRaw m.unprotectedHeader
      (serializedCiphertext m.payload :: .bytes m.result :: vs)).toTree = .ok
        { unprotectedHeader := m.unprotectedHeader.asRead, payload := m.payload
          recipients := rs', result := m.result, protectedRaw := m.protectedRaw } := by
    rw [bodyValue, Value.toTree, Value.toTreeItems_eq]
    simp only [List.map_cons, readWire, hbody.protectedRaw, hbody.unprotected, hpayload, hresult,
      hrecipients, Except.ok_bind]
    rfl
  have hslice : k.fromSlice c (withTags tags (bodyValue m.protectedRaw m.unprotectedHeader
      (serializedCiphertext m.payload :: .bytes m.result :: vs))).encode = .ok
        { protectedHeader := p', unprotectedHeader := m.unprotectedHeader.asRead
          payload := m.payload, recipients := rs', result := m.result
          protectedRaw := m.protectedRaw, state := .complete } := by
    rw [fromSlice, fromSliceWithLimits, htype.tag, hbody.body, Except.ok_bind, hbody.item,
      Except.ok_bind, hwire]
    simp only [Except.mapError, Except.ok_bind, hdecoded, hbody.layer.decoded,
      validateHeaderBuckets_ok.mpr hbody.layer.layer.buckets]
    rfl
  refine ⟨_, hslice, ⟨rfl, rfl, rfl, rfl, hbody.layer.protectedRead, hbody.layer.unprotectedRead,
    hsame⟩, fun hlayerDefined hdefined => ?_, hbody.layer⟩
  have hu' := headerRaw_same hw hu
    (hbody.layer.unprotectedRead.sameValues hlayerDefined.unprotectedHeader)
    hbody.layer.layer.buckets.unprotectedOk hbody.layer.unprotectedEncodable
  exact encode_ok.mpr
    ⟨rfl, hvalid', hbody.layer.layer, unprotected, hu', parts, hparts' hdefined, hencoded⟩

/-- Decoding undoes what the encoders of the type return. -/
theorem decodeUndoes {same' : ρ → ρ → Prop}
    (hsame' : ∀ rs rs', defined rs → same rs rs' → same' rs rs') :
    k.DecodeUndoes c sound defined same' := by
  intro write hmem m b h hlayerSound hlayerDefined hsound hdefined hdata
  obtain ⟨tags, htags, hwrite⟩ := encode_of_mem htype hmem
  rw [hwrite] at h
  obtain ⟨m', hslice, hsame, hagain, -⟩ := decode_encode hread hw hr hc ht hb hrecursion htype
    htail htags h hlayerSound hsound hdata
  refine ⟨m', hslice, ?_, (hwrite m').trans (hagain hlayerDefined hdefined)⟩
  exact { hsame with
    protectedHeader := hsame.protectedHeader.sameHeader hlayerDefined.protectedHeader
    unprotectedHeader := hsame.unprotectedHeader.sameHeader hlayerDefined.unprotectedHeader
    recipients := hsame' _ _ hdefined hsame.recipients }

end Laws
end AuthType

/-! ### Encrypted messages -/

/-- The message `m'` was decoded from `m`: a ciphertext that is not detached is the same, and
there is no plaintext. -/
structure EncMessage.Same {ρ : Type} (header : Header → Header → Prop) (same : ρ → ρ → Prop)
    (m m' : EncMessage ρ) : Prop where
  state : m'.state = .complete
  protectedRaw : m'.protectedRaw = m.protectedRaw
  detached : m'.ciphertextDetached = m.ciphertextDetached
  ciphertext : m'.ciphertext = if m.ciphertextDetached then [] else m.ciphertext
  payload : m'.payload = none
  protectedHeader : header m.protectedHeader m'.protectedHeader
  unprotectedHeader : header m.unprotectedHeader m'.unprotectedHeader
  recipients : same m.recipients m'.recipients

namespace EncType

variable {ρ : Type} {shape : List Tree → Prop} {sound defined : ρ → Prop}
  {same : ρ → ρ → Prop}

/-- The encoders of a type. -/
def encoders (k : EncType ρ) (c : Cbor2) : List (EncMessage ρ → Except Error Bytes) :=
  [k.toVec c, k.toCwtVec c, k.toUntaggedVec c]

/-- The numbers of a type. -/
structure OnWire (k : EncType ρ) (n : UInt64) (shape : List Tree → Prop) : Prop where
  tag : k.tag = n.toNat
  isTag : Strict.IsMessageTag n.toNat
  tagPrefix : k.tagPrefix = tagBytes [n]
  cwtPrefix : k.cwtPrefix = tagBytes [61, n]
  content : ∀ {ciphertext rest}, Strict.IsBytesOrNull Strict.TakenForNull ciphertext → shape rest →
    Strict.IsContent Strict.TakenForNull n.toNat (ciphertext :: rest)

theorem encode_of_mem {k : EncType ρ} {c : Cbor2} {n : UInt64} (h : k.OnWire n shape)
    {write : EncMessage ρ → Except Error Bytes} (hmem : write ∈ k.encoders c) :
    ∃ tags ∈ writtenTags n, ∀ m, write m = k.encode c m (tagBytes tags) := by
  rw [encoders, List.mem_cons, List.mem_cons, List.mem_singleton] at hmem
  rcases hmem with rfl | rfl | rfl
  · exact ⟨[n], by simp [writtenTags], fun m => by rw [toVec, h.tagPrefix]⟩
  · exact ⟨[61, n], by simp [writtenTags], fun m => by rw [toCwtVec, h.cwtPrefix]⟩
  · exact ⟨[], by simp [writtenTags], fun m => rfl⟩

/-- The same for the encoders of the type. -/
def DecodeUndoes (k : EncType ρ) (c : Cbor2) (sound defined : ρ → Prop) (same : ρ → ρ → Prop) :
    Prop :=
  ∀ write ∈ k.encoders c, ∀ m b, write m = .ok b →
    SoundLayer c m.protectedHeader m.unprotectedHeader m.protectedRaw →
      LayerDefined m.protectedHeader m.unprotectedHeader →
      sound m.recipients → defined m.recipients → WithinDefaults b →
        ∃ m', k.fromSlice c b = .ok m' ∧ m.Same SameHeader same m' ∧ write m' = .ok b

section Laws

variable {k : EncType ρ} {c : Cbor2} (hread : c.ReadsItems) (hw : c.WritesValues)
  (hr : c.ReadsBack) (hc : c.ReadsValues) (ht : c.WritesTuples) (hb : c.ReadsByteStrings)
  (hrecursion : defaultMaxDepth < c.recursionLimit) {n : UInt64} (htype : k.OnWire n shape)
  (htail : TailTravels k.validateRecipients k.validateDecoded k.writeRecipients
    k.readRecipients shape sound defined same)
include hread hw hr hc ht hb hrecursion htype htail

/-- **What is encoded is decoded as the same message, with its headers as they are read.**
Without undefined it is encoded as the same bytes. -/
theorem decode_encode {tags : List UInt64} (htags : tags ∈ writtenTags n) {m : EncMessage ρ}
    {b : Bytes} (h : k.encode c m (tagBytes tags) = .ok b)
    (hlayerSound : SoundLayer c m.protectedHeader m.unprotectedHeader m.protectedRaw)
    (hsound : sound m.recipients) (hdata : WithinDefaults b) :
    ∃ m', k.fromSlice c b = .ok m' ∧ m.Same HeaderRead same m' ∧
      (LayerDefined m.protectedHeader m.unprotectedHeader → defined m.recipients →
        k.encode c m' (tagBytes tags) = .ok b) ∧
      LayerRead c m.protectedHeader m.unprotectedHeader m'.protectedHeader m'.unprotectedHeader
        m.protectedRaw := by
  obtain ⟨-, hvalid, hlayer, unprotected, hu, parts, hparts, hencoded⟩ := encode_ok.mp h
  obtain ⟨vs, hspells, hnorm, hapart, hshape, hback⟩ := htail.written hvalid hparts hsound
  have hplain := plain_serializedCiphertext m.embedded
  have hnorms : ∀ v ∈ serializedCiphertext m.embedded :: vs, v.norm = v :=
    List.forall_mem_cons.mpr ⟨hplain.norm, hnorm⟩
  have haparts : ∀ v ∈ serializedCiphertext m.embedded :: vs, v.asRead.DuplicateFree :=
    List.forall_mem_cons.mpr ⟨hplain.asRead.symm ▸ hplain.duplicateFree, hapart⟩
  have hspelled : List.Forall₂ Part.Spells (payloadPart m.embedded :: parts)
      (serializedCiphertext m.embedded :: vs) :=
    .cons (payloadPart_spells m.embedded) hspells
  obtain rfl := encodePrefixed_body hw ht hu hspelled hencoded
  obtain ⟨p', hbody⟩ := body_readBack hread hw hr hc hb hrecursion htype.isTag htags hlayer
    hlayerSound hnorms haparts (htype.content (isBytesOrNull_serializedCiphertext _) hshape) hdata
  have hinside := List.forall_mem_cons.mp hbody.content
  obtain ⟨rs', hrecipients, hdecoded, hsame, hvalid', hparts'⟩ := hback hinside.2
  have hciphertext := optionByteBuf_payload hb hinside.1.regular.writable
  have hwire : k.readWire c (bodyValue m.protectedRaw m.unprotectedHeader
      (serializedCiphertext m.embedded :: vs)).toTree = .ok
        { unprotectedHeader := m.unprotectedHeader.asRead, protectedRaw := m.protectedRaw
          recipients := rs', ciphertext := m.embedded.getD []
          ciphertextDetached := m.embedded.isNone } := by
    rw [bodyValue, Value.toTree, Value.toTreeItems_eq]
    simp only [List.map_cons, readWire, hbody.protectedRaw, hbody.unprotected, hciphertext,
      hrecipients, Except.ok_bind]
    rfl
  obtain ⟨m', hm'⟩ : ∃ m' : EncMessage ρ, m' =
      { protectedHeader := p', unprotectedHeader := m.unprotectedHeader.asRead
        recipients := rs', ciphertext := m.embedded.getD []
        ciphertextDetached := m.embedded.isNone
        protectedRaw := m.protectedRaw, state := .complete } := ⟨_, rfl⟩
  have hslice : k.fromSlice c (withTags tags (bodyValue m.protectedRaw m.unprotectedHeader
      (serializedCiphertext m.embedded :: vs))).encode = .ok m' := by
    rw [fromSlice, htype.tag, hbody.body, Except.ok_bind, hbody.item, Except.ok_bind, hwire]
    simp only [Except.mapError, Except.ok_bind, hdecoded, hbody.layer.decoded,
      validateHeaderBuckets_ok.mpr hbody.layer.layer.buckets, hm']
    rfl
  have hembedded : m'.embedded = m.embedded := by
    rw [hm', EncMessage.embedded]
    cases m.embedded <;> rfl
  refine ⟨m', hslice, ?_, fun hlayerDefined hdefined => ?_, ?_⟩
  · rw [hm']
    refine ⟨rfl, rfl, ?_, ?_, rfl, hbody.layer.protectedRead, hbody.layer.unprotectedRead, hsame⟩
    · rw [EncMessage.embedded]
      cases m.ciphertextDetached <;> rfl
    · rw [EncMessage.embedded]
      cases m.ciphertextDetached <;> rfl
  · have hu' := headerRaw_same hw hu
      (hbody.layer.unprotectedRead.sameValues hlayerDefined.unprotectedHeader)
      hbody.layer.layer.buckets.unprotectedOk hbody.layer.unprotectedEncodable
    subst hm'
    refine encode_ok.mpr
      ⟨rfl, hvalid', hbody.layer.layer, unprotected, hu', parts, hparts' hdefined, ?_⟩
    rw [hembedded]
    exact hencoded
  · rw [hm']
    exact hbody.layer

/-- Decoding undoes what the encoders of the type return. -/
theorem decodeUndoes {same' : ρ → ρ → Prop}
    (hsame' : ∀ rs rs', defined rs → same rs rs' → same' rs rs') :
    k.DecodeUndoes c sound defined same' := by
  intro write hmem m b h hlayerSound hlayerDefined hsound hdefined hdata
  obtain ⟨tags, htags, hwrite⟩ := encode_of_mem htype hmem
  rw [hwrite] at h
  obtain ⟨m', hslice, hsame, hagain, -⟩ := decode_encode hread hw hr hc ht hb hrecursion htype
    htail htags h hlayerSound hsound hdata
  refine ⟨m', hslice, ?_, (hwrite m').trans (hagain hlayerDefined hdefined)⟩
  exact { hsame with
    protectedHeader := hsame.protectedHeader.sameHeader hlayerDefined.protectedHeader
    unprotectedHeader := hsame.unprotectedHeader.sameHeader hlayerDefined.unprotectedHeader
    recipients := hsame' _ _ hdefined hsame.recipients }

end Laws
end EncType

end Cose2
