import Cose2.Message.EndToEnd
import Cose2.Message.Rewriting

/-! # Encoding what was decoded

A message that a decoder returned is encoded by each encoder of its type.  What is decoded
from there holds the same authenticated bytes, and nothing that verifies or decrypts it can
tell it from the original: the order and the spelling of unprotected values is all that
changes, and the checks of a layer read these up to their encodings.
-/
namespace Cose2

open Cbor Cbor2 Iana Recipient

variable {c : Cbor2} {ρ : Type}

/-! ### Layers -/

/-- Two layers with one protected header that was read, where the second unprotected header
is what is read of the first. -/
structure LayerKept (c : Cbor2) (p u u' : Header) (raw : Bytes) : Prop where
  layer : LayerOk c p u raw
  layer' : LayerOk c p u' raw
  reduced : CoseMap.Reduced p
  read : HeaderRead u u'

section Layers

variable {p u u' : Header} {raw : Bytes}

/-- The layer that is read is the layer that was written from. -/
theorem LayerHeld.kept {tp tu : Tree} {p' : Header} (h : LayerHeld c tp tu p u raw)
    (hread : LayerRead c p u p' u' raw) : p' = p ∧ LayerKept c p u u' raw := by
  obtain rfl := Except.ok.inj (hread.decoded.symm.trans h.decoded)
  exact ⟨rfl, h.layer, hread.layer, h.reduced, hread.unprotectedRead⟩

theorem effectiveAlg_of_valid (h : BucketsOk p u) : ∃ o, effectiveAlg p u = .ok o := by
  obtain ⟨a, ha⟩ := alg_of_validateCommon h.protectedOk
  obtain ⟨a', ha'⟩ := alg_of_validateCommon h.unprotectedOk
  cases a with
  | some a => exact ⟨some a, Except.bind_eq_ok.mpr ⟨some a, ha, rfl⟩⟩
  | none => exact ⟨a', Except.bind_eq_ok.mpr ⟨none, ha, ha'⟩⟩

/-- The byte strings that every header is checked for can be read. -/
theorem getBytes_of_validateCommon {h : Header} (hvalid : h.validateCommon = .ok ())
    {label : Label} (hlabel : label = headerParameterKid ∨ label = headerParameterIV ∨
      label = headerParameterPartialIV) : ∃ o, h.getBytes label = .ok o := by
  simp only [Header.validateCommon, Except.bind_eq_ok] at hvalid
  obtain ⟨_, -, _, -, kid, hkid, iv, hiv, partialIv, hpart, -⟩ := hvalid
  rcases hlabel with rfl | rfl | rfl
  · exact ⟨kid, hkid⟩
  · exact ⟨iv, hiv⟩
  · exact ⟨partialIv, hpart⟩

namespace LayerKept

variable (h : LayerKept c p u u' raw)
include h

theorem readProtected : HeaderRead p p where
  settled _ := rfl
  reduced := h.reduced

theorem checkProtectedAlg (alg : Option Label) :
    checkProtectedAlg p u' alg = checkProtectedAlg p u alg := by
  obtain ⟨o, ho⟩ := effectiveAlg_of_valid h.layer.buckets
  have ho' := effectiveAlg_same h.readProtected h.read ho h.layer.buckets.protectedOk
    h.layer'.buckets.unprotectedOk
  cases alg with
  | none => rfl
  | some expected => rw [Cose2.checkProtectedAlg, Cose2.checkProtectedAlg, ho, ho']

theorem headerBytes {label : Label} (hlabel : label = headerParameterKid ∨
    label = headerParameterIV ∨ label = headerParameterPartialIV) :
    headerBytes p u' label = headerBytes p u label := by
  obtain ⟨o, ho⟩ : ∃ o, Cose2.headerBytes p u label = .ok o := by
    obtain ⟨b, hb⟩ := getBytes_of_validateCommon h.layer.buckets.protectedOk hlabel
    obtain ⟨b', hb'⟩ := getBytes_of_validateCommon h.layer.buckets.unprotectedOk hlabel
    cases b with
    | some b => exact ⟨some b, Except.bind_eq_ok.mpr ⟨some b, hb, rfl⟩⟩
    | none => exact ⟨b', Except.bind_eq_ok.mpr ⟨none, hb, hb'⟩⟩
  rw [ho, headerBytes_eq_ok]
  exact layerValue_same h.readProtected h.read (headerBytes_eq_ok.mp ho)

theorem nonceFromHeaderValues (nonceSize : Nat) (baseIv : Option Bytes) :
    nonceFromHeaderValues p u' nonceSize baseIv = nonceFromHeaderValues p u nonceSize baseIv := by
  rw [Cose2.nonceFromHeaderValues, Cose2.nonceFromHeaderValues, h.headerBytes (by simp),
    h.headerBytes (by simp)]

end LayerKept
end Layers

/-! ### Signed and authenticated messages -/

/-- The message `m'` is `m`, up to the spelling of unprotected values. -/
structure AuthMessage.Unchanged (unchanged : ρ → ρ → Prop) (m m' : AuthMessage ρ) : Prop where
  protectedRaw : m'.protectedRaw = m.protectedRaw
  protectedHeader : m'.protectedHeader = m.protectedHeader
  unprotectedHeader : SameHeader m.unprotectedHeader m'.unprotectedHeader
  payload : m'.payload = m.payload
  result : m'.result = m.result
  recipients : unchanged m.recipients m'.recipients

namespace AuthType

/-- No verification tells the messages apart. -/
structure Agree (k : AuthType ρ) (c : Cbor2) (m m' : AuthMessage ρ) : Prop where
  verify : ∀ understood alg check externalAad,
    k.verify c m' understood alg check externalAad = k.verify c m understood alg check externalAad
  verifyDetached : ∀ understood alg check detachedPayload externalAad,
    k.verifyDetached c m' understood alg check detachedPayload externalAad =
      k.verifyDetached c m understood alg check detachedPayload externalAad

/-- A message that was decoded agrees with what is left unchanged of it. -/
theorem agree_of_kept {k : AuthType ρ} {unchanged : ρ → ρ → Prop} {m m' : AuthMessage ρ}
    (h : m.Unchanged unchanged m') (hstate : m'.state = m.state)
    (hkept : LayerKept c m.protectedHeader m.unprotectedHeader m'.unprotectedHeader
      m.protectedRaw) : k.Agree c m m' := by
  have hpayload (understood : List Label) (alg : Option Label)
      (check : Bytes → Bytes → Except Error Unit) (payload externalAad : Bytes) :
      k.verifyPayload c m' understood alg check payload externalAad =
        k.verifyPayload c m understood alg check payload externalAad := by
    rw [verifyPayload, verifyPayload, h.protectedRaw, h.protectedHeader, h.result,
      validateLayer_ok.mpr hkept.layer, validateLayer_ok.mpr hkept.layer',
      hkept.checkProtectedAlg]
  constructor
  · intro understood alg check externalAad
    rw [verify, verify, hstate, h.payload]
    simp only [hpayload]
  · intro understood alg check detachedPayload externalAad
    rw [verifyDetached, verifyDetached, hstate, h.payload]
    simp only [hpayload]

/-- The encoders of a type, with the number of tags that each writes. -/
def tagged (k : AuthType ρ) (c : Cbor2) : List (Nat × (AuthMessage ρ → Except Error Bytes)) :=
  [(1, k.toVec c), (2, k.toCwtVec c), (0, k.toUntaggedVec c)]

/-- What was decoded is encoded by each encoder; the output is within the default limits when
the encoder writes no more tags than the input has; and what is decoded from there is the
message, which no verification tells from it. -/
def Reencodes (k : AuthType ρ) (c : Cbor2) (unchanged : ρ → ρ → Prop) : Prop :=
  ∀ data m, data.length < sliceBound → k.fromSlice c data = .ok m → ∀ e ∈ k.tagged c,
    ∃ b, e.2 m = .ok b ∧ (HasTags e.1 data → WithinDefaults b) ∧
      (WithinDefaults b →
        ∃ m', k.fromSlice c b = .ok m' ∧ m.Unchanged unchanged m' ∧ k.Agree c m m')

theorem encode_of_tagged {k : AuthType ρ} {n : UInt64} {shape : List Tree → Prop}
    (h : k.OnWire n shape) {e : Nat × (AuthMessage ρ → Except Error Bytes)}
    (hmem : e ∈ k.tagged c) : ∃ tags ∈ writtenTags n, tags.length = e.1 ∧
      ∀ m, e.2 m = k.encode c m (tagBytes tags) := by
  rw [tagged, List.mem_cons, List.mem_cons, List.mem_singleton] at hmem
  rcases hmem with rfl | rfl | rfl
  · refine ⟨[n], by simp [writtenTags], rfl, fun m => ?_⟩
    rw [← h.tagPrefix, ← toVec]
  · refine ⟨[61, n], by simp [writtenTags], rfl, fun m => ?_⟩
    rw [← h.cwtPrefix, ← toCwtVec]
  · exact ⟨[], by simp [writtenTags], rfl, fun m => rfl⟩

section Laws

variable {k : AuthType ρ} (hread : c.ReadsItems) (hw : c.WritesValues) (hr : c.ReadsBack)
  (hc : c.ReadsValues) (hd : c.Describes) (ht : c.WritesTuples) (hb : c.ReadsByteStrings)
  (htake : c.TakesByteStrings) (hall : c.WritesEvery)
  (hrecursion : defaultMaxDepth < c.recursionLimit) {n : UInt64} {shape : List Tree → Prop}
  {sound defined : ρ → Prop} {same unchanged : ρ → ρ → Prop} (htype : k.OnWire n shape)
  (hcontent : ∀ {payload result rest},
    Strict.IsContent Strict.TakenForNull n.toNat (payload :: result :: rest) →
    Strict.IsBytesOrNull Strict.TakenForNull payload ∧ Strict.IsBytes result)
  (htail : TailTravels k.validateRecipients k.validateDecoded k.writeRecipients
    k.readRecipients shape sound defined same)
  (hrewrites : TailRewrites c k.validateRecipients k.validateDecoded k.writeRecipients
    k.readRecipients sound defined same unchanged)

include hread hw hr hc hd htake hall hrecursion htype hcontent hrewrites in
/-- **What was decoded can be encoded.** -/
theorem encode_of_fromSlice {data : Bytes} {m : AuthMessage ρ} (hlength : data.length < sliceBound)
    (h : k.fromSlice c data = .ok m) :
    (∃ tp tu, LayerHeld c tp tu m.protectedHeader m.unprotectedHeader m.protectedRaw) ∧
      sound m.recipients ∧ defined m.recipients ∧ ∀ tags ∈ writtenTags n, ∃ b,
        k.encode c m (tagBytes tags) = .ok b ∧ (HasTags tags.length data → WithinDefaults b) := by
  obtain ⟨body, w, tp, tu, tpayload, tresult, rest, hbody, hitem, hfields⟩ := fromSlice_reads h
  rw [htype.tag] at hbody
  have hmessage := messageItem hread htype.isTag hlength hbody hitem
  obtain ⟨_, _, _, content, heq, hp, hu, hshape⟩ := hmessage.message
  cases heq
  obtain ⟨hpayload, hresult⟩ := hcontent hshape
  have hchild {s : Tree} (hs : s ∈ tp :: tu :: tpayload :: tresult :: rest) :
      Accepted c s ∧ s.bytes.length < sliceBound :=
    ⟨hmessage.accepted.child hs, (Tree.length_lt_of_mem hs).trans hmessage.length⟩
  obtain ⟨htp, hshort⟩ := hchild (s := tp) (by simp)
  obtain ⟨htu, -⟩ := hchild (s := tu) (by simp)
  have hlayer := layerHeld hread hw hc hd hr.toEncodesCanonically htake hrecursion htp hshort htu hp
    hfields.protectedRaw hfields.unprotectedHeader hfields.protectedHeader hfields.buckets
  have hpayload := holdsBytes_of_optionByteBuf htake hpayload
    (hchild (by simp)).1.wellFormed hfields.payload
  have hresult := value_of_byteBuf htake hresult hfields.result
  obtain ⟨hvalid, hsound, hdefined, parts, vs, hwrite, hspells, hle⟩ :=
    hrewrites.written (fun s hs => hchild (by simp [hs])) hfields.recipients hfields.checked
  have hspelled : List.Forall₂ Part.Spells
      (payloadPart m.payload :: .value (.bytes m.result) :: parts)
      (serializedCiphertext m.payload :: .bytes m.result :: vs) :=
    .cons (payloadPart_spells m.payload) (.cons rfl hspells)
  refine ⟨⟨tp, tu, hlayer⟩, hsound, hdefined, fun tags htags => ?_⟩
  obtain ⟨unprotected, b, hunprotected, hencoded, hwithin⟩ :=
    hlayer.encodes hw hall hrecursion htype.isTag hmessage hspelled
      (.cons hpayload.noLarger (.cons (.str (Tree.length_lt_of_bytes hresult)) hle)) htags
  exact ⟨b, encode_ok.mpr ⟨hfields.state, hvalid, hlayer.layer, unprotected, hunprotected, parts,
    hwrite, hencoded⟩, hwithin⟩

include hread hw hr hc hd ht hb htake hall hrecursion htype hcontent htail hrewrites in
/-- **What was decoded is encoded, and decoded as what it was.** -/
theorem reencodes : k.Reencodes c unchanged := by
  intro data m hlength h e he
  obtain ⟨tags, htags, hcount, hwrite⟩ := encode_of_tagged htype he
  obtain ⟨⟨tp, tu, hlayer⟩, hsound, hdefined, hencodes⟩ :=
    encode_of_fromSlice hread hw hr hc hd htake hall hrecursion htype hcontent hrewrites hlength h
  obtain ⟨b, hencoded, hwithin⟩ := hencodes tags htags
  rw [hcount] at hwithin
  refine ⟨b, (hwrite m).trans hencoded, hwithin, fun hdata => ?_⟩
  obtain ⟨m', hslice, hsame, -, hlayer'⟩ := decode_encode hread hw hr hc ht hb hrecursion htype
    htail htags hencoded hlayer.sound hsound hdata
  obtain ⟨hprotected, hkept⟩ := hlayer.kept hlayer'
  obtain ⟨_, _, _, _, _, _, rest, -, -, hfields⟩ := fromSlice_reads h
  obtain ⟨_, _, _, _, _, _, rest', -, -, hfields'⟩ := fromSlice_reads hslice
  have hunchanged : m.Unchanged unchanged m' := {
    protectedRaw := hsame.protectedRaw
    protectedHeader := hprotected
    unprotectedHeader := hsame.unprotectedHeader.sameHeader hlayer.defined.unprotectedHeader
    payload := hsame.payload
    result := hsame.result
    recipients := hrewrites.kept hfields.recipients hfields'.recipients hdefined hsame.recipients }
  exact ⟨m', hslice, hunchanged,
    agree_of_kept hunchanged (hfields'.state.trans hfields.state.symm) hkept⟩

end Laws
end AuthType

/-! ### Encrypted messages -/

/-- The message `m'` is `m`, up to the spelling of unprotected values. -/
structure EncMessage.Unchanged (unchanged : ρ → ρ → Prop) (m m' : EncMessage ρ) : Prop where
  protectedRaw : m'.protectedRaw = m.protectedRaw
  protectedHeader : m'.protectedHeader = m.protectedHeader
  unprotectedHeader : SameHeader m.unprotectedHeader m'.unprotectedHeader
  payload : m'.payload = m.payload
  ciphertext : m'.ciphertext = m.ciphertext
  detached : m'.ciphertextDetached = m.ciphertextDetached
  recipients : unchanged m.recipients m'.recipients

namespace EncType

/-- No decryption tells the messages apart. -/
structure Agree (k : EncType ρ) (c : Cbor2) (m m' : EncMessage ρ) : Prop where
  prepareDecryption : ∀ alg nonceSize baseIv externalAad understood,
    k.prepareDecryptionWithCrit c m' alg nonceSize baseIv externalAad understood =
      k.prepareDecryptionWithCrit c m alg nonceSize baseIv externalAad understood
  decrypt : ∀ encryptor externalAad, ((k.decrypt c encryptor externalAad).run m').1 =
    ((k.decrypt c encryptor externalAad).run m).1
  decryptDetached : ∀ encryptor detachedCiphertext externalAad,
    ((k.decryptDetached c encryptor detachedCiphertext externalAad).run m').1 =
      ((k.decryptDetached c encryptor detachedCiphertext externalAad).run m).1

/-- What decrypting returns, without what it stores. -/
theorem fst_decrypt (k : EncType ρ) (encryptor : Encryptor) (externalAad : Option Bytes)
    (m : EncMessage ρ) : ((k.decrypt c encryptor externalAad).run m).1 = (do
      m.state.requireComplete s!"{k.name} must be decoded before decrypting"
      Except.failIf m.ciphertextDetached
        (.custom s!"{k.name} has detached ciphertext; use decrypt_detached")
      let context ← k.prepareDecryptionWithCrit c m encryptor.alg encryptor.nonceSize
        encryptor.baseIv externalAad encryptor.understoodCriticalHeaders
      encryptor.decrypt context.nonce m.ciphertext context.aad) := by
  rw [decrypt, Op.run_get_bind, Op.fst_run_lift_bind, Op.fst_run_lift_bind, Op.fst_run_lift_bind]
  simp only [Op.fst_run_lift_bind]
  exact bind_congr fun _ => bind_congr fun _ => bind_congr fun _ => bind_pure _

theorem fst_decryptDetached (k : EncType ρ) (encryptor : Encryptor)
    (detachedCiphertext : Bytes) (externalAad : Option Bytes) (m : EncMessage ρ) :
    ((k.decryptDetached c encryptor detachedCiphertext externalAad).run m).1 = (do
      m.state.requireComplete s!"{k.name} must be decoded before decrypting"
      Except.failIf (m.ciphertextDetached = false)
        (.custom s!"{k.name} carries embedded ciphertext; use decrypt")
      let context ← k.prepareDecryptionWithCrit c m encryptor.alg encryptor.nonceSize
        encryptor.baseIv externalAad encryptor.understoodCriticalHeaders
      encryptor.decrypt context.nonce detachedCiphertext context.aad) := by
  rw [decryptDetached, Op.run_get_bind, Op.fst_run_lift_bind, Op.fst_run_lift_bind,
    Op.fst_run_lift_bind]
  simp only [Op.fst_run_lift_bind]
  exact bind_congr fun _ => bind_congr fun _ => bind_congr fun _ => bind_pure _

/-- A message that was decoded agrees with what is left unchanged of it. -/
theorem agree_of_kept {k : EncType ρ} {unchanged : ρ → ρ → Prop} {m m' : EncMessage ρ}
    (h : m.Unchanged unchanged m') (hstate : m'.state = m.state)
    (hkept : LayerKept c m.protectedHeader m.unprotectedHeader m'.unprotectedHeader
      m.protectedRaw) : k.Agree c m m' := by
  have hcontext (alg : Option Label) (nonceSize : Nat) (baseIv externalAad : Option Bytes)
      (understood : List Label) :
      k.prepareDecryptionWithCrit c m' alg nonceSize baseIv externalAad understood =
        k.prepareDecryptionWithCrit c m alg nonceSize baseIv externalAad understood := by
    rw [prepareDecryptionWithCrit, prepareDecryptionWithCrit, hstate, h.protectedRaw,
      h.protectedHeader, validateLayer_ok.mpr hkept.layer, validateLayer_ok.mpr hkept.layer',
      hkept.checkProtectedAlg, hkept.nonceFromHeaderValues]
  constructor
  · exact hcontext
  · intro encryptor externalAad
    rw [fst_decrypt, fst_decrypt, hstate, h.detached, h.ciphertext]
    simp only [hcontext]
  · intro encryptor detachedCiphertext externalAad
    rw [fst_decryptDetached, fst_decryptDetached, hstate, h.detached]
    simp only [hcontext]

/-- The encoders of a type, with the number of tags that each writes. -/
def tagged (k : EncType ρ) (c : Cbor2) : List (Nat × (EncMessage ρ → Except Error Bytes)) :=
  [(1, k.toVec c), (2, k.toCwtVec c), (0, k.toUntaggedVec c)]

/-- The same for encrypted messages. -/
def Reencodes (k : EncType ρ) (c : Cbor2) (unchanged : ρ → ρ → Prop) : Prop :=
  ∀ data m, data.length < sliceBound → k.fromSlice c data = .ok m → ∀ e ∈ k.tagged c,
    ∃ b, e.2 m = .ok b ∧ (HasTags e.1 data → WithinDefaults b) ∧
      (WithinDefaults b →
        ∃ m', k.fromSlice c b = .ok m' ∧ m.Unchanged unchanged m' ∧ k.Agree c m m')

theorem encode_of_tagged {k : EncType ρ} {n : UInt64} {shape : List Tree → Prop}
    (h : k.OnWire n shape) {e : Nat × (EncMessage ρ → Except Error Bytes)}
    (hmem : e ∈ k.tagged c) : ∃ tags ∈ writtenTags n, tags.length = e.1 ∧
      ∀ m, e.2 m = k.encode c m (tagBytes tags) := by
  rw [tagged, List.mem_cons, List.mem_cons, List.mem_singleton] at hmem
  rcases hmem with rfl | rfl | rfl
  · refine ⟨[n], by simp [writtenTags], rfl, fun m => ?_⟩
    rw [← h.tagPrefix, ← toVec]
  · refine ⟨[61, n], by simp [writtenTags], rfl, fun m => ?_⟩
    rw [← h.cwtPrefix, ← toCwtVec]
  · exact ⟨[], by simp [writtenTags], rfl, fun m => rfl⟩

section Laws

variable {k : EncType ρ} (hread : c.ReadsItems) (hw : c.WritesValues) (hr : c.ReadsBack)
  (hc : c.ReadsValues) (hd : c.Describes) (ht : c.WritesTuples) (hb : c.ReadsByteStrings)
  (htake : c.TakesByteStrings) (hall : c.WritesEvery)
  (hrecursion : defaultMaxDepth < c.recursionLimit) {n : UInt64} {shape : List Tree → Prop}
  {sound defined : ρ → Prop} {same unchanged : ρ → ρ → Prop} (htype : k.OnWire n shape)
  (hcontent : ∀ {ciphertext rest},
    Strict.IsContent Strict.TakenForNull n.toNat (ciphertext :: rest) →
    Strict.IsBytesOrNull Strict.TakenForNull ciphertext)
  (htail : TailTravels k.validateRecipients k.validateDecoded k.writeRecipients
    k.readRecipients shape sound defined same)
  (hrewrites : TailRewrites c k.validateRecipients k.validateDecoded k.writeRecipients
    k.readRecipients sound defined same unchanged)

include hread hw hr hc hd htake hall hrecursion htype hcontent hrewrites in
/-- **What was decoded can be encoded.** -/
theorem encode_of_fromSlice {data : Bytes} {m : EncMessage ρ} (hlength : data.length < sliceBound)
    (h : k.fromSlice c data = .ok m) :
    (∃ tp tu, LayerHeld c tp tu m.protectedHeader m.unprotectedHeader m.protectedRaw) ∧
      sound m.recipients ∧ defined m.recipients ∧ ∀ tags ∈ writtenTags n, ∃ b,
        k.encode c m (tagBytes tags) = .ok b ∧ (HasTags tags.length data → WithinDefaults b) := by
  obtain ⟨body, w, tp, tu, tciphertext, rest, hbody, hitem, hfields⟩ := fromSlice_reads h
  rw [htype.tag] at hbody
  have hmessage := messageItem hread htype.isTag hlength hbody hitem
  obtain ⟨_, _, _, content, heq, hp, hu, hshape⟩ := hmessage.message
  cases heq
  have hchild {s : Tree} (hs : s ∈ tp :: tu :: tciphertext :: rest) :
      Accepted c s ∧ s.bytes.length < sliceBound :=
    ⟨hmessage.accepted.child hs, (Tree.length_lt_of_mem hs).trans hmessage.length⟩
  obtain ⟨htp, hshort⟩ := hchild (s := tp) (by simp)
  obtain ⟨htu, -⟩ := hchild (s := tu) (by simp)
  have hlayer := layerHeld hread hw hc hd hr.toEncodesCanonically htake hrecursion htp hshort htu hp
    hfields.protectedRaw hfields.unprotectedHeader hfields.protectedHeader hfields.buckets
  have hembedded := holdsBytes_of_optionByteBuf htake (hcontent hshape)
    (hchild (by simp)).1.wellFormed hfields.embedded
  obtain ⟨hvalid, hsound, hdefined, parts, vs, hwrite, hspells, hle⟩ :=
    hrewrites.written (fun s hs => hchild (by simp [hs])) hfields.recipients hfields.checked
  have hspelled : List.Forall₂ Part.Spells (payloadPart m.embedded :: parts)
      (serializedCiphertext m.embedded :: vs) :=
    .cons (payloadPart_spells m.embedded) hspells
  refine ⟨⟨tp, tu, hlayer⟩, hsound, hdefined, fun tags htags => ?_⟩
  obtain ⟨unprotected, b, hunprotected, hencoded, hwithin⟩ :=
    hlayer.encodes hw hall hrecursion htype.isTag hmessage hspelled
      (.cons hembedded.noLarger hle) htags
  exact ⟨b, encode_ok.mpr ⟨hfields.state, hvalid, hlayer.layer, unprotected, hunprotected, parts,
    hwrite, hencoded⟩, hwithin⟩

include hread hw hr hc hd ht hb htake hall hrecursion htype hcontent htail hrewrites in
/-- **What was decoded is encoded, and decoded as what it was.** -/
theorem reencodes : k.Reencodes c unchanged := by
  intro data m hlength h e he
  obtain ⟨tags, htags, hcount, hwrite⟩ := encode_of_tagged htype he
  obtain ⟨⟨tp, tu, hlayer⟩, hsound, hdefined, hencodes⟩ :=
    encode_of_fromSlice hread hw hr hc hd htake hall hrecursion htype hcontent hrewrites hlength h
  obtain ⟨b, hencoded, hwithin⟩ := hencodes tags htags
  rw [hcount] at hwithin
  refine ⟨b, (hwrite m).trans hencoded, hwithin, fun hdata => ?_⟩
  obtain ⟨m', hslice, hsame, -, hlayer'⟩ := decode_encode hread hw hr hc ht hb hrecursion htype
    htail htags hencoded hlayer.sound hsound hdata
  obtain ⟨hprotected, hkept⟩ := hlayer.kept hlayer'
  obtain ⟨_, _, _, _, _, rest, -, -, hfields⟩ := fromSlice_reads h
  obtain ⟨_, _, _, _, _, rest', -, -, hfields'⟩ := fromSlice_reads hslice
  have hembedded : m'.ciphertext = m.ciphertext := by
    -- a detached ciphertext was not read, so there is none to be lost
    rw [hsame.ciphertext, hfields.ciphertext, EncMessage.embedded]
    cases m.ciphertextDetached <;> rfl
  have hunchanged : m.Unchanged unchanged m' := {
    protectedRaw := hsame.protectedRaw
    protectedHeader := hprotected
    unprotectedHeader := hsame.unprotectedHeader.sameHeader hlayer.defined.unprotectedHeader
    payload := hsame.payload.trans hfields.payload.symm
    ciphertext := hembedded
    detached := hsame.detached
    recipients := hrewrites.kept hfields.recipients hfields'.recipients hdefined hsame.recipients }
  exact ⟨m', hslice, hunchanged,
    agree_of_kept hunchanged (hfields'.state.trans hfields.state.symm) hkept⟩

end Laws
end EncType
end Cose2
