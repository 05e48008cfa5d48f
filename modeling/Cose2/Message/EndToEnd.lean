import Cose2.CounterSignRoundTrip
import Cose2.Message.Preparation
import Cose2.Message.RoundTrip
import Cose2.Message.SignDecision
import Cose2.Nonce

/-! # From creation to verification

A message is created with one provider, encoded, decoded and verified with another.  The
creating side stores the encoding of the protected header it has prepared, so the
verifying side decodes that header as it is read (`Prepared`), and every check in front of the
primitive has the outcome that it had before.
-/
namespace Cose2

open Cbor Cbor2 Iana

variable {c : Cbor2} {ρ : Type}

/-! ### Prepared layers -/

/-- The protected bytes are the encoding of the header, which has the algorithm that was
asked for. -/
structure Prepared (c : Cbor2) (alg : Option Label) (p : Header) (raw : Bytes) : Prop where
  encoded : encodeProtected c p = .ok raw
  alg : ∀ a, alg = some a → p.alg = .ok (some a)

theorem PreparedHeaders.prepared {alg : Option Label} {kid : Option Bytes} {b b' : Buckets}
    {raw : Bytes} (h : (prepareHeaders c alg kid).run b = (.ok raw, b')) :
    Prepared c alg b'.protectedHeader raw := by
  refine ⟨?_, fun a ha => ((preparedHeaders h).algProtected a ha).1⟩
  obtain ⟨-, -, -, -, hraw⟩ := prepareHeaders_ok.mp h
  exact hraw

section Decoded

variable (hread : c.ReadsItems) (hw : c.WritesValues) (hr : c.ReadsBack) (hc : c.ReadsValues)
  (hd : c.Describes) (hrecursion : defaultMaxDepth < c.recursionLimit) {alg : Option Label}
  {p u p' u' : Header} {raw : Bytes}

include hw in
/-- What a sound layer encodes is not nested too deep. -/
theorem SoundLayer.depth_lt (h : SoundLayer c p u raw)
    (hrecursion : defaultMaxDepth < c.recursionLimit) (hraw : encodeProtected c p = .ok raw) :
    p.toValue.norm.toTree.depth < c.recursionLimit := by
  by_cases hempty : raw = []
  · subst hempty
    obtain rfl : p = ∅ := BTreeMap.ext (encodeProtected_nil.mp hraw)
    exact (Nat.zero_lt_succ _).trans_le hrecursion
  · have hdata := h.protectedLimits hempty
    rw [canonical_of_encodeProtected hw hempty hraw] at hdata
    exact hdata.of_encode.2.depth.trans_lt hrecursion

include hw hr hrecursion in
/-- The header that is decoded is the one that was prepared, as it is read. -/
theorem Prepared.decoded (h : Prepared c alg p raw) (hsound : SoundLayer c p u raw)
    (hlayer : LayerRead c p u p' u' raw) : p' = p.asRead := by
  have hasRead := decodeProtected_encodeProtected hw hr hrecursion hsound.protectedApart
    hsound.protectedLimits h.encoded
  exact Except.ok.inj (hlayer.decoded.symm.trans hasRead)

include hread hw hr hc hd hrecursion in
/-- The critical labels of a header are understood where it is read. -/
theorem Prepared.critUnderstood (h : Prepared c alg p raw) (hsound : SoundLayer c p u raw)
    (hlayer : LayerRead c p u p' u' raw) {understood : List Label}
    (hcrit : CritUnderstood c p understood) : p'.ensureCritUnderstood c understood = .ok () := by
  have hheader := h.decoded hw hr hrecursion hsound hlayer
  refine ensureCritUnderstood_iff.mpr ⟨hlayer.layer.buckets.protectedOk, ?_⟩
  obtain ⟨crit, hcrit, hall⟩ := hcrit
  rw [hheader]
  refine ⟨crit, Header.crit_asRead hcrit, fun labels hlabels label hmem => ?_⟩
  have hlabel := hall labels hlabels label hmem
  rw [LabelUnderstood] at hlabel ⊢
  split_ifs at hlabel ⊢
  · obtain ⟨signatures, hsignatures⟩ := hlabel
    exact Header.counterSignatures_asRead hread hw hr hc hd hrecursion hsignatures
      (hsound.writable hw ⟨raw, h.encoded, .inl rfl⟩) hsound.protectedApart
      (hsound.depth_lt hw hrecursion h.encoded)
  · exact hlabel

include hw hr hrecursion in
/-- The algorithm that was asked for is the one in effect. -/
theorem Prepared.algMatches (h : Prepared c alg p raw) (hsound : SoundLayer c p u raw)
    (hlayer : LayerRead c p u p' u' raw) : checkProtectedAlg p' u' alg = .ok () := by
  rw [checkProtectedAlg_ok]
  rintro a rfl
  refine ⟨some a, ?_, fun _ heq => (Option.some.inj heq).symm⟩
  rw [effectiveAlg, h.decoded hw hr hrecursion hsound hlayer, Except.bind_eq_ok]
  exact ⟨some a, CoseMap.getLabel_asRead (h.alg a rfl), rfl⟩

end Decoded

/-! ### Signatures and tags -/

/-- What one provider creates, the other accepts. -/
def Accepting (create : Bytes → Except Error Bytes) (check : Bytes → Bytes → Except Error Unit) :
    Prop :=
  ∀ structured result, create structured = .ok result → check structured result = .ok ()

namespace AuthType

open AuthMessage

variable {k : AuthType ρ} {alg : Option Label} {kid : Option Bytes}
  {create : Bytes → Except Error Bytes} {check : Bytes → Bytes → Except Error Unit}
  {externalAad : Option Bytes} {m₀ m : AuthMessage ρ} {payload : Bytes}

/-- The message holds what the provider created for the payload. -/
structure Created (k : AuthType ρ) (c : Cbor2) (alg : Option Label)
    (create : Bytes → Except Error Bytes) (externalAad : Option Bytes) (payload : Bytes)
    (m : AuthMessage ρ) : Prop where
  prepared : Prepared c alg m.protectedHeader m.protectedRaw
  created : ∃ structured,
    k.toBeAuthenticated c m.protectedRaw (externalAad.getD []) payload = .ok structured ∧
      create structured = .ok m.result

theorem prepareOwnHeaders_ok :
    (k.prepareOwnHeaders c alg kid).run m₀ = (.ok (), m) →
      Prepared c alg m.protectedHeader m.protectedRaw ∧ m.payload = m₀.payload := by
  simp only [prepareOwnHeaders, Op.run_bind_eq_ok, Op.run_get_eq_ok, Op.run_lift_eq_ok,
    Op.run_on_eq_ok, Op.run_modify_eq_ok]
  rintro ⟨_, _, ⟨rfl, rfl⟩, _, _, ⟨-, rfl⟩, raw, _, ⟨b, hprepare, rfl⟩, rfl⟩
  exact ⟨PreparedHeaders.prepared hprepare, rfl⟩

theorem complete_ok (h : (k.complete c alg kid create externalAad).run m₀ = (.ok (), m)) :
    ∃ payload, m₀.payload = some payload ∧ m.payload = some payload ∧
      k.Created c alg create externalAad payload m := by
  rw [complete] at h
  obtain ⟨_, m₁, hprepare, h⟩ := Op.run_bind_eq_ok.mp h
  simp only [Op.run_bind_eq_ok, Op.run_get_eq_ok, Op.run_lift_eq_ok, Op.run_modify_eq_ok] at h
  obtain ⟨_, _, ⟨rfl, rfl⟩, payload, _, ⟨hpayload, rfl⟩, structured, _, ⟨hstructured, rfl⟩,
    result, _, ⟨hresult, rfl⟩, rfl⟩ := h
  obtain ⟨hprepared, hkept⟩ := prepareOwnHeaders_ok hprepare
  have hsome := Except.ofOption_eq_ok.mp hpayload
  exact ⟨payload, hkept.symm.trans hsome, hsome, hprepared, structured, hstructured, hresult⟩

theorem completeDetached_ok
    (h : (k.completeDetached c alg kid create payload externalAad).run m₀ = (.ok (), m)) :
    m.payload = none ∧ k.Created c alg create externalAad payload m := by
  rw [completeDetached] at h
  obtain ⟨_, m₁, hprepare, h⟩ := Op.run_bind_eq_ok.mp h
  simp only [Op.run_bind_eq_ok, Op.run_get_eq_ok, Op.run_lift_eq_ok, Op.run_modify_eq_ok] at h
  obtain ⟨_, _, ⟨rfl, rfl⟩, structured, _, ⟨hstructured, rfl⟩, result, _, ⟨hresult, rfl⟩, rfl⟩ := h
  exact ⟨rfl, (prepareOwnHeaders_ok hprepare).1, structured, hstructured, hresult⟩

section Reading

variable (hread : c.ReadsItems) (hw : c.WritesValues) (hr : c.ReadsBack) (hc : c.ReadsValues)
  (hd : c.Describes) (hrecursion : defaultMaxDepth < c.recursionLimit)
  {understood : List Label} {m' : AuthMessage ρ}
include hread hw hr hc hd hrecursion

/-- What was created is accepted where it is read. -/
theorem Created.verifyPayload (h : k.Created c alg create externalAad payload m)
    (hsound : SoundLayer c m.protectedHeader m.unprotectedHeader m.protectedRaw)
    (hlayer : LayerRead c m.protectedHeader m.unprotectedHeader m'.protectedHeader
      m'.unprotectedHeader m.protectedRaw)
    (hraw : m'.protectedRaw = m.protectedRaw) (hresult : m'.result = m.result)
    (hcrit : CritUnderstood c m.protectedHeader understood) (haccepting : Accepting create check) :
    k.verifyPayload c m' understood alg check payload (externalAad.getD []) = .ok () := by
  obtain ⟨structured, hstructured, hcreated⟩ := h.created
  rw [AuthType.verifyPayload, Except.seq_eq_ok, Except.seq_eq_ok, Except.seq_eq_ok,
    Except.bind_eq_ok, validateLayer_ok, hraw, hresult]
  exact ⟨hlayer.layer, h.prepared.critUnderstood hread hw hr hc hd hrecursion hsound hlayer hcrit,
    h.prepared.algMatches hw hr hrecursion hsound hlayer, structured, hstructured,
    haccepting structured m.result hcreated⟩

end Reading

/-- A message that was created and encoded with one provider is decoded and verified with
another, if its layers and its recipients are sound, its encoding is within
the default limits, and its critical labels are understood. -/
structure EndToEnd (k : AuthType ρ) (c : Cbor2) (sound : ρ → Prop) : Prop where
  embedded : ∀ alg kid create check understood externalAad m₀ m b,
    (k.completeAndEncode c alg kid create externalAad).run m₀ = (.ok b, m) →
      SoundLayer c m.protectedHeader m.unprotectedHeader m.protectedRaw →
      sound m.recipients → WithinDefaults b → Accepting create check →
      CritUnderstood c m.protectedHeader understood →
        ∃ m', k.verifyAndDecode c understood alg check b externalAad = .ok m' ∧
          m'.payload = m₀.payload
  detached : ∀ alg kid create check understood payload externalAad m₀ m b,
    (k.completeDetachedAndEncode c alg kid create payload externalAad).run m₀ = (.ok b, m) →
      SoundLayer c m.protectedHeader m.unprotectedHeader m.protectedRaw →
      sound m.recipients → WithinDefaults b → Accepting create check →
      CritUnderstood c m.protectedHeader understood →
        ∃ m', k.verifyDetachedAndDecode c understood alg check b payload externalAad = .ok m' ∧
          m'.payload = none

section Laws

variable (hread : c.ReadsItems) (hw : c.WritesValues) (hr : c.ReadsBack) (hc : c.ReadsValues)
  (hd : c.Describes) (ht : c.WritesTuples) (hb : c.ReadsByteStrings)
  (hrecursion : defaultMaxDepth < c.recursionLimit) {shape : List Tree → Prop}
  {sound defined : ρ → Prop} {same : ρ → ρ → Prop} {n : UInt64} (htype : k.OnWire n shape)
  (htail : TailTravels k.validateRecipients k.validateDecoded k.writeRecipients
    k.readRecipients shape sound defined same)
include hread hw hr hc hd ht hb hrecursion htype htail

theorem endToEnd : k.EndToEnd c sound where
  embedded := by
    intro alg kid create check understood externalAad m₀ m b h hlayerSound hsound hdata haccepting
      hcrit
    simp only [completeAndEncode, Op.run_bind_eq_ok, Op.run_get_eq_ok, Op.run_lift_eq_ok] at h
    obtain ⟨_, m₁, hcomplete, _, _, ⟨rfl, rfl⟩, hvec, rfl⟩ := h
    obtain ⟨payload, hpayload₀, hpayload, hcreated⟩ := complete_ok hcomplete
    rw [toVec, htype.tagPrefix] at hvec
    obtain ⟨m', hslice, hsame, -, hlayer⟩ := decode_encode hread hw hr hc ht hb hrecursion htype
      htail (by simp [writtenTags]) hvec hlayerSound hsound hdata
    have hverify := hcreated.verifyPayload hread hw hr hc hd hrecursion hlayerSound hlayer
      hsame.protectedRaw hsame.result hcrit haccepting
    refine ⟨m', ?_, hsame.payload.trans (hpayload.trans hpayload₀.symm)⟩
    rw [verifyAndDecode, hslice, Except.ok_bind, Except.seq_eq_ok, verify, Except.seq_eq_ok,
      requireComplete_ok, Except.bind_eq_ok]
    refine ⟨⟨hsame.state, payload, ?_, hverify⟩, rfl⟩
    exact Except.ofOption_eq_ok.mpr (hsame.payload.trans hpayload)
  detached := by
    intro alg kid create check understood payload externalAad m₀ m b h hlayerSound hsound hdata
      haccepting hcrit
    simp only [completeDetachedAndEncode, Op.run_bind_eq_ok, Op.run_get_eq_ok,
      Op.run_lift_eq_ok] at h
    obtain ⟨_, m₁, hcomplete, _, _, ⟨rfl, rfl⟩, hvec, rfl⟩ := h
    obtain ⟨hpayload, hcreated⟩ := completeDetached_ok hcomplete
    rw [toVec, htype.tagPrefix] at hvec
    obtain ⟨m', hslice, hsame, -, hlayer⟩ := decode_encode hread hw hr hc ht hb hrecursion htype
      htail (by simp [writtenTags]) hvec hlayerSound hsound hdata
    have hverify := hcreated.verifyPayload hread hw hr hc hd hrecursion hlayerSound hlayer
      hsame.protectedRaw hsame.result hcrit haccepting
    have hnone := hsame.payload.trans hpayload
    refine ⟨m', ?_, hnone⟩
    rw [verifyDetachedAndDecode, hslice, Except.ok_bind, Except.seq_eq_ok, verifyDetached,
      Except.seq_eq_ok, Except.seq_eq_ok, requireComplete_ok, Except.failIf_eq_ok, hnone]
    exact ⟨⟨hsame.state, by rintro ⟨⟩, hverify⟩, rfl⟩

end Laws
end AuthType

/-! ### Nonces -/

section Nonces

variable {p u p' u' : Header} (hp : HeaderRead p p') (hu : HeaderRead u u')
include hp hu

/-- A label that has a byte string, or no value, has the same in a layer as it is read. -/
theorem layerValue_same {label : Label} {o : Option Bytes}
    (h : layerValue p u label = o.map Value.bytes) :
    layerValue p' u' label = o.map Value.bytes := by
  have hbytes {h h' : Header} {b : Bytes} (hread : HeaderRead h h')
      (hsome : h.get label = some (.bytes b)) : h'.get label = some (.bytes b) := by
    have hsettled := hread.settled label
    rw [hsome, Option.map_some, Option.map_eq_some_iff] at hsettled
    obtain ⟨v, hv, hsettle⟩ := hsettled
    have hdefined : v.Defined := (hread.reduced _ (BTreeMap.get_eq_some.mp hv)).defined
    rw [hv, Value.eq_bytes_of_norm (hdefined.settle.symm.trans hsettle)]
  have hnone {h h' : Header} (hread : HeaderRead h h') (hno : h.get label = none) :
      h'.get label = none := by
    have hsettled := hread.settled label
    rwa [hno, Option.map_none, Option.map_eq_none_iff] at hsettled
  cases o with
  | none =>
    obtain ⟨hpnone, hunone⟩ := layerValue_eq_none.mp h
    exact layerValue_eq_none.mpr ⟨hnone hp hpnone, hnone hu hunone⟩
  | some b =>
    rw [layerValue, Option.map_some, Option.or_eq_some_iff] at h ⊢
    rcases h with hsome | ⟨hno, hsome⟩
    · exact .inl (hbytes hp hsome)
    · exact .inr ⟨hnone hp hno, hbytes hu hsome⟩

/-- A layer has the same nonces as it is read. -/
theorem DerivesNonce.same {nonceSize : Nat} {baseIv : Option Bytes} {nonce : Bytes}
    (h : DerivesNonce p u nonceSize baseIv nonce) : DerivesNonce p' u' nonceSize baseIv nonce := by
  rcases h with ⟨hiv, hpart, hsize⟩ | ⟨hiv, hpart, hbase, hsize, hfit⟩
  · exact .iv (layerValue_same hp hu (o := some nonce) hiv)
      (layerValue_same hp hu (o := none) hpart) hsize
  · exact .partialIv (layerValue_same hp hu (o := none) hiv)
      (layerValue_same hp hu (o := some _) hpart) hbase hsize hfit

end Nonces

/-! ### Ciphertexts -/

/-- The encryptors have the same parameters, and the second one decrypts what the first one
encrypts. -/
structure Encryptor.Pair (encryptor decryptor : Encryptor) : Prop where
  alg : decryptor.alg = encryptor.alg
  nonceSize : decryptor.nonceSize = encryptor.nonceSize
  baseIv : decryptor.baseIv = encryptor.baseIv
  decrypts : ∀ nonce plaintext aad ciphertext,
    encryptor.encrypt nonce plaintext aad = .ok ciphertext →
      decryptor.decrypt nonce ciphertext aad = .ok plaintext

namespace EncType

open EncMessage

variable {k : EncType ρ} {encryptor decryptor : Encryptor} {externalAad : Option Bytes}
  {m₀ m : EncMessage ρ} {context : EncryptionContext}

/-- The headers of the message make the context, which the preparation of `m₀` returned. -/
structure Prepares (k : EncType ρ) (c : Cbor2) (encryptor : Encryptor)
    (externalAad : Option Bytes) (m₀ m : EncMessage ρ) (context : EncryptionContext) : Prop where
  prepared : Prepared c encryptor.alg m.protectedHeader m.protectedRaw
  returned : ((k.prepareEncryption c encryptor.alg encryptor.kid encryptor.nonceSize
    encryptor.baseIv externalAad).run m₀).1 = .ok context
  nonce : DerivesNonce m.protectedHeader m.unprotectedHeader encryptor.nonceSize encryptor.baseIv
    context.nonce
  aad : k.toBeEncrypted c m.protectedRaw (externalAad.getD []) = .ok context.aad

theorem prepareEncryption_ok (h : (k.prepareEncryption c encryptor.alg encryptor.kid
    encryptor.nonceSize encryptor.baseIv externalAad).run m₀ = (.ok context, m)) :
    k.Prepares c encryptor externalAad m₀ m context ∧ m.payload = m₀.payload ∧
      m.ciphertextDetached = false := by
  have hreturned := congrArg Prod.fst h
  simp only [prepareEncryption, Op.run_bind_eq_ok, Op.run_get_eq_ok, Op.run_lift_eq_ok,
    Op.run_on_eq_ok, Op.run_modify_eq_ok, Op.run_pure_eq_ok] at h
  obtain ⟨_, _, ⟨rfl, rfl⟩, _, _, ⟨-, rfl⟩, raw, _, ⟨b, hprepare, rfl⟩, _, _, ⟨rfl, rfl⟩, _, _,
    ⟨-, rfl⟩, nonce, _, ⟨hnonce, rfl⟩, aad, _, ⟨haad, rfl⟩, _, _, rfl, rfl, rfl⟩ := h
  exact ⟨⟨PreparedHeaders.prepared hprepare, hreturned, nonceFromHeaderValues_eq_ok.mp hnonce,
    haad⟩, rfl, rfl⟩

theorem encrypt_ok (h : (k.encrypt c encryptor externalAad).run m₀ = (.ok (), m)) :
    ∃ context plaintext, k.Prepares c encryptor externalAad m₀ m context ∧
      m₀.payload = some plaintext ∧ m.ciphertextDetached = false ∧
      encryptor.encrypt context.nonce plaintext context.aad = .ok m.ciphertext := by
  rw [encrypt] at h
  obtain ⟨context, m₁, hprepare, h⟩ := Op.run_bind_eq_ok.mp h
  simp only [Op.run_bind_eq_ok, Op.run_get_eq_ok, Op.run_lift_eq_ok, Op.run_modify_eq_ok] at h
  obtain ⟨_, _, ⟨rfl, rfl⟩, plaintext, _, ⟨hplaintext, rfl⟩, ciphertext, _, ⟨hencrypt, rfl⟩,
    rfl⟩ := h
  obtain ⟨⟨hprepared, hreturned, hnonce, haad⟩, hpayload, hembedded⟩ :=
    prepareEncryption_ok hprepare
  exact ⟨context, plaintext, ⟨hprepared, hreturned, hnonce, haad⟩,
    hpayload.symm.trans (Except.ofOption_eq_ok.mp hplaintext), hembedded, hencrypt⟩

section Reading

variable (hread : c.ReadsItems) (hw : c.WritesValues) (hr : c.ReadsBack) (hc : c.ReadsValues)
  (hd : c.Describes) (hrecursion : defaultMaxDepth < c.recursionLimit) {m' : EncMessage ρ}
include hread hw hr hc hd hrecursion

/-- The context is made again where the message is read. -/
theorem Prepares.prepareDecryption (h : k.Prepares c encryptor externalAad m₀ m context)
    (hsound : SoundLayer c m.protectedHeader m.unprotectedHeader m.protectedRaw)
    (hlayer : LayerRead c m.protectedHeader m.unprotectedHeader m'.protectedHeader
      m'.unprotectedHeader m.protectedRaw)
    (hstate : m'.state = .complete) (hraw : m'.protectedRaw = m.protectedRaw)
    (hpair : encryptor.Pair decryptor)
    (hcrit : CritUnderstood c m.protectedHeader decryptor.understoodCriticalHeaders) :
    k.prepareDecryptionWithCrit c m' decryptor.alg decryptor.nonceSize decryptor.baseIv
      externalAad decryptor.understoodCriticalHeaders = .ok context := by
  rw [prepareDecryptionWithCrit, Except.seq_eq_ok, Except.seq_eq_ok, Except.seq_eq_ok,
    Except.seq_eq_ok, Except.bind_eq_ok, requireComplete_ok, validateLayer_ok, hpair.alg,
    hpair.nonceSize, hpair.baseIv, hraw]
  refine ⟨hstate, hlayer.layer,
    h.prepared.critUnderstood hread hw hr hc hd hrecursion hsound hlayer hcrit,
    h.prepared.algMatches hw hr hrecursion hsound hlayer, context.nonce, ?_, ?_⟩
  · exact nonceFromHeaderValues_eq_ok.mpr
      (h.nonce.same hlayer.protectedRead hlayer.unprotectedRead)
  · rw [h.aad]
    rfl

end Reading

/-- A decryption with the context of the message. -/
theorem decrypt_run {plaintext : Bytes} (hstate : m.state = .complete)
    (hembedded : m.ciphertextDetached = false)
    (hcontext : k.prepareDecryptionWithCrit c m decryptor.alg decryptor.nonceSize
      decryptor.baseIv externalAad decryptor.understoodCriticalHeaders = .ok context)
    (hdecrypt : decryptor.decrypt context.nonce m.ciphertext context.aad = .ok plaintext) :
    (k.decrypt c decryptor externalAad).run m =
      (.ok plaintext, { m with payload := some plaintext }) := by
  simp only [decrypt, Op.run_bind_eq_ok, Op.run_get_eq_ok, Op.run_lift_eq_ok, Op.run_modify_eq_ok,
    Op.run_pure_eq_ok]
  refine ⟨m, m, ⟨rfl, rfl⟩, (), m, ⟨requireComplete_ok.mpr hstate, rfl⟩, (), m, ⟨?_, rfl⟩,
    context, m, ⟨hcontext, rfl⟩, plaintext, m, ⟨hdecrypt, rfl⟩, (), _, rfl, rfl, rfl⟩
  rw [Except.failIf_eq_ok, hembedded]
  exact Bool.false_ne_true

theorem decryptDetached_run {ciphertext plaintext : Bytes} (hstate : m.state = .complete)
    (hdetached : m.ciphertextDetached = true)
    (hcontext : k.prepareDecryptionWithCrit c m decryptor.alg decryptor.nonceSize
      decryptor.baseIv externalAad decryptor.understoodCriticalHeaders = .ok context)
    (hdecrypt : decryptor.decrypt context.nonce ciphertext context.aad = .ok plaintext) :
    (k.decryptDetached c decryptor ciphertext externalAad).run m =
      (.ok plaintext, { m with ciphertext, payload := some plaintext }) := by
  simp only [decryptDetached, Op.run_bind_eq_ok, Op.run_get_eq_ok, Op.run_lift_eq_ok,
    Op.run_modify_eq_ok, Op.run_pure_eq_ok]
  refine ⟨m, m, ⟨rfl, rfl⟩, (), m, ⟨requireComplete_ok.mpr hstate, rfl⟩, (), m, ⟨?_, rfl⟩,
    context, m, ⟨hcontext, rfl⟩, plaintext, m, ⟨hdecrypt, rfl⟩, (), _, rfl, rfl, rfl⟩
  rw [Except.failIf_eq_ok, hdetached]
  rintro ⟨⟩

/-- What is read: the plaintext, with the context that the preparation of `m₀` returned. -/
structure Restores (k : EncType ρ) (c : Cbor2) (encryptor decryptor : Encryptor)
    (externalAad : Option Bytes) (m₀ : EncMessage ρ) (b : Bytes) (m' : EncMessage ρ) : Prop where
  payload : m'.payload = m₀.payload
  context : ∃ context decoded, ((k.prepareEncryption c encryptor.alg encryptor.kid
      encryptor.nonceSize encryptor.baseIv externalAad).run m₀).1 = .ok context ∧
    k.fromSlice c b = .ok decoded ∧
    k.prepareDecryptionWithCrit c decoded decryptor.alg decryptor.nonceSize decryptor.baseIv
      externalAad decryptor.understoodCriticalHeaders = .ok context

/-- A message that was encrypted and encoded with one provider is decoded and decrypted with
another. -/
structure EndToEnd (k : EncType ρ) (c : Cbor2) (sound : ρ → Prop) : Prop where
  embedded : ∀ encryptor decryptor externalAad m₀ m b,
    (k.encryptAndEncode c encryptor externalAad).run m₀ = (.ok b, m) →
      SoundLayer c m.protectedHeader m.unprotectedHeader m.protectedRaw →
      sound m.recipients → WithinDefaults b → encryptor.Pair decryptor →
      CritUnderstood c m.protectedHeader decryptor.understoodCriticalHeaders →
        ∃ m', k.decryptAndDecode c decryptor b externalAad = .ok m' ∧
          k.Restores c encryptor decryptor externalAad m₀ b m'
  detached : ∀ encryptor decryptor externalAad m₀ m b ciphertext,
    (k.encryptDetachedAndEncode c encryptor externalAad).run m₀ = (.ok (b, ciphertext), m) →
      SoundLayer c m.protectedHeader m.unprotectedHeader m.protectedRaw →
      sound m.recipients → WithinDefaults b → encryptor.Pair decryptor →
      CritUnderstood c m.protectedHeader decryptor.understoodCriticalHeaders →
        ∃ m', k.decryptDetachedAndDecode c decryptor b ciphertext externalAad = .ok m' ∧
          k.Restores c encryptor decryptor externalAad m₀ b m'

section Laws

variable (hread : c.ReadsItems) (hw : c.WritesValues) (hr : c.ReadsBack) (hc : c.ReadsValues)
  (hd : c.Describes) (ht : c.WritesTuples) (hb : c.ReadsByteStrings)
  (hrecursion : defaultMaxDepth < c.recursionLimit) {shape : List Tree → Prop}
  {sound defined : ρ → Prop} {same : ρ → ρ → Prop} {n : UInt64} (htype : k.OnWire n shape)
  (htail : TailTravels k.validateRecipients k.validateDecoded k.writeRecipients
    k.readRecipients shape sound defined same)
include hread hw hr hc hd ht hb hrecursion htype htail

theorem endToEnd : k.EndToEnd c sound where
  embedded := by
    intro encryptor decryptor externalAad m₀ m b h hlayerSound hsound hdata hpair hcrit
    simp only [encryptAndEncode, Op.run_bind_eq_ok, Op.run_get_eq_ok, Op.run_lift_eq_ok] at h
    obtain ⟨_, m₁, hencrypt, _, _, ⟨rfl, rfl⟩, hvec, rfl⟩ := h
    obtain ⟨context, plaintext, hprepares, hplaintext, hembedded, hciphertext⟩ :=
      encrypt_ok hencrypt
    rw [toVec, htype.tagPrefix] at hvec
    obtain ⟨m', hslice, hsame, -, hlayer⟩ := decode_encode hread hw hr hc ht hb hrecursion htype
      htail (by simp [writtenTags]) hvec hlayerSound hsound hdata
    have hcontext := hprepares.prepareDecryption hread hw hr hc hd hrecursion hlayerSound hlayer
      hsame.state hsame.protectedRaw hpair hcrit
    have hkept : m'.ciphertext = m₁.ciphertext := by
      rw [hsame.ciphertext, hembedded]
      rfl
    have hdecrypt := decrypt_run hsame.state (hsame.detached.trans hembedded) hcontext
      (hkept ▸ hpair.decrypts _ _ _ _ hciphertext)
    refine ⟨{ m' with payload := some plaintext }, ?_, hplaintext.symm, context, m',
      hprepares.returned, hslice, hcontext⟩
    rw [decryptAndDecode, hslice, Except.ok_bind, hdecrypt]
    rfl
  detached := by
    intro encryptor decryptor externalAad m₀ m b ciphertext h hlayerSound hsound hdata hpair hcrit
    simp only [encryptDetachedAndEncode, encryptDetached, Op.run_bind_eq_ok, Op.run_get_eq_ok,
      Op.run_lift_eq_ok, Op.run_modify_eq_ok, Op.run_pure_eq_ok] at h
    obtain ⟨_, _, ⟨_, m₁, hencrypt, _, _, rfl, _, _, ⟨rfl, rfl⟩, rfl, rfl⟩, _, _, ⟨rfl, rfl⟩,
      data, _, ⟨hvec, rfl⟩, _, _, rfl, hreturned, rfl⟩ := h
    obtain ⟨rfl, rfl⟩ := Prod.mk.inj hreturned
    obtain ⟨context, plaintext, hprepares, hplaintext, -, hciphertext⟩ := encrypt_ok hencrypt
    rw [toVec, htype.tagPrefix] at hvec
    obtain ⟨m', hslice, hsame, -, hlayer⟩ := decode_encode hread hw hr hc ht hb hrecursion htype
      htail (by simp [writtenTags]) hvec hlayerSound hsound hdata
    have hcontext := hprepares.prepareDecryption hread hw hr hc hd hrecursion hlayerSound hlayer
      hsame.state hsame.protectedRaw hpair hcrit
    have hdecrypt := decryptDetached_run hsame.state hsame.detached hcontext
      (hpair.decrypts _ _ _ _ hciphertext)
    refine ⟨{ m' with ciphertext := m₁.ciphertext, payload := some plaintext }, ?_,
      hplaintext.symm, context, m', hprepares.returned, hslice, hcontext⟩
    rw [decryptDetachedAndDecode, hslice, Except.ok_bind, hdecrypt]
    rfl

end Laws
end EncType

end Cose2
