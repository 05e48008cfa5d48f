import Cose2.Layer
import Cose2.Message.Encrypted
import Cose2.Message.Sign

/-! # What a successful verification establishes

Seven types verify or decrypt, most of them in two forms, and each form repeats the
same checks in front of the provider's primitive.  `VerifySound` says of all of them
what has been checked when they succeed.  The message is an arbitrary value, so its
public fields may have been changed in any way since it was made.
-/
namespace Cose2

open Cbor

variable {ρ : Type} {c : Cbor2}

/-! ### Layers -/

/-- The checks of a layer.  `Same` is what ties the protected bytes to the protected
header. -/
structure LayerVerified (Same : Bytes → Header → Prop) (p u : Header) (raw : Bytes)
    (understood : List Label) (alg : Option Label) : Prop where
  buckets : BucketsOk p u
  same : Same raw p
  crit : Understood p understood
  alg : AlgMatches p u alg

/-- The protected bytes decode to a header with the encoding of the protected header. -/
def DecodesAlike (c : Cbor2) (raw : Bytes) (p : Header) : Prop :=
  ∃ decoded current, decodeProtected c raw = .ok decoded ∧
    encodeProtected c p = .ok current ∧ encodeProtected c decoded = .ok current

section Statements

variable (c) (Same : Bytes → Header → Prop)

/-- A signature or tag has been accepted for a payload. -/
structure AuthType.Verified (k : AuthType ρ) (m : AuthMessage ρ) (understood : List Label)
    (alg : Option Label) (check : Bytes → Bytes → Except Error Unit) (payload : Bytes)
    (externalAad : Option Bytes) : Prop where
  complete : m.state = .complete
  layer : LayerVerified Same m.protectedHeader m.unprotectedHeader m.protectedRaw understood alg
  accepted : ∃ structured,
    k.toBeAuthenticated c m.protectedRaw (externalAad.getD []) payload = .ok structured ∧
      check structured m.result = .ok ()

/-- A ciphertext has been decrypted. -/
structure EncType.Verified (k : EncType ρ) (m : EncMessage ρ) (encryptor : Encryptor)
    (ciphertext : Bytes) (externalAad : Option Bytes) (plaintext : Bytes) : Prop where
  complete : m.state = .complete
  layer : LayerVerified Same m.protectedHeader m.unprotectedHeader m.protectedRaw
    encryptor.understoodCriticalHeaders encryptor.alg
  accepted : ∃ nonce structured,
    nonceFromHeaderValues m.protectedHeader m.unprotectedHeader encryptor.nonceSize
      encryptor.baseIv = .ok nonce ∧
    k.toBeEncrypted c m.protectedRaw (externalAad.getD []) = .ok structured ∧
    encryptor.decrypt nonce ciphertext structured = .ok plaintext

/-- A signature slot has been accepted by one of the verifiers. -/
structure SignMessage.SlotVerified (m : SignMessage) (verifiers : List Verifier)
    (payload : Bytes) (externalAad : Option Bytes) (s : Signature) : Prop where
  buckets : BucketsOk s.protectedHeader s.unprotectedHeader
  same : Same s.protectedRaw s.protectedHeader
  accepted : ∃ verifier ∈ verifiers,
    Understood m.protectedHeader verifier.understoodCriticalHeaders ∧
    Understood s.protectedHeader verifier.understoodCriticalHeaders ∧
    AlgMatches s.protectedHeader s.unprotectedHeader verifier.alg ∧
    ∃ structured, SignMessage.toBeSigned c m.protectedRaw s.protectedRaw
      (externalAad.getD []) payload = .ok structured ∧
      verifier.verify structured s.signature = .ok ()

/-- Every slot of a message has been accepted. -/
structure SignMessage.Verified (m : SignMessage) (verifiers : List Verifier) (payload : Bytes)
    (externalAad : Option Bytes) : Prop where
  complete : m.state = .complete
  signed : m.signatures ≠ []
  buckets : BucketsOk m.protectedHeader m.unprotectedHeader
  same : Same m.protectedRaw m.protectedHeader
  slots : ∀ s ∈ m.signatures, m.SlotVerified c Same verifiers payload externalAad s

/-- A countersignature has been accepted. -/
structure CounterSignature.Verified (m : CounterSignature) (verifier : Verifier)
    (bodyProtected payload : Bytes) (externalAad : Option Bytes) : Prop where
  complete : m.state = .complete
  layer : LayerVerified Same m.protectedHeader m.unprotectedHeader m.protectedRaw
    verifier.understoodCriticalHeaders verifier.alg
  accepted : ∃ structured, CounterSignature.toBeSigned c bodyProtected m.protectedRaw
    (externalAad.getD []) payload = .ok structured ∧
      verifier.verify structured m.signature = .ok ()

/-- What every verification and decryption has checked when it succeeds. -/
structure VerifySound : Prop where
  sign1Embedded : ∀ m (v : Verifier) aad, Sign1Message.verify c m v aad = .ok () →
    ∃ payload, m.payload = some payload ∧
      sign1.Verified c Same m v.understoodCriticalHeaders v.alg v.verify payload aad
  sign1Detached : ∀ m (v : Verifier) payload aad,
    Sign1Message.verifyDetached c m v payload aad = .ok () → m.payload = none ∧
      sign1.Verified c Same m v.understoodCriticalHeaders v.alg v.verify payload aad
  mac0Embedded : ∀ m (v : Macer) aad, Mac0Message.verify c m v aad = .ok () →
    ∃ payload, m.payload = some payload ∧
      mac0.Verified c Same m v.understoodCriticalHeaders v.alg v.macVerify payload aad
  mac0Detached : ∀ m (v : Macer) payload aad,
    Mac0Message.verifyDetached c m v payload aad = .ok () → m.payload = none ∧
      mac0.Verified c Same m v.understoodCriticalHeaders v.alg v.macVerify payload aad
  macEmbedded : ∀ m (v : Macer) aad, MacMessage.verify c m v aad = .ok () →
    ∃ payload, m.payload = some payload ∧
      (mac c).Verified c Same m v.understoodCriticalHeaders v.alg v.macVerify payload aad
  macDetached : ∀ m (v : Macer) payload aad,
    MacMessage.verifyDetached c m v payload aad = .ok () → m.payload = none ∧
      (mac c).Verified c Same m v.understoodCriticalHeaders v.alg v.macVerify payload aad
  signEmbedded : ∀ (m : SignMessage) vs aad, m.verify c vs aad = .ok () →
    ∃ payload, m.payload = some payload ∧ m.Verified c Same vs payload aad
  signDetached : ∀ (m : SignMessage) vs payload aad,
    m.verifyDetached c vs payload aad = .ok () →
      m.payload = none ∧ m.Verified c Same vs payload aad
  counterSign : ∀ (m : CounterSignature) v body payload aad,
    m.verify c v body payload aad = .ok () → m.Verified c Same v body payload aad
  encrypt0Embedded : ∀ m (e : Encryptor) aad plaintext,
    ((Encrypt0Message.decrypt c e aad).run m).1 = .ok plaintext →
      m.ciphertextDetached = false ∧
        encrypt0.Verified c Same m e m.ciphertext aad plaintext
  encrypt0Detached : ∀ m (e : Encryptor) ciphertext aad plaintext,
    ((Encrypt0Message.decryptDetached c e ciphertext aad).run m).1 = .ok plaintext →
      m.ciphertextDetached = true ∧ encrypt0.Verified c Same m e ciphertext aad plaintext
  encryptEmbedded : ∀ m (e : Encryptor) aad plaintext,
    ((EncryptMessage.decrypt c e aad).run m).1 = .ok plaintext →
      m.ciphertextDetached = false ∧
        (encrypt c).Verified c Same m e m.ciphertext aad plaintext
  encryptDetached : ∀ m (e : Encryptor) ciphertext aad plaintext,
    ((EncryptMessage.decryptDetached c e ciphertext aad).run m).1 = .ok plaintext →
      m.ciphertextDetached = true ∧ (encrypt c).Verified c Same m e ciphertext aad plaintext

end Statements

/-! ### Signatures and tags -/

/-- The three checks that stand in front of every primitive. -/
theorem layerVerified_of_ok {p u : Header} {raw : Bytes} {understood : List Label}
    {alg : Option Label} (hlayer : validateLayer c p u raw = .ok ())
    (hcrit : p.ensureCritUnderstood c understood = .ok ())
    (halg : checkProtectedAlg p u alg = .ok ()) :
    LayerVerified (DenotesHeader c) p u raw understood alg := by
  obtain ⟨hbuckets, hdenotes⟩ := validateLayer_ok.mp hlayer
  exact ⟨hbuckets, hdenotes, ensureCritUnderstood_ok hcrit, checkProtectedAlg_ok.mp halg⟩

namespace AuthType

variable {k : AuthType ρ} {m : AuthMessage ρ} {understood : List Label} {alg : Option Label}
  {check : Bytes → Bytes → Except Error Unit} {externalAad : Option Bytes}

theorem verifyPayload_ok {payload : Bytes} (hstate : m.state = .complete)
    (h : k.verifyPayload c m understood alg check payload (externalAad.getD []) = .ok ()) :
    k.Verified c (DenotesHeader c) m understood alg check payload externalAad := by
  obtain ⟨hlayer, h⟩ := Except.seq_eq_ok.mp h
  obtain ⟨hcrit, h⟩ := Except.seq_eq_ok.mp h
  obtain ⟨halg, h⟩ := Except.seq_eq_ok.mp h
  obtain ⟨structured, hstructured, hcheck⟩ := Except.bind_eq_ok.mp h
  exact ⟨hstate, layerVerified_of_ok hlayer hcrit halg, structured, hstructured, hcheck⟩

theorem verify_ok (h : k.verify c m understood alg check externalAad = .ok ()) :
    ∃ payload, m.payload = some payload ∧
      k.Verified c (DenotesHeader c) m understood alg check payload externalAad := by
  obtain ⟨hstate, h⟩ := Except.seq_eq_ok.mp h
  obtain ⟨payload, hpayload, h⟩ := Except.bind_eq_ok.mp h
  exact ⟨payload, Except.ofOption_eq_ok.mp hpayload,
    verifyPayload_ok (requireComplete_ok.mp hstate) h⟩

theorem verifyDetached_ok {payload : Bytes}
    (h : k.verifyDetached c m understood alg check payload externalAad = .ok ()) :
    m.payload = none ∧
      k.Verified c (DenotesHeader c) m understood alg check payload externalAad := by
  obtain ⟨hstate, h⟩ := Except.seq_eq_ok.mp h
  obtain ⟨hpayload, h⟩ := Except.seq_eq_ok.mp h
  exact ⟨by simpa using hpayload, verifyPayload_ok (requireComplete_ok.mp hstate) h⟩

end AuthType

theorem CounterSignature.verify_ok {m : CounterSignature} {verifier : Verifier}
    {bodyProtected payload : Bytes} {externalAad : Option Bytes}
    (h : m.verify c verifier bodyProtected payload externalAad = .ok ()) :
    m.Verified c (DenotesHeader c) verifier bodyProtected payload externalAad := by
  obtain ⟨hstate, h⟩ := Except.seq_eq_ok.mp h
  obtain ⟨hlayer, h⟩ := Except.seq_eq_ok.mp h
  obtain ⟨hcrit, h⟩ := Except.seq_eq_ok.mp h
  obtain ⟨halg, h⟩ := Except.seq_eq_ok.mp h
  obtain ⟨structured, hstructured, hcheck⟩ := Except.bind_eq_ok.mp h
  exact ⟨requireComplete_ok.mp hstate, layerVerified_of_ok hlayer hcrit halg, structured,
    hstructured, hcheck⟩

/-! ### Signature slots -/

namespace SignMessage

variable {m : SignMessage} {verifiers : List Verifier} {externalAad : Option Bytes}

/-- When the candidates succeed, one of them has accepted. -/
theorem tryVerifiers_ok {s : Signature} {structured : Bytes} {e : Error}
    (h : m.tryVerifiers c s structured verifiers (.error e) = .ok ()) :
    ∃ verifier ∈ verifiers, m.tryVerifier c s structured verifier = .ok () := by
  induction verifiers generalizing e with
  | nil => cases h
  | cons verifier verifiers ih =>
    rw [tryVerifiers] at h
    cases hone : m.tryVerifier c s structured verifier with
    | ok _ => exact ⟨verifier, List.mem_cons_self, hone⟩
    | error e =>
      rw [hone] at h
      obtain ⟨v, hv, hok⟩ := ih h
      exact ⟨v, List.mem_cons_of_mem _ hv, hok⟩

theorem mem_of_mem_candidates {kid : Option Bytes} {verifier : Verifier}
    (h : verifier ∈ candidates kid verifiers) : verifier ∈ verifiers := by
  obtain ⟨rank, -, hmem⟩ := List.mem_flatMap.mp h
  exact (List.mem_filter.mp hmem).1

theorem verifySlot_ok {payload : Bytes} {s : Signature}
    (h : m.verifySlot c verifiers payload (externalAad.getD []) s = .ok ()) :
    m.SlotVerified c (DenotesHeader c) verifiers payload externalAad s := by
  obtain ⟨hlayer, h⟩ := Except.seq_eq_ok.mp h
  obtain ⟨kid, -, h⟩ := Except.bind_eq_ok.mp h
  obtain ⟨structured, hstructured, h⟩ := Except.bind_eq_ok.mp h
  obtain ⟨verifier, hmem, htry⟩ := tryVerifiers_ok h
  obtain ⟨hbody, htry⟩ := Except.seq_eq_ok.mp htry
  obtain ⟨hslot, htry⟩ := Except.seq_eq_ok.mp htry
  obtain ⟨halg, hverify⟩ := Except.seq_eq_ok.mp htry
  obtain ⟨hbuckets, hdenotes⟩ := validateLayer_ok.mp hlayer
  exact ⟨hbuckets, hdenotes, verifier, mem_of_mem_candidates hmem,
    ensureCritUnderstood_ok hbody, ensureCritUnderstood_ok hslot, checkProtectedAlg_ok.mp halg,
    structured, hstructured, hverify⟩

theorem verifyPayload_ok {payload : Bytes}
    (h : m.verifyPayload c verifiers payload (externalAad.getD []) = .ok ()) :
    m.Verified c (DenotesHeader c) verifiers payload externalAad := by
  obtain ⟨hstate, h⟩ := Except.seq_eq_ok.mp h
  obtain ⟨-, h⟩ := Except.seq_eq_ok.mp h
  obtain ⟨hsigned, h⟩ := Except.seq_eq_ok.mp h
  obtain ⟨hlayer, hslots⟩ := Except.seq_eq_ok.mp h
  obtain ⟨hbuckets, hdenotes⟩ := validateLayer_ok.mp hlayer
  exact ⟨requireComplete_ok.mp hstate, by simpa using hsigned, hbuckets, hdenotes,
    fun s hs => verifySlot_ok (Except.forM_eq_ok.mp hslots s hs)⟩

theorem verify_ok (h : m.verify c verifiers externalAad = .ok ()) :
    ∃ payload, m.payload = some payload ∧
      m.Verified c (DenotesHeader c) verifiers payload externalAad := by
  obtain ⟨payload, hpayload, h⟩ := Except.bind_eq_ok.mp h
  exact ⟨payload, Except.ofOption_eq_ok.mp hpayload, verifyPayload_ok h⟩

theorem verifyDetached_ok {payload : Bytes}
    (h : m.verifyDetached c verifiers payload externalAad = .ok ()) :
    m.payload = none ∧ m.Verified c (DenotesHeader c) verifiers payload externalAad := by
  obtain ⟨hpayload, h⟩ := Except.seq_eq_ok.mp h
  exact ⟨by simpa using hpayload, verifyPayload_ok h⟩

end SignMessage

/-! ### Ciphertexts -/

namespace EncType

variable {k : EncType ρ} {m : EncMessage ρ} {encryptor : Encryptor}
  {externalAad : Option Bytes} {plaintext : Bytes}

/-- Decryption with the context that `prepare_decryption_with_crit` makes. -/
theorem verified_of_prepare {context : EncryptionContext} {ciphertext : Bytes}
    (h : k.prepareDecryptionWithCrit c m encryptor.alg encryptor.nonceSize encryptor.baseIv
      externalAad encryptor.understoodCriticalHeaders = .ok context)
    (hdecrypt : encryptor.decrypt context.nonce ciphertext context.aad = .ok plaintext) :
    k.Verified c (DenotesHeader c) m encryptor ciphertext externalAad plaintext := by
  obtain ⟨hstate, h⟩ := Except.seq_eq_ok.mp h
  obtain ⟨hlayer, h⟩ := Except.seq_eq_ok.mp h
  obtain ⟨hcrit, h⟩ := Except.seq_eq_ok.mp h
  obtain ⟨halg, h⟩ := Except.seq_eq_ok.mp h
  obtain ⟨nonce, hnonce, h⟩ := Except.bind_eq_ok.mp h
  obtain ⟨structured, hstructured, h⟩ := Except.bind_eq_ok.mp h
  cases Except.pure_eq_ok.mp h
  exact ⟨requireComplete_ok.mp hstate, layerVerified_of_ok hlayer hcrit halg, nonce, structured,
    hnonce, hstructured, hdecrypt⟩

theorem decrypt_ok : (k.decrypt c encryptor externalAad).Leaves m fun r _ =>
    ∀ plaintext, r = .ok plaintext → m.ciphertextDetached = false ∧
      k.Verified c (DenotesHeader c) m encryptor m.ciphertext externalAad plaintext := by
  rw [decrypt, Op.leaves_bind, Op.leaves_get]
  refine Op.leaves_lift_bind.mpr ⟨fun _ _ => ?_, fun _ _ _ => by rintro ⟨⟩⟩
  refine Op.leaves_lift_bind.mpr ⟨fun _ hdetached => ?_, fun _ _ _ => by rintro ⟨⟩⟩
  refine Op.leaves_lift_bind.mpr ⟨fun context hcontext => ?_, fun _ _ _ => by rintro ⟨⟩⟩
  refine Op.leaves_lift_bind.mpr ⟨fun plaintext hdecrypt => ?_, fun _ _ _ => by rintro ⟨⟩⟩
  intro plaintext' hplaintext
  cases hplaintext
  exact ⟨by simpa using hdetached, verified_of_prepare hcontext hdecrypt⟩

theorem decryptDetached_ok {ciphertext : Bytes} :
    (k.decryptDetached c encryptor ciphertext externalAad).Leaves m fun r _ =>
      ∀ plaintext, r = .ok plaintext → m.ciphertextDetached = true ∧
        k.Verified c (DenotesHeader c) m encryptor ciphertext externalAad plaintext := by
  rw [decryptDetached, Op.leaves_bind, Op.leaves_get]
  refine Op.leaves_lift_bind.mpr ⟨fun _ _ => ?_, fun _ _ _ => by rintro ⟨⟩⟩
  refine Op.leaves_lift_bind.mpr ⟨fun _ hdetached => ?_, fun _ _ _ => by rintro ⟨⟩⟩
  refine Op.leaves_lift_bind.mpr ⟨fun context hcontext => ?_, fun _ _ _ => by rintro ⟨⟩⟩
  refine Op.leaves_lift_bind.mpr ⟨fun plaintext hdecrypt => ?_, fun _ _ _ => by rintro ⟨⟩⟩
  intro plaintext' hplaintext
  cases hplaintext
  exact ⟨by simpa using hdetached, verified_of_prepare hcontext hdecrypt⟩

end EncType

/-! ### All types -/

/-- **A verification or decryption that succeeds has made every check**, where the
protected bytes are the encoding of the protected header or decode to a header with
the same encoding. -/
theorem verifySound (c : Cbor2) : VerifySound c (DenotesHeader c) where
  sign1Embedded _ _ _ h := AuthType.verify_ok h
  sign1Detached _ _ _ _ h := AuthType.verifyDetached_ok h
  mac0Embedded _ _ _ h := AuthType.verify_ok h
  mac0Detached _ _ _ _ h := AuthType.verifyDetached_ok h
  macEmbedded _ _ _ h := AuthType.verify_ok h
  macDetached _ _ _ _ h := AuthType.verifyDetached_ok h
  signEmbedded _ _ _ h := SignMessage.verify_ok h
  signDetached _ _ _ _ h := SignMessage.verifyDetached_ok h
  counterSign _ _ _ _ _ h := CounterSignature.verify_ok h
  encrypt0Embedded _ _ _ _ h := EncType.decrypt_ok _ h
  encrypt0Detached _ _ _ _ _ h := EncType.decryptDetached_ok _ h
  encryptEmbedded _ _ _ _ h := EncType.decrypt_ok _ h
  encryptDetached _ _ _ _ _ h := EncType.decryptDetached_ok _ h

/-- Arrays nested inside one another. -/
def nestedArrays : Nat → Value
  | 0 => .null
  | n + 1 => .array [nestedArrays n]

/-- A message whose protected header is nested too deeply to be decoded, signed by
`set_signature`. -/
def deeplySigned : AuthMessage Unit :=
  ((Sign1Message.setSignature Cbor2.reference [7]).run { sign1.new (some [1]) with
    protectedHeader := BTreeMap.ofList [(.text "a", nestedArrays 130)] }).2

set_option maxRecDepth 20000 in
/-- It is verified, although its protected bytes do not decode. -/
theorem not_verifySound_decodes :
    ¬ VerifySound Cbor2.reference (DecodesAlike Cbor2.reference) := by
  intro h
  obtain ⟨payload, -, -, hlayer, -⟩ :=
    h.sign1Embedded deeplySigned { verify := fun _ _ => .ok () } none (by rfl)
  obtain ⟨decoded, current, hdecoded, -⟩ := hlayer.same
  have hfails : (decodeProtected Cbor2.reference deeplySigned.protectedRaw).isOk = false := by
    rfl
  rw [hdecoded] at hfails
  cases hfails

end Cose2
