import Cose2.Crypto.Distribution
import Cose2.Message.SignEndToEnd

/-! # Built-in providers from end to end

One side creates messages with a built-in provider and hands out the key that the provider
exports; the other side decodes the key, loads a provider from it, and accepts the messages.
Both the key and the messages travel in their encodings.
-/
namespace Cose2

open Cbor Cbor2 Iana

variable {c : Cbor2} {R : Ring} {A : AesGcm} {D : Dalek} {ρ : Type}

/-! ### What the libraries give -/

/-- A tag is what is recomputed where it is verified. -/
theorem RingMacer.accepting (hR : R.HmacLength) (p : RingMacer R)
    (hallow : keyOpsAllow p.keyOps [keyOperationMacVerify] = true) :
    Accepting p.macCreate p.macVerify := by
  intro data tag h
  rw [macCreate, Except.seq_eq_ok] at h
  obtain ⟨-, htag⟩ := h
  obtain rfl := Except.pure_eq_ok.mp htag
  rw [macVerify, Except.seq_eq_ok, Except.seq_eq_ok, requireKeyOps_eq_ok, Except.failIf_eq_ok,
    Except.failIf_eq_ok, Bool.not_eq_false, constantTimeEq_iff]
  exact ⟨hallow, fun hne => hne (p.length_tag hR data), rfl⟩

/-- A suite decrypts what it encrypts. -/
def AeadSuite.OpensSealed (S : AeadSuite) : Prop :=
  ∀ cipher nonce plaintext aad ciphertext, S.encrypt cipher nonce plaintext aad = .ok ciphertext →
    S.decrypt cipher nonce ciphertext aad = .ok plaintext

theorem AeadEncryptor.pair {S : AeadSuite} (hS : S.OpensSealed) (p : AeadEncryptor S)
    (hallow : keyOpsAllow p.keyOps [keyOperationDecrypt] = true) :
    p.toEncryptor.Pair p.toEncryptor where
  alg := rfl
  nonceSize := rfl
  baseIv := rfl
  decrypts nonce plaintext aad ciphertext h := by
    obtain ⟨-, h⟩ := Except.seq_eq_ok.mp h
    exact Except.seq_eq_ok.mpr
      ⟨requireKeyOps_eq_ok.mpr hallow, hS _ _ _ _ _ h⟩

/-- The verifier with the public key of a key pair accepts what the pair signs. -/
theorem RingSigner.accepting (hR : R.VerifiesSigned) {s : RingSigner R} {v : RingVerifier}
    (halg : v.alg = s.alg) (hkey : Provider.VerifiesFor s.key v.key) (random : Bytes) :
    Accepting (s.sign random) (v.verify R) := by
  intro data signature h
  obtain ⟨alg, kid, key, hfits⟩ := s
  generalize hverify : v.key = key' at hkey
  cases hkey with
  | ed25519 pair =>
    cases h
    exact (RingVerifier.verify_ed25519 hverify).mpr (hR.ed25519 pair data)
  | ecdsa pair =>
    have hfits' := (congrArg (ecdsaAlgorithm "ECDSA") halg).trans hfits
    exact (RingVerifier.verify_ecdsa hverify hfits').mpr
      (hR.ecdsa pair random data signature (Except.ofOption_eq_ok.mp h))

theorem Ed25519Signer.accepting (hD : D.VerifiesSigned) {s : Ed25519Signer D}
    {v : Ed25519Verifier D} (hkey : v.key = D.verifyingKey s.key) :
    Accepting (fun data => .ok (D.sign s.key data)) v.verify := by
  intro data signature h
  obtain rfl := Except.ok.inj h
  rw [Ed25519Verifier.verify, Except.seq_eq_ok, Except.failIf_eq_ok, Except.failIf_eq_ok, hkey]
  exact ⟨fun hne => hne (hD.length s.key data), by simp [hD.signed]⟩

/-! ### Keys that travel -/

/-- A key as it arrives. -/
def Key.Sent (c : Cbor2) (key key' : Key) : Prop :=
  ∃ data, key.toVec c = .ok data ∧ WithinDefaults data ∧ Key.fromSlice c data = .ok key'

/-- The provider is exported, its key is sent, and the other one is loaded from it. -/
def Provider.Reaches (c : Cbor2) (p p' : Provider R A D) : Prop :=
  ∃ key key', p.toCoseKey = .ok key ∧ Key.Sent c key key' ∧ p.fromCoseKey key' = .ok p'

/-- A signer, and a verifier that is loaded from what the signer exports. -/
inductive SignsFor (c : Cbor2) (R : Ring) (A : AesGcm) (D : Dalek) : Signer → Verifier → Prop
  | ring {s : RingSigner R} {v : RingVerifier} (random : Bytes)
    (h : Provider.Reaches (R := R) (A := A) (D := D) c (.ringSigner s) (.ringVerifier v)) :
    SignsFor c R A D (s.toSigner random) (v.toVerifier R)
  | dalek {s : Ed25519Signer D} {v : Ed25519Verifier D}
    (h : Provider.Reaches (R := R) (A := A) (D := D) c (.ed25519Signer s) (.ed25519Verifier v)) :
    SignsFor c R A D s.toSigner v.toVerifier

section Sent

variable (hw : c.WritesValues) (hr : c.ReadsBack) (hrecursion : defaultMaxDepth < c.recursionLimit)
  (hkeys : D.KeysAsBytes)
include hw hr hrecursion hkeys

/-- What arrives is the counterpart. -/
theorem Provider.Reaches.counterpart {p p' : Provider R A D} (h : p.Reaches c p') :
    p.Counterpart p' := by
  obtain ⟨key, key', hexport, ⟨data, hvec, hdata, hslice⟩, hload⟩ := h
  have hloads := Provider.loadsFrom_toCoseKey hkeys hexport
  obtain ⟨_, _, _, _, hexported⟩ := hloads.exported
  obtain rfl := Except.ok.inj
    (hslice.symm.trans (hexported.fromSlice_toVec hr hw hrecursion hdata hvec))
  obtain ⟨p'', hcounterpart, hload'⟩ := hloads.loaded
  obtain rfl := Except.ok.inj (hload.symm.trans hload')
  exact hcounterpart

/-- A verifier that is loaded from the export of a signer goes with the signer. -/
theorem SignsFor.pair (hR : R.VerifiesSigned) (hD : D.VerifiesSigned) {signer : Signer}
    {verifier : Verifier} (h : SignsFor c R A D signer verifier) :
    signer.Pair verifier ∧ verifier.understoodCriticalHeaders = [] := by
  cases h with
  | ring random h =>
    obtain _ | _ | _ | ⟨halg, hkid, hkey⟩ := h.counterpart hw hr hrecursion hkeys
    exact ⟨⟨congrArg (fun alg => some (Label.int alg)) halg, Or.inr (.inr hkid.symm),
      RingSigner.accepting hR halg hkey random⟩, rfl⟩
  | dalek h =>
    obtain _ | _ | _ | _ | _ | ⟨halg, hkid, hkey⟩ := h.counterpart hw hr hrecursion hkeys
    exact ⟨⟨congrArg (fun alg => some (Label.int alg)) halg, Or.inr (.inr hkid.symm),
      Ed25519Signer.accepting hD hkey⟩, rfl⟩

end Sent

/-! ### Messages that travel -/

/-- A message that was created and encoded with one provider is decoded and verified with
the other. -/
structure AuthType.Carries (k : AuthType ρ) (c : Cbor2) (sound : ρ → Prop) (alg : Option Label)
    (kid : Option Bytes) (create : Bytes → Except Error Bytes)
    (check : Bytes → Bytes → Except Error Unit) : Prop where
  embedded : ∀ externalAad m₀ m b,
    (k.completeAndEncode c alg kid create externalAad).run m₀ = (.ok b, m) →
      SoundLayer c m.protectedHeader m.unprotectedHeader m.protectedRaw →
      sound m.recipients → WithinDefaults b → CritUnderstood c m.protectedHeader [] →
        ∃ m', k.verifyAndDecode c [] alg check b externalAad = .ok m' ∧ m'.payload = m₀.payload
  detached : ∀ payload externalAad m₀ m b,
    (k.completeDetachedAndEncode c alg kid create payload externalAad).run m₀ = (.ok b, m) →
      SoundLayer c m.protectedHeader m.unprotectedHeader m.protectedRaw →
      sound m.recipients → WithinDefaults b → CritUnderstood c m.protectedHeader [] →
        ∃ m', k.verifyDetachedAndDecode c [] alg check b payload externalAad = .ok m' ∧
          m'.payload = none

/-- A message that was encrypted and encoded with one provider is decoded and decrypted with
the other. -/
structure EncType.Carries (k : EncType ρ) (c : Cbor2) (sound : ρ → Prop)
    (encryptor decryptor : Encryptor) : Prop where
  embedded : ∀ externalAad m₀ m b,
    (k.encryptAndEncode c encryptor externalAad).run m₀ = (.ok b, m) →
      SoundLayer c m.protectedHeader m.unprotectedHeader m.protectedRaw →
      sound m.recipients → WithinDefaults b → CritUnderstood c m.protectedHeader [] →
        ∃ m', k.decryptAndDecode c decryptor b externalAad = .ok m' ∧ m'.payload = m₀.payload
  detached : ∀ externalAad m₀ m b ciphertext,
    (k.encryptDetachedAndEncode c encryptor externalAad).run m₀ = (.ok (b, ciphertext), m) →
      SoundLayer c m.protectedHeader m.unprotectedHeader m.protectedRaw →
      sound m.recipients → WithinDefaults b → CritUnderstood c m.protectedHeader [] →
        ∃ m', k.decryptDetachedAndDecode c decryptor b ciphertext externalAad = .ok m' ∧
          m'.payload = m₀.payload

/-- A message that was signed and encoded by the signers is decoded and verified by the
verifiers. -/
structure SignMessage.Carries (c : Cbor2) (signers : List Signer) (verifiers : List Verifier) :
    Prop where
  embedded : ∀ externalAad m₀ m b,
    (signAndEncode c signers externalAad).run m₀ = (.ok b, m) →
      SoundLayer c m.protectedHeader m.unprotectedHeader m.protectedRaw →
      (∀ s ∈ m.signatures, s.Sound c) → WithinDefaults b →
      CritUnderstood c m.protectedHeader [] →
        ∃ m', verifyAndDecode c verifiers b externalAad = .ok m' ∧ m'.payload = m₀.payload
  detached : ∀ payload externalAad m₀ m b,
    (signDetachedAndEncode c signers payload externalAad).run m₀ = (.ok b, m) →
      SoundLayer c m.protectedHeader m.unprotectedHeader m.protectedRaw →
      (∀ s ∈ m.signatures, s.Sound c) → WithinDefaults b →
      CritUnderstood c m.protectedHeader [] →
        ∃ m', verifyDetachedAndDecode c verifiers b payload externalAad = .ok m' ∧
          m'.payload = none

section Types

variable (hread : c.ReadsItems) (hw : c.WritesValues) (hr : c.ReadsBack) (hc : c.ReadsValues)
  (hd : c.Describes) (hcap : c.CapturesRaw) (ht : c.WritesTuples) (hb : c.ReadsByteStrings)
  (hrecursion : defaultMaxDepth < c.recursionLimit)
include hread hw hr hc hd hcap ht hb hrecursion

end Types

end Cose2
