import Cose2.Crypto.Export
import Cose2.Message.SignEndToEnd
import Cose2.Message.Verification

/-! # What a loaded provider does with its key

A provider that was loaded from a key runs the primitive that the parameters of the key
name, on the key material that it holds, and only for operations that its `key_ops` permit.
This is said of the primitive first, and then of every message that is completed or accepted
with the provider.
-/
namespace Cose2

open Cbor Iana

variable {R : Ring} {D : Dalek} {c : Cbor2} {ρ : Type}

/-! ### What a key says -/

/-- The operation is one that the key may be used for. -/
def Key.Permits (key : Key) (operation : Int64) : Prop :=
  ∃ ops, key.ops = .ok ops ∧ keyOpsAllow ops [operation] = true

/-- The tag of the data: an HMAC with the material of the key, of the size that its
algorithm has. -/
def Ring.MacOf (R : Ring) (key : Key) (data tag : Bytes) : Prop :=
  ∃ alg algorithm tagLen k, key.get keyParameterKty = some keyTypeSymmetric.toValue ∧
    key.alg = .ok (some (.int alg)) ∧ hmacAlgorithm alg = .ok (algorithm, tagLen) ∧
      key.get symmetricKeyParameterK = some (.bytes k) ∧
        tag = (R.hmacSign (R.hmacKey algorithm k) data).take tagLen

/-- The cipher that a key is for. -/
def AeadSuite.CipherOf (S : AeadSuite) (key : Key) (cipher : S.Cipher) : Prop :=
  ∃ alg k, key.get keyParameterKty = some keyTypeSymmetric.toValue ∧
    key.alg = .ok (some (.int alg)) ∧ key.get symmetricKeyParameterK = some (.bytes k) ∧
      S.cipher alg k = .ok cipher

/-- A signature of the data with the private material of the key. -/
inductive Ring.SignatureBy (R : Ring) (key : Key) (random data signature : Bytes) : Prop
  | ed25519 {alg : Int64} {d x : Bytes} {pair : R.Ed25519KeyPair}
    (halg : key.alg = .ok (some (.int alg))) (hfits : alg = algorithmEd25519 ∨ alg = algorithmEdDSA)
    (hkty : key.get keyParameterKty = some keyTypeOKP.toValue)
    (hcrv : key.get okpKeyParameterCrv = some ellipticCurveEd25519.toValue)
    (hd : key.get okpKeyParameterD = some (.bytes d))
    (hx : key.get okpKeyParameterX = some (.bytes x))
    (hpair : R.ed25519FromSeedAndPublicKey d x = some pair)
    (hsigned : signature = R.ed25519Sign pair data)
  | ecdsa {alg : Int64} {a : EcdsaAlgorithm} {d point drawn : Bytes} {pair : R.EcdsaKeyPair a}
    (halg : key.alg = .ok (some (.int alg))) (hfits : ecdsaAlgorithm "ECDSA" alg = .ok a)
    (hkty : key.get keyParameterKty = some keyTypeEC2.toValue)
    (hcrv : key.get ec2KeyParameterCrv = some a.curve.toValue)
    (hpoint : ec2UncompressedPublicKey key a.coordinateLen = .ok point)
    (hd : key.get ec2KeyParameterD = some (.bytes d))
    (hpair : R.ecdsaFromPrivateKeyAndPublicKey a d point drawn = some pair)
    (hsigned : R.ecdsaSign pair random data = some signature)
  | rsa {alg : Int64} {padding : RsaAlgorithm} {der : Bytes} {pair : R.RsaKeyPair}
    (halg : key.alg = .ok (some (.int alg))) (hfits : rsaAlgorithm "RSA" alg = .ok padding)
    (hkty : key.get keyParameterKty = some keyTypeRSA.toValue)
    (hder : rsaPkcs1PrivateKeyDer key = .ok der) (hpair : R.rsaFromDer der = some pair)
    (hsigned : R.rsaSign pair padding random data = some signature)

/-- A signature of the data that the public material of the key verifies. -/
inductive Ring.SignatureFor (R : Ring) (key : Key) (data signature : Bytes) : Prop
  | ed25519 {alg : Int64} {x : Bytes} (halg : key.alg = .ok (some (.int alg)))
    (hfits : alg = algorithmEd25519 ∨ alg = algorithmEdDSA)
    (hkty : key.get keyParameterKty = some keyTypeOKP.toValue)
    (hcrv : key.get okpKeyParameterCrv = some ellipticCurveEd25519.toValue)
    (hx : key.get okpKeyParameterX = some (.bytes x))
    (hverified : R.ed25519Verify x data signature = true)
  | ecdsa {alg : Int64} {a : EcdsaAlgorithm} {point : Bytes}
    (halg : key.alg = .ok (some (.int alg))) (hfits : ecdsaAlgorithm "ECDSA" alg = .ok a)
    (hkty : key.get keyParameterKty = some keyTypeEC2.toValue)
    (hcrv : key.get ec2KeyParameterCrv = some a.curve.toValue)
    (hpoint : ec2UncompressedPublicKey key a.coordinateLen = .ok point)
    (hverified : R.ecdsaVerify a point data signature = true)
  | rsa {alg : Int64} {a : RsaAlgorithm} {n e : Bytes} (halg : key.alg = .ok (some (.int alg)))
    (hfits : rsaAlgorithm "RSA" alg = .ok a)
    (hkty : key.get keyParameterKty = some keyTypeRSA.toValue)
    (hn : key.get rsaKeyParameterN = some (.bytes n))
    (he : key.get rsaKeyParameterE = some (.bytes e))
    (hverified : R.rsaVerifyComponents a n e data signature = true)

/-! ### The primitives -/

namespace RingMacer

variable {key : Key} {p : RingMacer R} {data tag : Bytes}

theorem permits_iff (hload : fromCoseKey R key = .ok p) (operation : Int64) :
    key.Permits operation ↔ keyOpsAllow p.keyOps [operation] = true := by
  have hops := (fromCoseKey_eq_ok.mp hload).2.2.2.2
  constructor
  · rintro ⟨ops, hops', hallow⟩
    obtain rfl := Except.ok.inj (hops.symm.trans hops')
    exact hallow
  · intro hallow
    exact ⟨p.keyOps, hops, hallow⟩

theorem macOf_iff (hload : fromCoseKey R key = .ok p) :
    R.MacOf key data tag ↔ tag = (R.hmacSign p.key data).take p.tagLen := by
  obtain ⟨hkty, halg, hk, -, -⟩ := fromCoseKey_eq_ok.mp hload
  obtain ⟨algorithm, halgorithm, hmade⟩ := p.made
  constructor
  · rintro ⟨alg, algorithm', tagLen, k, -, halg', halgorithm', hk', rfl⟩
    obtain ⟨⟩ := Except.ok.inj (halg.symm.trans halg')
    obtain ⟨rfl, rfl⟩ := Prod.mk.inj (Except.ok.inj (halgorithm.symm.trans halgorithm'))
    obtain rfl := Value.bytes.inj (Option.some.inj (hk.symm.trans hk'))
    rw [hmade]
  · rintro rfl
    exact ⟨p.alg, algorithm, p.tagLen, p.rawKey, hkty, halg, halgorithm, hk, by rw [hmade]⟩

theorem macCreate_iff (hload : fromCoseKey R key = .ok p) :
    p.macCreate data = .ok tag ↔ key.Permits keyOperationMacCreate ∧ R.MacOf key data tag := by
  rw [macCreate, Except.seq_eq_ok, requireKeyOps_eq_ok, permits_iff hload, macOf_iff hload,
    Except.pure_eq_ok, eq_comm (a := tag)]

theorem macVerify_iff (hR : R.HmacLength) (hload : fromCoseKey R key = .ok p) :
    p.macVerify data tag = .ok () ↔
      key.Permits keyOperationMacVerify ∧ R.MacOf key data tag := by
  rw [macVerify, Except.seq_eq_ok, Except.seq_eq_ok, requireKeyOps_eq_ok, Except.failIf_eq_ok,
    Except.failIf_eq_ok, Bool.not_eq_false, constantTimeEq_iff, permits_iff hload,
    macOf_iff hload]
  constructor
  · rintro ⟨hallow, -, rfl⟩
    exact ⟨hallow, rfl⟩
  · rintro ⟨hallow, rfl⟩
    exact ⟨hallow, fun hne => hne (p.length_tag hR data), rfl⟩

end RingMacer

namespace AeadEncryptor

variable {S : AeadSuite} {key : Key} {p : AeadEncryptor S}

theorem permits_iff (hload : fromCoseKey S key = .ok p) (operation : Int64) :
    key.Permits operation ↔ keyOpsAllow p.keyOps [operation] = true := by
  have hops := (fromCoseKey_eq_ok.mp hload).2.2.2.2.2
  constructor
  · rintro ⟨ops, hops', hallow⟩
    obtain rfl := Except.ok.inj (hops.symm.trans hops')
    exact hallow
  · intro hallow
    exact ⟨p.keyOps, hops, hallow⟩

theorem cipherOf (hload : fromCoseKey S key = .ok p) : S.CipherOf key p.cipher := by
  obtain ⟨hkty, halg, hk, -⟩ := fromCoseKey_eq_ok.mp hload
  exact ⟨p.alg, p.rawKey, hkty, halg, hk, p.made⟩

theorem encrypt_iff (hload : fromCoseKey S key = .ok p) {nonce plaintext aad ciphertext : Bytes} :
    p.encrypt nonce plaintext aad = .ok ciphertext ↔
      key.Permits keyOperationEncrypt ∧
        S.encrypt p.cipher nonce plaintext aad = .ok ciphertext := by
  rw [encrypt, Except.seq_eq_ok, requireKeyOps_eq_ok, permits_iff hload]

theorem decrypt_iff (hload : fromCoseKey S key = .ok p) {nonce ciphertext aad plaintext : Bytes} :
    p.decrypt nonce ciphertext aad = .ok plaintext ↔
      key.Permits keyOperationDecrypt ∧
        S.decrypt p.cipher nonce ciphertext aad = .ok plaintext := by
  rw [decrypt, Except.seq_eq_ok, requireKeyOps_eq_ok, permits_iff hload]

end AeadEncryptor

/-- An operation that `from_cose_key` requires is permitted. -/
theorem Key.permits_of_require {key : Key} {operation : Int64} {name : String} {u : Unit}
    (h : key.requireAnyOperation [operation] name = .ok u) : key.Permits operation :=
  (requireAnyOperation_eq_ok (by simp)).mp h

namespace RingSigner

variable {key : Key} {s : RingSigner R} {random drawn data signature : Bytes}

/-- A loaded signer signs with the private material of its key. -/
theorem signatureBy_of_sign (hload : fromCoseKey R key drawn = .ok s)
    (h : s.sign random data = .ok signature) :
    key.Permits keyOperationSign ∧ R.SignatureBy key random data signature := by
  simp only [fromCoseKey, Except.bind_eq_ok, Key.requiredIntegerAlg_eq_ok] at hload
  obtain ⟨_, hrequire, alg, halg, kind, hkind, hload⟩ := hload
  refine ⟨Key.permits_of_require hrequire, ?_⟩
  cases kind with
  | ed25519 =>
    simp only [ed25519FromCoseKey, Except.bind_eq_ok, Key.requireIntegerKty_eq_ok,
      Key.requireIntegerParameter_eq_ok, Key.requiredBytes_eq_ok] at hload
    obtain ⟨_, hkty, _, hcrv, d, hd, x, hx, kid, -, hload⟩ := hload
    rw [ed25519FromSeedAndPublicKeyWithAlg, ofEd25519.eq_def] at hload
    split at hload
    · cases hload
    · next hfits =>
      obtain ⟨pair, hpair, hload⟩ := Except.bind_eq_ok.mp hload
      cases hload
      exact .ed25519 halg (requireEd25519Alg_eq_ok.mp hfits) hkty hcrv hd hx
        (Except.ofOption_eq_ok.mp hpair) (Except.ok.inj h).symm
  | ecdsa =>
    rw [ecdsaFromCoseKey.eq_def, Except.seq_eq_ok, Key.requireIntegerKty_eq_ok] at hload
    obtain ⟨hkty, hload⟩ := hload
    split at hload
    · cases hload
    · next a hfits =>
      simp only [Except.bind_eq_ok, Key.requireIntegerParameter_eq_ok, Key.requiredBytes_eq_ok]
        at hload
      obtain ⟨_, hcrv, kid, -, point, hpoint, d, hd, pair, hpair, hload⟩ := hload
      cases hload
      exact .ecdsa halg (ecdsaAlgorithm_eq_ok hfits) hkty hcrv hpoint hd
        (Except.ofOption_eq_ok.mp hpair) (Except.ofOption_eq_ok.mp h)
  | rsa =>
    rw [rsaFromCoseKey.eq_def, Except.seq_eq_ok, Key.requireIntegerKty_eq_ok] at hload
    obtain ⟨hkty, hload⟩ := hload
    split at hload
    · cases hload
    · next padding hfits =>
      simp only [Except.bind_eq_ok] at hload
      obtain ⟨der, hder, pair, hpair, kid, -, hload⟩ := hload
      cases hload
      exact .rsa halg (rsaAlgorithm_eq_ok hfits) hkty hder (Except.ofOption_eq_ok.mp hpair)
        (Except.ofOption_eq_ok.mp h)

end RingSigner

namespace RingVerifier

variable {key : Key} {v : RingVerifier} {data signature : Bytes}

/-- What is read from the key of a verifier. -/
inductive ReadFrom (v : RingVerifier) (key : Key) : Prop
  | ed25519 {x : Bytes} (hkey : v.key = .ed25519 x)
    (hfits : v.alg = algorithmEd25519 ∨ v.alg = algorithmEdDSA)
    (hkty : key.get keyParameterKty = some keyTypeOKP.toValue)
    (hcrv : key.get okpKeyParameterCrv = some ellipticCurveEd25519.toValue)
    (hx : key.get okpKeyParameterX = some (.bytes x))
  | ecdsa {point : Bytes} {a : EcdsaAlgorithm} (hkey : v.key = .ecdsa point)
    (hfits : ecdsaAlgorithm "ECDSA" v.alg = .ok a)
    (hkty : key.get keyParameterKty = some keyTypeEC2.toValue)
    (hcrv : key.get ec2KeyParameterCrv = some a.curve.toValue)
    (hpoint : ec2UncompressedPublicKey key a.coordinateLen = .ok point)
  | rsa {n e : Bytes} {a : RsaAlgorithm} (hkey : v.key = .rsaComponents n e)
    (hfits : rsaAlgorithm "RSA" v.alg = .ok a)
    (hkty : key.get keyParameterKty = some keyTypeRSA.toValue)
    (hn : key.get rsaKeyParameterN = some (.bytes n))
    (he : key.get rsaKeyParameterE = some (.bytes e))

theorem fromCoseKey_ok (hload : fromCoseKey key = .ok v) : key.Permits keyOperationVerify ∧
    key.alg = .ok (some (.int v.alg)) ∧ v.ReadFrom key := by
  simp only [fromCoseKey, Except.bind_eq_ok, Key.requiredIntegerAlg_eq_ok] at hload
  obtain ⟨_, hrequire, alg, halg, kind, -, hload⟩ := hload
  refine ⟨Key.permits_of_require hrequire, ?_⟩
  cases kind with
  | ed25519 =>
    simp only [Except.bind_eq_ok, Key.requireIntegerKty_eq_ok, Key.requireIntegerParameter_eq_ok,
      Key.requiredBytes_eq_ok] at hload
    obtain ⟨_, hkty, _, hcrv, x, hx, kid, -, hload⟩ := hload
    rw [ed25519WithAlg.eq_def] at hload
    split at hload
    · cases hload
    · next hfits =>
      cases hload
      exact ⟨halg, .ed25519 rfl (requireEd25519Alg_eq_ok.mp hfits) hkty hcrv hx⟩
  | ecdsa =>
    simp only [Except.bind_eq_ok, Key.requireIntegerKty_eq_ok,
      Key.requireIntegerParameter_eq_ok] at hload
    obtain ⟨_, hkty, _, hcrv, point, hpoint, kid, -, hload⟩ := hload
    rw [ecdsa.eq_def] at hload
    split at hload
    · cases hload
    · next a ha =>
      cases hload
      rw [expectedCurve ha] at hcrv hpoint
      exact ⟨halg, .ecdsa rfl (ecdsaAlgorithm_eq_ok ha) hkty hcrv hpoint⟩
  | rsa =>
    simp only [Except.bind_eq_ok, Key.requireIntegerKty_eq_ok, Key.requiredBytes_eq_ok] at hload
    obtain ⟨_, hkty, n, hn, e, he, kid, -, hload⟩ := hload
    rw [rsaComponents.eq_def] at hload
    split at hload
    · cases hload
    · next a ha =>
      cases hload
      exact ⟨halg, .rsa rfl (rsaAlgorithm_eq_ok ha) hkty hn he⟩

/-- A key has one type. -/
theorem kty_unique {kty kty' : Label} (h : key.get keyParameterKty = some kty.toValue)
    (h' : key.get keyParameterKty = some kty'.toValue) : kty = kty' :=
  Label.toValue_injective (Option.some.inj (h.symm.trans h'))

/-- A loaded verifier accepts what the public material of its key verifies. -/
theorem verify_iff (hload : fromCoseKey key = .ok v) : v.verify R data signature = .ok () ↔
    key.Permits keyOperationVerify ∧ R.SignatureFor key data signature := by
  obtain ⟨hpermits, halg, hread⟩ := fromCoseKey_ok hload
  cases hread with
  | @ed25519 x hkey hfits hkty hcrv hx =>
    rw [verify_ed25519 hkey]
    refine ⟨fun hverified => ⟨hpermits, .ed25519 halg hfits hkty hcrv hx hverified⟩, ?_⟩
    rintro ⟨-, h⟩
    cases h with
    | ed25519 _ _ _ _ hx' hverified =>
      obtain rfl := Value.bytes.inj (Option.some.inj (hx.symm.trans hx'))
      exact hverified
    | ecdsa _ _ hkty' | rsa _ _ hkty' => exact absurd (kty_unique hkty hkty') (by decide)
  | @ecdsa point a hkey hfits hkty hcrv hpoint =>
    rw [verify_ecdsa hkey hfits]
    refine ⟨fun hverified => ⟨hpermits, .ecdsa halg hfits hkty hcrv hpoint hverified⟩, ?_⟩
    rintro ⟨-, h⟩
    cases h with
    | ecdsa halg' hfits' _ _ hpoint' hverified =>
      obtain ⟨⟩ := Except.ok.inj (halg.symm.trans halg')
      obtain rfl := Except.ok.inj (hfits.symm.trans hfits')
      obtain rfl := Except.ok.inj (hpoint.symm.trans hpoint')
      exact hverified
    | ed25519 _ _ hkty' | rsa _ _ hkty' => exact absurd (kty_unique hkty hkty') (by decide)
  | @rsa n e a hkey hfits hkty hn he =>
    rw [verify_rsaComponents hkey hfits]
    refine ⟨fun hverified => ⟨hpermits, .rsa halg hfits hkty hn he hverified⟩, ?_⟩
    rintro ⟨-, h⟩
    cases h with
    | rsa halg' hfits' _ hn' he' hverified =>
      obtain ⟨⟩ := Except.ok.inj (halg.symm.trans halg')
      obtain rfl := Except.ok.inj (hfits.symm.trans hfits')
      obtain rfl := Value.bytes.inj (Option.some.inj (hn.symm.trans hn'))
      obtain rfl := Value.bytes.inj (Option.some.inj (he.symm.trans he'))
      exact hverified
    | ed25519 _ _ hkty' | ecdsa _ _ hkty' => exact absurd (kty_unique hkty hkty') (by decide)

end RingVerifier

/-! ### The primitives of `ed25519-dalek` -/

/-- The algorithm of a key for `ed25519-dalek`, which need not say it. -/
def Key.IsEd25519 (key : Key) : Prop :=
  (key.alg = .ok none ∨ ∃ alg, key.alg = .ok (some (.int alg)) ∧
    (alg = algorithmEd25519 ∨ alg = algorithmEdDSA)) ∧
      key.get keyParameterKty = some keyTypeOKP.toValue ∧
        key.get okpKeyParameterCrv = some ellipticCurveEd25519.toValue

/-- A signature of the data with the seed of the key, which has the public key that goes with
it or none. -/
def Dalek.SignatureBy (D : Dalek) (key : Key) (data signature : Bytes) : Prop :=
  ∃ d, key.IsEd25519 ∧ key.get okpKeyParameterD = some (.bytes d) ∧ d.length = 32 ∧
    (∀ x, key.get okpKeyParameterX = some (.bytes x) →
      x = D.verifyingKeyToBytes (D.verifyingKey (D.signingKeyFromBytes d))) ∧
      signature = D.sign (D.signingKeyFromBytes d) data

/-- A signature of the data that the public key verifies. -/
def Dalek.SignatureFor (D : Dalek) (key : Key) (data signature : Bytes) : Prop :=
  ∃ x verifyingKey, key.IsEd25519 ∧ key.get okpKeyParameterX = some (.bytes x) ∧ x.length = 32 ∧
    D.verifyingKeyFromBytes x = some verifyingKey ∧ signature.length = 64 ∧
      D.verifyStrict verifyingKey data signature = true

theorem requireAlg_ok {key : Key} {alg : Int64} (h : requireAlg key = .ok alg) :
    key.alg = .ok none ∨ ∃ alg, key.alg = .ok (some (.int alg)) ∧
      (alg = algorithmEd25519 ∨ alg = algorithmEdDSA) := by
  obtain ⟨_ | alg | s, halg, h⟩ := Except.bind_eq_ok.mp h
  · exact .inl halg
  · dsimp only at h
    split_ifs at h with hfits
    · exact .inr ⟨alg, halg, hfits⟩
    · cases h
  · cases h

theorem Ed25519Signer.signatureBy_of_sign {key : Key} {s : Ed25519Signer D} {data signature : Bytes}
    (hload : fromCoseKey D key = .ok s) (h : s.toSigner.sign data = .ok signature) :
    key.Permits keyOperationSign ∧ D.SignatureBy key data signature := by
  simp only [fromCoseKey, Except.bind_eq_ok, Key.requireIntegerKty_eq_ok,
    Key.requireIntegerParameter_eq_ok, Key.requiredBytes_eq_ok] at hload
  obtain ⟨_, hrequire, alg, halg, _, hkty, _, hcrv, d, hd, kid, -, signer, hsigner, x, hx,
    hload⟩ := hload
  rw [fromSecretKeyWithAlg.eq_def] at hsigner
  split at hsigner
  · cases hsigner
  · rw [Except.seq_eq_ok, Except.failIf_eq_ok, not_not] at hsigner
    obtain ⟨hlength, hsigner⟩ := hsigner
    cases hsigner
    have hsame : s.key = D.signingKeyFromBytes d ∧ ∀ b, x = some b →
        b = D.verifyingKeyToBytes (D.verifyingKey (D.signingKeyFromBytes d)) := by
      cases x with
      | none =>
        cases hload
        exact ⟨rfl, by rintro _ ⟨⟩⟩
      | some expected =>
        obtain ⟨hpublic, hload⟩ := Except.seq_eq_ok.mp hload
        cases hload
        rw [Except.failIf_eq_ok, not_not] at hpublic
        refine ⟨rfl, fun b hb => ?_⟩
        obtain rfl := Option.some.inj hb
        exact hpublic
    refine ⟨Key.permits_of_require hrequire, d, ⟨requireAlg_ok halg, hkty, hcrv⟩, hd, hlength,
      ?_, ?_⟩
    · intro b hb
      have hread := CoseMap.getBytes_eq_ok.mp hx
      rw [hb] at hread
      cases x with
      | none => cases hread
      | some b' =>
        obtain rfl := Value.bytes.inj (Option.some.inj hread)
        exact hsame.2 b rfl
    · rw [← hsame.1]
      exact (Except.ok.inj h).symm

theorem Ed25519Verifier.signatureFor_of_verify {key : Key} {v : Ed25519Verifier D}
    {data signature : Bytes} (hload : fromCoseKey D key = .ok v)
    (h : v.verify data signature = .ok ()) :
    key.Permits keyOperationVerify ∧ D.SignatureFor key data signature := by
  simp only [fromCoseKey, Except.bind_eq_ok, Key.requireIntegerKty_eq_ok,
    Key.requireIntegerParameter_eq_ok, Key.requiredBytes_eq_ok] at hload
  obtain ⟨_, hrequire, alg, halg, _, hkty, _, hcrv, x, hx, kid, -, hload⟩ := hload
  rw [fromPublicKeyWithAlg.eq_def] at hload
  split at hload
  · cases hload
  · rw [Except.seq_eq_ok, Except.failIf_eq_ok, not_not] at hload
    obtain ⟨hlength, hload⟩ := hload
    obtain ⟨verifyingKey, hkey, hload⟩ := Except.bind_eq_ok.mp hload
    cases hload
    rw [verify, Except.seq_eq_ok, Except.failIf_eq_ok, not_not, Except.failIf_eq_ok,
      Bool.not_eq_false] at h
    exact ⟨Key.permits_of_require hrequire, x, verifyingKey, ⟨requireAlg_ok halg, hkty, hcrv⟩, hx,
      hlength, Except.ofOption_eq_ok.mp hkey, h.1, h.2⟩

/-! ### Messages -/

/-- A message that is completed with a provider has a result of its authenticated structure
that is as `Result` says. -/
structure AuthType.CompletesWith (k : AuthType ρ) (c : Cbor2) (alg : Option Label)
    (kid : Option Bytes) (create : Bytes → Except Error Bytes) (Result : Bytes → Bytes → Prop) :
    Prop where
  embedded : ∀ externalAad m₀ m, (k.complete c alg kid create externalAad).run m₀ = (.ok (), m) →
    ∃ payload structured, m.payload = some payload ∧
      k.toBeAuthenticated c m.protectedRaw (externalAad.getD []) payload = .ok structured ∧
        Result structured m.result
  detached : ∀ payload externalAad m₀ m,
    (k.completeDetached c alg kid create payload externalAad).run m₀ = (.ok (), m) →
      ∃ structured, m.payload = none ∧
        k.toBeAuthenticated c m.protectedRaw (externalAad.getD []) payload = .ok structured ∧
          Result structured m.result

/-- A message that is accepted with a provider has such a result, and the algorithm. -/
structure AuthType.AcceptsWith (k : AuthType ρ) (c : Cbor2) (alg : Option Label)
    (check : Bytes → Bytes → Except Error Unit) (Result : Bytes → Bytes → Prop) : Prop where
  embedded : ∀ understood externalAad m, k.verify c m understood alg check externalAad = .ok () →
    ∃ payload structured, m.payload = some payload ∧
      AlgMatches m.protectedHeader m.unprotectedHeader alg ∧
        k.toBeAuthenticated c m.protectedRaw (externalAad.getD []) payload = .ok structured ∧
          Result structured m.result
  detached : ∀ understood payload externalAad m,
    k.verifyDetached c m understood alg check payload externalAad = .ok () →
      ∃ structured, m.payload = none ∧
        AlgMatches m.protectedHeader m.unprotectedHeader alg ∧
          k.toBeAuthenticated c m.protectedRaw (externalAad.getD []) payload = .ok structured ∧
            Result structured m.result

section

variable {k : AuthType ρ} {alg : Option Label} {kid : Option Bytes} {Result : Bytes → Bytes → Prop}

theorem AuthType.completesWith {create : Bytes → Except Error Bytes}
    (h : ∀ data result, create data = .ok result → Result data result) :
    k.CompletesWith c alg kid create Result where
  embedded externalAad m₀ m hrun := by
    obtain ⟨payload, -, hpayload, hcreated⟩ := complete_ok hrun
    obtain ⟨structured, hstructured, hresult⟩ := hcreated.created
    exact ⟨payload, structured, hpayload, hstructured, h structured m.result hresult⟩
  detached payload externalAad m₀ m hrun := by
    obtain ⟨hpayload, hcreated⟩ := completeDetached_ok hrun
    obtain ⟨structured, hstructured, hresult⟩ := hcreated.created
    exact ⟨structured, hpayload, hstructured, h structured m.result hresult⟩

theorem AuthType.acceptsWith {check : Bytes → Bytes → Except Error Unit}
    (h : ∀ data result, check data result = .ok () → Result data result) :
    k.AcceptsWith c alg check Result where
  embedded understood externalAad m hok := by
    obtain ⟨payload, hpayload, hverified⟩ := verify_ok hok
    obtain ⟨structured, hstructured, hcheck⟩ := hverified.accepted
    exact ⟨payload, structured, hpayload, hverified.layer.alg, hstructured,
      h structured m.result hcheck⟩
  detached understood payload externalAad m hok := by
    obtain ⟨hpayload, hverified⟩ := verifyDetached_ok hok
    obtain ⟨structured, hstructured, hcheck⟩ := hverified.accepted
    exact ⟨structured, hpayload, hverified.layer.alg, hstructured, h structured m.result hcheck⟩

end

/-- A message that is encrypted with a provider has the ciphertext that the cipher makes of
its plaintext, with a nonce from the headers and the authenticated structure. -/
structure EncType.EncryptsWith (k : EncType ρ) (c : Cbor2) (encryptor : Encryptor)
    (Sealed : (nonce plaintext aad ciphertext : Bytes) → Prop) : Prop where
  embedded : ∀ externalAad m₀ m, (k.encrypt c encryptor externalAad).run m₀ = (.ok (), m) →
    ∃ plaintext nonce aad, m₀.payload = some plaintext ∧
      DerivesNonce m.protectedHeader m.unprotectedHeader encryptor.nonceSize encryptor.baseIv
        nonce ∧
        k.toBeEncrypted c m.protectedRaw (externalAad.getD []) = .ok aad ∧
          Sealed nonce plaintext aad m.ciphertext
  detached : ∀ externalAad m₀ m ciphertext,
    (k.encryptDetached c encryptor externalAad).run m₀ = (.ok ciphertext, m) →
      ∃ plaintext nonce aad, m₀.payload = some plaintext ∧
        DerivesNonce m.protectedHeader m.unprotectedHeader encryptor.nonceSize encryptor.baseIv
          nonce ∧
          k.toBeEncrypted c m.protectedRaw (externalAad.getD []) = .ok aad ∧
            Sealed nonce plaintext aad ciphertext

/-- A message that is decrypted with a provider has a plaintext that the cipher makes of its
ciphertext, with a nonce from the headers and the authenticated structure, and the
algorithm. -/
structure EncType.DecryptsWith (k : EncType ρ) (c : Cbor2) (decryptor : Encryptor)
    (Opened : (nonce ciphertext aad plaintext : Bytes) → Prop) : Prop where
  embedded : ∀ externalAad m m' plaintext,
    (k.decrypt c decryptor externalAad).run m = (.ok plaintext, m') →
      ∃ nonce aad, AlgMatches m.protectedHeader m.unprotectedHeader decryptor.alg ∧
        DerivesNonce m.protectedHeader m.unprotectedHeader decryptor.nonceSize decryptor.baseIv
          nonce ∧
          k.toBeEncrypted c m.protectedRaw (externalAad.getD []) = .ok aad ∧
            Opened nonce m.ciphertext aad plaintext
  detached : ∀ ciphertext externalAad m m' plaintext,
    (k.decryptDetached c decryptor ciphertext externalAad).run m = (.ok plaintext, m') →
      ∃ nonce aad, AlgMatches m.protectedHeader m.unprotectedHeader decryptor.alg ∧
        DerivesNonce m.protectedHeader m.unprotectedHeader decryptor.nonceSize decryptor.baseIv
          nonce ∧
          k.toBeEncrypted c m.protectedRaw (externalAad.getD []) = .ok aad ∧
            Opened nonce ciphertext aad plaintext

section

variable {k : EncType ρ} {provider : Encryptor}

theorem EncType.encryptsWith {Sealed : (nonce plaintext aad ciphertext : Bytes) → Prop}
    (h : ∀ nonce plaintext aad ciphertext, provider.encrypt nonce plaintext aad = .ok ciphertext →
      Sealed nonce plaintext aad ciphertext) : k.EncryptsWith c provider Sealed := by
  have hrun {externalAad : Option Bytes} {m₀ m : EncMessage ρ}
      (hrun : (k.encrypt c provider externalAad).run m₀ = (.ok (), m)) :
      ∃ plaintext nonce aad, m₀.payload = some plaintext ∧
        DerivesNonce m.protectedHeader m.unprotectedHeader provider.nonceSize provider.baseIv
          nonce ∧
          k.toBeEncrypted c m.protectedRaw (externalAad.getD []) = .ok aad ∧
            Sealed nonce plaintext aad m.ciphertext := by
    obtain ⟨context, plaintext, hprepares, hpayload, -, hencrypt⟩ := encrypt_ok hrun
    exact ⟨plaintext, context.nonce, context.aad, hpayload, hprepares.nonce, hprepares.aad,
      h _ _ _ _ hencrypt⟩
  refine ⟨fun _ _ _ => hrun, fun externalAad m₀ m ciphertext hdetached => ?_⟩
  simp only [encryptDetached, Op.run_bind_eq_ok, Op.run_get_eq_ok, Op.run_modify_eq_ok,
    Op.run_pure_eq_ok] at hdetached
  obtain ⟨_, m₁, hencrypt, _, _, rfl, _, _, ⟨rfl, rfl⟩, rfl, rfl⟩ := hdetached
  obtain ⟨plaintext, nonce, aad, hpayload, hnonce, haad, hsealed⟩ := hrun hencrypt
  exact ⟨plaintext, nonce, aad, hpayload, hnonce, haad, hsealed⟩

theorem EncType.decryptsWith {Opened : (nonce ciphertext aad plaintext : Bytes) → Prop}
    (h : ∀ nonce ciphertext aad plaintext, provider.decrypt nonce ciphertext aad = .ok plaintext →
      Opened nonce ciphertext aad plaintext) : k.DecryptsWith c provider Opened := by
  have hopened {externalAad : Option Bytes} {m : EncMessage ρ} {ciphertext plaintext : Bytes}
      (hverified : k.Verified c (DenotesHeader c) m provider ciphertext externalAad plaintext) :
      ∃ nonce aad, AlgMatches m.protectedHeader m.unprotectedHeader provider.alg ∧
        DerivesNonce m.protectedHeader m.unprotectedHeader provider.nonceSize provider.baseIv
          nonce ∧
          k.toBeEncrypted c m.protectedRaw (externalAad.getD []) = .ok aad ∧
            Opened nonce ciphertext aad plaintext := by
    obtain ⟨nonce, structured, hnonce, hstructured, hdecrypt⟩ := hverified.accepted
    exact ⟨nonce, structured, hverified.layer.alg, nonceFromHeaderValues_eq_ok.mp hnonce,
      hstructured, h _ _ _ _ hdecrypt⟩
  refine ⟨fun externalAad m m' plaintext hrun => ?_,
    fun ciphertext externalAad m m' plaintext hrun => ?_⟩
  · exact hopened (decrypt_ok plaintext (congrArg Prod.fst hrun)).2
  · exact hopened (decryptDetached_ok plaintext (congrArg Prod.fst hrun)).2

end

/-- Every slot of a message goes back to one of the providers, with the structure that it is
a signature of. -/
def SignMessage.SlotsHold {Provider : Type} (c : Cbor2) (m : SignMessage)
    (externalAad : Option Bytes) (payload : Bytes) (providers : List Provider)
    (Slot : Provider → Signature → Bytes → Prop) : Prop :=
  ∀ s ∈ m.signatures, ∃ provider ∈ providers, ∃ structured,
    SignMessage.toBeSigned c m.protectedRaw s.protectedRaw (externalAad.getD []) payload =
      .ok structured ∧ Slot provider s structured

/-- Every slot of a message that is signed holds what its signer makes. -/
structure SignMessage.SignsWith (c : Cbor2) (signers : List Signer)
    (Result : Signer → Bytes → Bytes → Prop) : Prop where
  embedded : ∀ externalAad m₀ m, (SignMessage.sign c signers externalAad).run m₀ = (.ok (), m) →
    ∃ payload, m.payload = some payload ∧
      m.SlotsHold c externalAad payload signers fun signer s structured =>
        Result signer structured s.signature
  detached : ∀ payload externalAad m₀ m,
    (SignMessage.signDetached c signers payload externalAad).run m₀ = (.ok (), m) →
      m.payload = none ∧ m.SlotsHold c externalAad payload signers fun signer s structured =>
        Result signer structured s.signature

/-- Every slot of a message that is accepted has the algorithm of the verifier that accepts
it, and a signature that is as `Result` says. -/
structure SignMessage.AcceptsWith (c : Cbor2) (verifiers : List Verifier)
    (Result : Verifier → Bytes → Bytes → Prop) : Prop where
  embedded : ∀ externalAad (m : SignMessage), m.verify c verifiers externalAad = .ok () →
    ∃ payload, m.payload = some payload ∧
      m.SlotsHold c externalAad payload verifiers fun verifier s structured =>
        AlgMatches s.protectedHeader s.unprotectedHeader verifier.alg ∧
          Result verifier structured s.signature
  detached : ∀ payload externalAad (m : SignMessage),
    m.verifyDetached c verifiers payload externalAad = .ok () →
      m.payload = none ∧ m.SlotsHold c externalAad payload verifiers fun verifier s structured =>
        AlgMatches s.protectedHeader s.unprotectedHeader verifier.alg ∧
          Result verifier structured s.signature

namespace SignMessage

variable {m : SignMessage} {externalAad : Option Bytes} {payload : Bytes}

theorem Created.slotsHold {signers : List Signer} {Result : Signer → Bytes → Bytes → Prop}
    (h : m.Created c signers externalAad payload)
    (hsigns : ∀ signer ∈ signers, ∀ data signature, signer.sign data = .ok signature →
      Result signer data signature) :
    m.SlotsHold c externalAad payload signers fun signer s structured =>
      Result signer structured s.signature := by
  intro s hs
  obtain ⟨signer, hsigner, hsigned⟩ := Tree.forall₂_mem_right h.slots hs
  obtain ⟨structured, hstructured, hsign⟩ := hsigned.signed
  exact ⟨signer, hsigner, structured, hstructured, hsigns signer hsigner _ _ hsign⟩

theorem signsWith {signers : List Signer} {Result : Signer → Bytes → Bytes → Prop}
    (hsigns : ∀ signer ∈ signers, ∀ data signature,
      signer.sign data = .ok signature → Result signer data signature) :
    SignsWith c signers Result where
  embedded externalAad m₀ m hrun := by
    obtain ⟨-, hkept, payload, hpayload, hcreated⟩ := signWithPayload_ok hrun
    obtain ⟨⟨⟩⟩ | ⟨-, hpayload⟩ := hpayload
    exact ⟨payload, hkept.trans hpayload, hcreated.slotsHold hsigns⟩
  detached payload externalAad m₀ m hrun := by
    simp only [signDetached, Op.run_bind_eq_ok, Op.run_modify_eq_ok] at hrun
    obtain ⟨_, m₁, hsign, rfl⟩ := hrun
    obtain ⟨-, -, _, hpayload, hcreated⟩ := signWithPayload_ok hsign
    obtain ⟨⟨⟩⟩ | ⟨⟨⟩, -⟩ := hpayload
    exact ⟨rfl, hcreated.slotsHold hsigns⟩

theorem Verified.slotsHold {verifiers : List Verifier}
    {Result : Verifier → Bytes → Bytes → Prop}
    (h : m.Verified c (DenotesHeader c) verifiers payload externalAad)
    (hverifies : ∀ verifier ∈ verifiers, ∀ data signature,
      verifier.verify data signature = .ok () → Result verifier data signature) :
    m.SlotsHold c externalAad payload verifiers fun verifier s structured =>
      AlgMatches s.protectedHeader s.unprotectedHeader verifier.alg ∧
        Result verifier structured s.signature := by
  intro s hs
  obtain ⟨verifier, hverifier, -, -, halg, structured, hstructured, hverify⟩ :=
    (h.slots s hs).accepted
  exact ⟨verifier, hverifier, structured, hstructured, halg,
    hverifies verifier hverifier _ _ hverify⟩

theorem acceptsWith {verifiers : List Verifier} {Result : Verifier → Bytes → Bytes → Prop}
    (hverifies : ∀ verifier ∈ verifiers, ∀ data signature,
      verifier.verify data signature = .ok () → Result verifier data signature) :
    AcceptsWith c verifiers Result where
  embedded externalAad m hok := by
    obtain ⟨payload, hpayload, hverified⟩ := verify_ok hok
    exact ⟨payload, hpayload, hverified.slotsHold hverifies⟩
  detached payload externalAad m hok := by
    obtain ⟨hpayload, hverified⟩ := verifyDetached_ok hok
    exact ⟨hpayload, hverified.slotsHold hverifies⟩

end SignMessage

/-! ### All types -/

/-- A signature with the private material of the key, which permits it. -/
def SignedBy (R : Ring) (D : Dalek) (key : Key) (data signature : Bytes) : Prop :=
  key.Permits keyOperationSign ∧
    ((∃ random, R.SignatureBy key random data signature) ∨ D.SignatureBy key data signature)

/-- A signature that the public material of the key verifies, which permits it. -/
def VerifiedBy (R : Ring) (D : Dalek) (key : Key) (data signature : Bytes) : Prop :=
  key.Permits keyOperationVerify ∧
    (R.SignatureFor key data signature ∨ D.SignatureFor key data signature)

/-- A signer that was loaded from a key. -/
inductive LoadedSigner (R : Ring) (D : Dalek) (key : Key) : Signer → Prop
  | ring {s : RingSigner R} {drawn : Bytes} (random : Bytes)
    (h : RingSigner.fromCoseKey R key drawn = .ok s) : LoadedSigner R D key (s.toSigner random)
  | dalek {s : Ed25519Signer D} (h : Ed25519Signer.fromCoseKey D key = .ok s) :
    LoadedSigner R D key s.toSigner

/-- A verifier that was loaded from a key. -/
inductive LoadedVerifier (R : Ring) (D : Dalek) (key : Key) : Verifier → Prop
  | ring {v : RingVerifier} (h : RingVerifier.fromCoseKey key = .ok v) :
    LoadedVerifier R D key (v.toVerifier R)
  | dalek {v : Ed25519Verifier D} (h : Ed25519Verifier.fromCoseKey D key = .ok v) :
    LoadedVerifier R D key v.toVerifier

theorem LoadedSigner.signed {key : Key} {signer : Signer} (h : LoadedSigner R D key signer)
    {data signature : Bytes} (hsign : signer.sign data = .ok signature) :
    SignedBy R D key data signature := by
  cases h with
  | ring random h =>
    obtain ⟨hpermits, hsigned⟩ := RingSigner.signatureBy_of_sign h hsign
    exact ⟨hpermits, .inl ⟨random, hsigned⟩⟩
  | dalek h =>
    obtain ⟨hpermits, hsigned⟩ := Ed25519Signer.signatureBy_of_sign h hsign
    exact ⟨hpermits, .inr hsigned⟩

theorem LoadedVerifier.verified {key : Key} {verifier : Verifier}
    (h : LoadedVerifier R D key verifier) {data signature : Bytes}
    (hverify : verifier.verify data signature = .ok ()) : VerifiedBy R D key data signature := by
  cases h with
  | ring h =>
    obtain ⟨hpermits, hverified⟩ := (RingVerifier.verify_iff h).mp hverify
    exact ⟨hpermits, .inl hverified⟩
  | dalek h =>
    obtain ⟨hpermits, hverified⟩ := Ed25519Verifier.signatureFor_of_verify h hverify
    exact ⟨hpermits, .inr hverified⟩

/-- What is completed or accepted with a MAC provider that was loaded from the key. -/
structure MacsWith (R : Ring) (c : Cbor2) (k : AuthType ρ) (key : Key) (p : RingMacer R) :
    Prop where
  completes : k.CompletesWith c (some (.int p.alg)) p.kid p.macCreate fun data tag =>
    key.Permits keyOperationMacCreate ∧ R.MacOf key data tag
  accepts : k.AcceptsWith c (some (.int p.alg)) p.macVerify fun data tag =>
    key.Permits keyOperationMacVerify ∧ R.MacOf key data tag

/-- What is encrypted or decrypted with an encryptor that was loaded from the key. -/
structure SealsWith (S : AeadSuite) (c : Cbor2) (k : EncType ρ) (key : Key)
    (p : AeadEncryptor S) : Prop where
  encrypts : k.EncryptsWith c p.toEncryptor fun nonce plaintext aad ciphertext =>
    key.Permits keyOperationEncrypt ∧ ∃ cipher, S.CipherOf key cipher ∧
      S.encrypt cipher nonce plaintext aad = .ok ciphertext
  decrypts : k.DecryptsWith c p.toEncryptor fun nonce ciphertext aad plaintext =>
    key.Permits keyOperationDecrypt ∧ ∃ cipher, S.CipherOf key cipher ∧
      S.decrypt cipher nonce ciphertext aad = .ok plaintext

theorem sealsWith {S : AeadSuite} {k : EncType ρ} {key : Key} {p : AeadEncryptor S}
    (hload : AeadEncryptor.fromCoseKey S key = .ok p) : SealsWith S c k key p where
  encrypts := EncType.encryptsWith fun nonce plaintext aad ciphertext h => by
    obtain ⟨hpermits, hencrypt⟩ := (AeadEncryptor.encrypt_iff hload).mp h
    exact ⟨hpermits, p.cipher, AeadEncryptor.cipherOf hload, hencrypt⟩
  decrypts := EncType.decryptsWith fun nonce ciphertext aad plaintext h => by
    obtain ⟨hpermits, hdecrypt⟩ := (AeadEncryptor.decrypt_iff hload).mp h
    exact ⟨hpermits, p.cipher, AeadEncryptor.cipherOf hload, hdecrypt⟩

/-- **A provider keeps to the key that it was loaded from.**  Whatever message is completed
or accepted with it, the `key_ops` of the key permit that, and the result is the one of the
primitive that the type, algorithm and curve of the key name, on the material of the key. -/
theorem loadedProviders_keepToTheirKeys (c : Cbor2) (R : Ring) (D : Dalek)
    (hR : R.HmacLength) :
    (∀ key (p : RingMacer R), RingMacer.fromCoseKey R key = .ok p →
        MacsWith R c mac0 key p ∧ MacsWith R c (mac c) key p) ∧
      (∀ S key (p : AeadEncryptor S), AeadEncryptor.fromCoseKey S key = .ok p →
        SealsWith S c encrypt0 key p ∧ SealsWith S c (encrypt c) key p) ∧
      (∀ key signer, LoadedSigner R D key signer →
        sign1.CompletesWith c signer.alg signer.kid signer.sign (SignedBy R D key)) ∧
      (∀ key verifier, LoadedVerifier R D key verifier →
        sign1.AcceptsWith c verifier.alg verifier.verify (VerifiedBy R D key)) ∧
      (∀ (keys : List Key) signers,
        (∀ signer ∈ signers, ∃ key ∈ keys, LoadedSigner R D key signer) →
        SignMessage.SignsWith c signers fun signer data signature =>
          ∃ key ∈ keys, LoadedSigner R D key signer ∧ SignedBy R D key data signature) ∧
      ∀ (keys : List Key) verifiers,
        (∀ verifier ∈ verifiers, ∃ key ∈ keys, LoadedVerifier R D key verifier) →
        SignMessage.AcceptsWith c verifiers fun verifier data signature =>
          ∃ key ∈ keys, LoadedVerifier R D key verifier ∧ VerifiedBy R D key data signature := by
  refine ⟨?_, ?_, ?_, ?_, ?_, ?_⟩
  · intro key p hload
    have hmacs {ρ : Type} (k : AuthType ρ) : MacsWith R c k key p :=
      ⟨AuthType.completesWith fun _ _ h => (RingMacer.macCreate_iff hload).mp h,
        AuthType.acceptsWith fun _ _ h => (RingMacer.macVerify_iff hR hload).mp h⟩
    exact ⟨hmacs mac0, hmacs (mac c)⟩
  · intro S key p hload
    exact ⟨sealsWith hload, sealsWith hload⟩
  · intro key signer hload
    exact AuthType.completesWith fun _ _ h => hload.signed h
  · intro key verifier hload
    exact AuthType.acceptsWith fun _ _ h => hload.verified h
  · intro keys signers hload
    refine SignMessage.signsWith fun signer hsigner data signature hsign => ?_
    obtain ⟨key, hkey, hloaded⟩ := hload signer hsigner
    exact ⟨key, hkey, hloaded, hloaded.signed hsign⟩
  · intro keys verifiers hload
    refine SignMessage.acceptsWith fun verifier hverifier data signature hverify => ?_
    obtain ⟨key, hkey, hloaded⟩ := hload verifier hverifier
    exact ⟨key, hkey, hloaded, hloaded.verified hverify⟩

/-- A key with the known seed. -/
def knownKey : Key := BTreeMap.ofList
  [(keyParameterKty, keyTypeOKP.toValue), (keyParameterAlg, (Label.int algorithmEdDSA).toValue),
    (okpKeyParameterCrv, ellipticCurveEd25519.toValue), (okpKeyParameterD, .bytes knownSeed)]

/-- `["Signature", h'', h'a10127', h'', h'07']`. -/
def knownStructure : Bytes :=
  [0x85, 0x69, 0x53, 0x69, 0x67, 0x6e, 0x61, 0x74, 0x75, 0x72, 0x65, 0x40, 0x43, 0xa1, 0x01, 0x27,
   0x40, 0x41, 0x07]

/-- A message with a signature of the known signer. -/
def knownSigned : SignMessage where
  payload := some [7]
  signatures := [{
    protectedHeader := Header.setAlg ∅ (.int algorithmEdDSA)
    signature := ed25519Known knownPublicKey knownStructure
    protectedRaw := [0xa1, 0x01, 0x27], state := .complete }]
  state := .complete

/-- The tag of a message that was completed, and the signature of one that was signed and
accepted, with providers loaded from keys. -/
theorem loadedProviders_keepToTheirKeys_known :
    Ring.known.MacOf (Key.symmetric algorithmHMAC_256_64 [1, 2, 3, 4] (some [9]) none none)
      [0x84, 0x64, 0x4d, 0x41, 0x43, 0x30, 0x43, 0xa1, 0x01, 0x04, 0x40, 0x41, 0x07]
      [0xb2, 0x0f, 0xc9, 0x1f, 0x03, 0xcc, 0x1e, 0x1b] ∧
    ∀ s ∈ knownSigned.signatures,
      AlgMatches s.protectedHeader s.unprotectedHeader (some (.int algorithmEdDSA)) ∧
        SignedBy Ring.known Dalek.known knownKey knownStructure s.signature ∧
        VerifiedBy Ring.known Dalek.known (Key.ed25519Public algorithmEdDSA knownPublicKey none)
          knownStructure s.signature := by
  obtain ⟨hmac, -, -, -, hsign, hverify⟩ := loadedProviders_keepToTheirKeys Cbor2.reference
    Ring.known Dalek.known Ring.known_hmacLength
  refine ⟨?_, ?_⟩
  · obtain ⟨payload, structured, hpayload, hstructured, -, hresult⟩ :=
      (hmac _ knownMacer (RingMacer.fromCoseKey_toCoseKey rfl)).1.completes.embedded none
        { payload := some [7], recipients := () }
        { protectedHeader := Header.setAlg ∅ (.int algorithmHMAC_256_64)
          unprotectedHeader := Header.setKid ∅ [9]
          payload := some [7], recipients := ()
          result := [0xb2, 0x0f, 0xc9, 0x1f, 0x03, 0xcc, 0x1e, 0x1b]
          protectedRaw := [0xa1, 0x01, 0x04], state := .complete } rfl
    cases hpayload
    cases hstructured
    exact hresult
  · obtain ⟨payload, hpayload, hsigned⟩ :=
      (hsign [knownKey] [knownSigner.toSigner] fun signer hsigner =>
        ⟨_, List.mem_singleton_self _, by
          rw [List.mem_singleton.mp hsigner]
          exact .dalek rfl⟩).embedded none { payload := some [7] } knownSigned rfl
    obtain ⟨payload', hpayload', haccepted⟩ :=
      (hverify [Key.ed25519Public algorithmEdDSA knownPublicKey none]
        [knownVerifier.toVerifier] fun verifier hverifier =>
        ⟨_, List.mem_singleton_self _, by
          rw [List.mem_singleton.mp hverifier]
          exact .dalek rfl⟩).embedded none knownSigned rfl
    cases hpayload
    cases hpayload'
    intro s hs
    obtain ⟨signer, -, structured, hstructured, key, hkey, -, hby⟩ := hsigned s hs
    obtain ⟨verifier, hverifier, structured', hstructured', halg, key', hkey', -, hfor⟩ :=
      haccepted s hs
    rw [List.mem_singleton.mp hs] at hstructured hstructured'
    cases hstructured
    cases hstructured'
    rw [List.mem_singleton.mp hkey] at hby
    rw [List.mem_singleton.mp hkey'] at hfor
    rw [List.mem_singleton.mp hverifier] at halg
    exact ⟨halg, hby, hfor⟩

end Cose2
