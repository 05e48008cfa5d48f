import Cose2.Crypto.Export

/-! # Distributing keys

Providers are exported as keys, the keys are encoded as a key set, and whoever decodes the
set looks keys up by their `kid` and loads providers from them.  What comes out is the
counterpart of what went in: a provider with a symmetric key is itself again, and so is a
verifier, while a signer has become the verifier of its signatures.
-/
namespace Cose2

open Cbor Cbor2 Iana

/-- The built-in providers. -/
inductive Provider (R : Ring) (A : AesGcm) (D : Dalek) where
  | ringMacer (p : RingMacer R)
  | ringEncryptor (p : RingEncryptor R)
  | aesGcmEncryptor (p : AesGcmEncryptor A)
  | ringSigner (p : RingSigner R)
  | ringVerifier (p : RingVerifier)
  | ed25519Signer (p : Ed25519Signer D)
  | ed25519Verifier (p : Ed25519Verifier D)

namespace Provider

variable {R : Ring} {A : AesGcm} {D : Dalek}

/-- The `kid` of any provider. -/
def kid : Provider R A D → Option Bytes
  | ringMacer p => p.kid
  | ringEncryptor p => p.kid
  | aesGcmEncryptor p => p.kid
  | ringSigner p => p.kid
  | ringVerifier p => p.kid
  | ed25519Signer p => p.kid
  | ed25519Verifier p => p.kid

/-- The `to_cose_key` of any provider. -/
def toCoseKey : Provider R A D → Except Error Key
  | ringMacer p => p.toCoseKey
  | ringEncryptor p => p.toCoseKey
  | aesGcmEncryptor p => p.toCoseKey
  | ringSigner p => p.toCoseKey
  | ringVerifier p => p.toCoseKey
  | ed25519Signer p => p.toCoseKey
  | ed25519Verifier p => p.toCoseKey

/-- The `from_cose_key` that the exported key is for. -/
def fromCoseKey : Provider R A D → Key → Except Error (Provider R A D)
  | ringMacer _, key => (RingMacer.fromCoseKey R key).map ringMacer
  | ringEncryptor _, key => (AeadEncryptor.fromCoseKey R.aead key).map ringEncryptor
  | aesGcmEncryptor _, key => (AeadEncryptor.fromCoseKey A.aead key).map aesGcmEncryptor
  | ringSigner _, key | ringVerifier _, key => (RingVerifier.fromCoseKey key).map ringVerifier
  | ed25519Signer _, key | ed25519Verifier _, key =>
    (Ed25519Verifier.fromCoseKey D key).map ed25519Verifier

/-- The key with which a signature of the signer, or what the verifier accepts, is verified. -/
inductive VerifiesFor : RingSigningKey R → RingVerificationKey → Prop
  | ed25519 (pair : R.Ed25519KeyPair) :
    VerifiesFor (.ed25519 pair) (.ed25519 (R.ed25519PublicKey pair))
  | ecdsa {a : EcdsaAlgorithm} (pair : R.EcdsaKeyPair a) :
    VerifiesFor (.ecdsa a pair) (.ecdsa (R.ecdsaPublicKey pair))

/-- The key of a verifier that is loaded from the export of another one: a document has been
taken apart into its components. -/
inductive LoadedFor : RingVerificationKey → RingVerificationKey → Prop
  | ed25519 (x : Bytes) : LoadedFor (.ed25519 x) (.ed25519 x)
  | ecdsa (point : Bytes) : LoadedFor (.ecdsa point) (.ecdsa point)
  | rsaComponents (n e : Bytes) : LoadedFor (.rsaComponents n e) (.rsaComponents n e)
  | rsaDer {der n e : Bytes} (h : rsaPublicKeyFromDer der = .ok (n, e)) :
    LoadedFor (.rsaDer der) (.rsaComponents n e)

/-- The provider on the other side. -/
inductive Counterpart : Provider R A D → Provider R A D → Prop
  | ringMacer (p : RingMacer R) : Counterpart (.ringMacer p) (.ringMacer p)
  | ringEncryptor (p : RingEncryptor R) : Counterpart (.ringEncryptor p) (.ringEncryptor p)
  | aesGcmEncryptor (p : AesGcmEncryptor A) :
    Counterpart (.aesGcmEncryptor p) (.aesGcmEncryptor p)
  | ringSigner {s : RingSigner R} {v : RingVerifier} (halg : v.alg = s.alg) (hkid : v.kid = s.kid)
    (hkey : VerifiesFor s.key v.key) : Counterpart (.ringSigner s) (.ringVerifier v)
  | ringVerifier {v v' : RingVerifier} (halg : v'.alg = v.alg) (hkid : v'.kid = v.kid)
    (hkey : LoadedFor v.key v'.key) : Counterpart (.ringVerifier v) (.ringVerifier v')
  | ed25519Signer {s : Ed25519Signer D} {v : Ed25519Verifier D} (halg : v.alg = s.alg)
    (hkid : v.kid = s.kid) (hkey : v.key = D.verifyingKey s.key) :
    Counterpart (.ed25519Signer s) (.ed25519Verifier v)
  | ed25519Verifier (v : Ed25519Verifier D) :
    Counterpart (.ed25519Verifier v) (.ed25519Verifier v)

theorem Counterpart.kid_eq {p p' : Provider R A D} (h : p.Counterpart p') : p'.kid = p.kid := by
  cases h with
  | ringSigner _ hkid | ringVerifier _ hkid | ed25519Signer _ hkid => exact hkid
  | ringMacer | ringEncryptor | aesGcmEncryptor | ed25519Verifier => rfl

/-- The key of a provider has its `kid`, and the counterpart is loaded from it. -/
structure LoadsFrom (p : Provider R A D) (key : Key) : Prop where
  exported : ∃ kty alg baseIv keyOps, key.Exported kty alg p.kid baseIv keyOps
  loaded : ∃ p', p.Counterpart p' ∧ p.fromCoseKey key = .ok p'

section

variable {key : Key}

theorem loadsFrom_ringVerifier {p : Provider R A D} {v : RingVerifier} {kty : Label}
    (hp : p.fromCoseKey key = (RingVerifier.fromCoseKey key).map ringVerifier)
    (hcounterpart : p.Counterpart (.ringVerifier v))
    (hexported : key.Exported kty v.alg v.kid none Key.verifyOnly)
    (hv : RingVerifier.fromCoseKey key = .ok v) : p.LoadsFrom key where
  exported := ⟨kty, v.alg, none, Key.verifyOnly, hcounterpart.kid_eq ▸ hexported⟩
  loaded := ⟨_, hcounterpart, by rw [hp, hv, Except.map]⟩

/-- What a signer or verifier with a curve exports is loaded as a verifier. -/
theorem loadsFrom_ec2 {p : Provider R A D} {v : RingVerifier} {point : Bytes}
    (hp : p.fromCoseKey key = (RingVerifier.fromCoseKey key).map ringVerifier)
    (hcounterpart : p.Counterpart (.ringVerifier v)) (hv : v.key = .ecdsa point)
    (h : ec2PublicCoseKey v.alg point v.kid = .ok key) : p.LoadsFrom key := by
  obtain ⟨alg, kid, key', hfits⟩ := v
  subst hv
  obtain ⟨a, halgorithm, -, hkey⟩ := ec2PublicCoseKey_ok h
  exact loadsFrom_ringVerifier hp hcounterpart hkey.exported
    (RingVerifier.fromCoseKey_ecdsa hfits halgorithm hkey)

/-- The exported key is loaded as the counterpart. -/
theorem loadsFrom_toCoseKey (hD : D.KeysAsBytes) {p : Provider R A D}
    (h : p.toCoseKey = .ok key) : p.LoadsFrom key := by
  cases p with
  | ringMacer p =>
    have hloaded := RingMacer.fromCoseKey_toCoseKey h
    obtain rfl := Except.ok.inj h
    exact ⟨⟨_, _, _, _, Key.exported_symmetric⟩, _, .ringMacer p,
      by rw [fromCoseKey, hloaded, Except.map]⟩
  | ringEncryptor p =>
    have hloaded := AeadEncryptor.fromCoseKey_toCoseKey h
    obtain rfl := Except.ok.inj h
    exact ⟨⟨_, _, _, _, Key.exported_symmetric⟩, _, .ringEncryptor p,
      by rw [fromCoseKey, hloaded, Except.map]⟩
  | aesGcmEncryptor p =>
    have hloaded := AeadEncryptor.fromCoseKey_toCoseKey h
    obtain rfl := Except.ok.inj h
    exact ⟨⟨_, _, _, _, Key.exported_symmetric⟩, _, .aesGcmEncryptor p,
      by rw [fromCoseKey, hloaded, Except.map]⟩
  | ed25519Signer s =>
    obtain rfl := Except.ok.inj h
    have hloaded := Ed25519Verifier.fromCoseKey_ed25519 hD
      (v := ⟨s.alg, s.kid, D.verifyingKey s.key, s.fits⟩) Key.isEd25519Public
    exact ⟨⟨_, _, _, _, Key.isEd25519Public.exported⟩, _, .ed25519Signer rfl rfl rfl,
      congrArg (Except.map ed25519Verifier) hloaded⟩
  | ed25519Verifier v =>
    obtain rfl := Except.ok.inj h
    have hloaded := Ed25519Verifier.fromCoseKey_ed25519 hD (v := v) Key.isEd25519Public
    exact ⟨⟨_, _, _, _, Key.isEd25519Public.exported⟩, _, .ed25519Verifier v,
      congrArg (Except.map ed25519Verifier) hloaded⟩
  | ringSigner s =>
    obtain ⟨alg, kid, key', hfits⟩ := s
    cases key' with
    | ed25519 pair =>
      obtain rfl := Except.ok.inj h
      exact loadsFrom_ringVerifier rfl
        (.ringSigner (v := ⟨alg, kid, .ed25519 (R.ed25519PublicKey pair), hfits⟩) rfl rfl
          (.ed25519 pair)) Key.isEd25519Public.exported
        (RingVerifier.fromCoseKey_ed25519 hfits Key.isEd25519Public)
    | ecdsa a pair =>
      exact loadsFrom_ec2 rfl (.ringSigner (v := ⟨alg, kid, .ecdsa (R.ecdsaPublicKey pair),
        ⟨a, ecdsaAlgorithm_eq_ok hfits⟩⟩) rfl rfl (.ecdsa pair)) rfl h
    | rsa pair padding => cases h
  | ringVerifier v =>
    obtain ⟨alg, kid, key', hfits⟩ := v
    cases key' with
    | ed25519 x =>
      obtain rfl := Except.ok.inj h
      exact loadsFrom_ringVerifier rfl (.ringVerifier rfl rfl (.ed25519 x))
        Key.isEd25519Public.exported
        (RingVerifier.fromCoseKey_ed25519 hfits Key.isEd25519Public)
    | ecdsa point => exact loadsFrom_ec2 rfl (.ringVerifier rfl rfl (.ecdsa point)) rfl h
    | rsaComponents n e =>
      obtain rfl := Except.ok.inj h
      exact loadsFrom_ringVerifier rfl (.ringVerifier rfl rfl (.rsaComponents n e))
        Key.isRsaPublic.exported (RingVerifier.fromCoseKey_rsa hfits Key.isRsaPublic)
    | rsaDer der =>
      obtain ⟨⟨n, e⟩, hder, h⟩ := Except.bind_eq_ok.mp h
      obtain rfl := Except.ok.inj h
      have hcounterpart : Counterpart (.ringVerifier ⟨alg, kid, .rsaDer der, hfits⟩)
          (.ringVerifier ⟨alg, kid, .rsaComponents n e, hfits⟩ : Provider R A D) :=
        .ringVerifier rfl rfl (.rsaDer hder)
      exact loadsFrom_ringVerifier rfl hcounterpart Key.isRsaPublic.exported
        (RingVerifier.fromCoseKey_rsa hfits Key.isRsaPublic)

end

/-! ### Key sets -/

section Sets

variable {c : Cbor2} (hw : c.WritesValues) (hr : c.ReadsBack)
  (hrecursion : defaultMaxDepth + 1 < c.recursionLimit)
include hw hr hrecursion

end Sets

end Provider
end Cose2
