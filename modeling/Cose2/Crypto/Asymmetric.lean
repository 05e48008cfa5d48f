import Cose2.Crypto.Symmetric
import Cose2.RsaDer

/-! # Built-in providers with a key pair

`RingSigner` and `RingVerifier` of `src/crypto.rs`, and `Ed25519Signer` and
`Ed25519Verifier` of `src/ed25519.rs`.  As for the symmetric ones, the fields are private:
the key of a provider is always one that its algorithm is for.
-/
namespace Cose2

open Cbor Iana

/-! ### Algorithms -/

/-- `require_ed25519_alg`; `require_supported_alg` of `src/ed25519.rs` has an error of its
own. -/
def requireEd25519Alg (unsupported : Error) (alg : Int64) : Except Error Unit :=
  Except.failIf (alg ≠ algorithmEd25519 ∧ alg ≠ algorithmEdDSA) unsupported

/-- The algorithms with a curve, of `ecdsa_from_cose_key`, `ecdsa_verification_algorithm`
and `ec2_public_cose_key`. -/
def ecdsaAlgorithm (operation : String) (alg : Int64) : Except Error EcdsaAlgorithm :=
  if alg = algorithmES256 ∨ alg = algorithmESP256 then .ok .p256Sha256Fixed
  else if alg = algorithmES384 ∨ alg = algorithmESP384 then .ok .p384Sha384Fixed
  else .error (unsupportedAlg operation alg)

/-- The curve of an algorithm. -/
def EcdsaAlgorithm.curve : EcdsaAlgorithm → Label
  | .p256Sha256Fixed => ellipticCurveP_256
  | .p384Sha384Fixed => ellipticCurveP_384

/-- `rsa_signing_algorithm` and `rsa_verification_algorithm`. -/
def rsaAlgorithm (operation : String) (alg : Int64) : Except Error RsaAlgorithm :=
  if alg = algorithmRS256 then .ok .pkcs1Sha256
  else if alg = algorithmRS384 then .ok .pkcs1Sha384
  else if alg = algorithmRS512 then .ok .pkcs1Sha512
  else if alg = algorithmPS256 then .ok .pssSha256
  else if alg = algorithmPS384 then .ok .pssSha384
  else if alg = algorithmPS512 then .ok .pssSha512
  else .error (unsupportedAlg operation alg)

/-- The algorithms that a signature provider has, by the kind of their keys. -/
inductive SignatureKind where
  | ed25519
  | ecdsa
  | rsa
deriving DecidableEq, Repr

/-- The `match` on the algorithm in both `from_cose_key`. -/
def signatureKind (operation : String) (alg : Int64) : Except Error SignatureKind :=
  if alg ∈ [algorithmEdDSA, algorithmEd25519] then .ok .ed25519
  else if alg ∈ [algorithmES256, algorithmESP256, algorithmES384, algorithmESP384] then .ok .ecdsa
  else if alg ∈ [algorithmRS256, algorithmRS384, algorithmRS512, algorithmPS256, algorithmPS384,
      algorithmPS512] then .ok .rsa
  else .error (unsupportedAlg operation alg)

/-! ### Public keys -/

/-- `ec2_uncompressed_public_key`. -/
def ec2UncompressedPublicKey (key : Key) (coordinateLen : Nat) : Except Error Bytes := do
  let x ← key.requiredBytes ec2KeyParameterX "x"
  let y ← key.requiredBytes ec2KeyParameterY "y"
  Except.failIf (x.length ≠ coordinateLen ∨ y.length ≠ coordinateLen) (.custom
    (s!"EC2 coordinates must be {coordinateLen} bytes, " ++
      s!"got x = {x.length} and y = {y.length}"))
  return 0x04 :: (x ++ y)

/-- `ec2_public_cose_key`. -/
def ec2PublicCoseKey (alg : Int64) (point : Bytes) (kid : Option Bytes) : Except Error Key := do
  let algorithm ← ecdsaAlgorithm "ECDSA" alg
  let coordLen := algorithm.coordinateLen
  Except.failIf (point.head? ≠ some 0x04 ∨ point.length ≠ 1 + 2 * coordLen)
    (.custom "invalid uncompressed EC public key")
  let key := Key.withKtyAlg keyTypeEC2 alg kid
  let key := key.insert ec2KeyParameterCrv algorithm.curve.toValue
  let key := key.insert ec2KeyParameterX (.bytes ((point.drop 1).take coordLen))
  let key := key.insert ec2KeyParameterY (.bytes (point.drop (1 + coordLen)))
  return Key.setOps key [.int keyOperationVerify]

/-- `rsa_public_cose_key`. -/
def rsaPublicCoseKey (alg : Int64) (n e : Bytes) (kid : Option Bytes) : Key :=
  let key := Key.withKtyAlg keyTypeRSA alg kid
  let key := key.insert rsaKeyParameterN (.bytes n)
  let key := key.insert rsaKeyParameterE (.bytes e)
  Key.setOps key [.int keyOperationVerify]

/-! ### `RingSigner` -/

/-- `RingSigningKey`. -/
inductive RingSigningKey (R : Ring) where
  | ed25519 (pair : R.Ed25519KeyPair)
  | ecdsa (algorithm : EcdsaAlgorithm) (pair : R.EcdsaKeyPair algorithm)
  | rsa (pair : R.RsaKeyPair) (padding : RsaAlgorithm)

/-- The key is one for the algorithm. -/
def RingSigningKey.Fits {R : Ring} (alg : Int64) : RingSigningKey R → Prop
  | .ed25519 _ => alg = algorithmEd25519 ∨ alg = algorithmEdDSA
  | .ecdsa algorithm _ => ecdsaAlgorithm "ECDSA" alg = .ok algorithm
  | .rsa _ padding => rsaAlgorithm "RSA signing" alg = .ok padding

/-- `RingSigner`. -/
structure RingSigner (R : Ring) where
  alg : Int64
  kid : Option Bytes
  key : RingSigningKey R
  fits : key.Fits alg

/-- An algorithm is the same whatever it is asked for. -/
theorem ecdsaAlgorithm_eq_ok {operation operation' : String} {alg : Int64} {a : EcdsaAlgorithm}
    (h : ecdsaAlgorithm operation alg = .ok a) : ecdsaAlgorithm operation' alg = .ok a := by
  unfold ecdsaAlgorithm at h ⊢
  split_ifs at h ⊢ <;> exact h

theorem rsaAlgorithm_eq_ok {operation operation' : String} {alg : Int64} {a : RsaAlgorithm}
    (h : rsaAlgorithm operation alg = .ok a) : rsaAlgorithm operation' alg = .ok a := by
  unfold rsaAlgorithm at h ⊢
  split_ifs at h ⊢ <;> exact h

theorem requireEd25519Alg_eq_ok {unsupported : Error} {alg : Int64} {u : Unit} :
    requireEd25519Alg unsupported alg = .ok u ↔
      alg = algorithmEd25519 ∨ alg = algorithmEdDSA := by
  rw [requireEd25519Alg, Except.failIf_eq_ok]
  tauto

namespace RingSigner

section Making

variable (R : Ring)

/-- A signer with an Ed25519 key pair, or the error that says why there is none. -/
def ofEd25519 (alg : Int64) (pair : Option R.Ed25519KeyPair) (kid : Option Bytes)
    (invalid : String) : Except Error (RingSigner R) :=
  match h : requireEd25519Alg (unsupportedAlg "Ed25519" alg) alg with
  | .error e => .error e
  | .ok () => do
    let pair ← Except.ofOption (.custom invalid) pair
    return { alg, kid, key := .ed25519 pair, fits := requireEd25519Alg_eq_ok.mp h }

/-- `RingSigner::ed25519_from_pkcs8_with_alg`. -/
def ed25519FromPkcs8WithAlg (alg : Int64) (pkcs8 : Bytes) (kid : Option Bytes) :
    Except Error (RingSigner R) :=
  ofEd25519 R alg (R.ed25519FromPkcs8 pkcs8) kid "invalid Ed25519 PKCS#8 key"

/-- `RingSigner::ed25519_from_pkcs8`. -/
def ed25519FromPkcs8 (pkcs8 : Bytes) (kid : Option Bytes) : Except Error (RingSigner R) :=
  ed25519FromPkcs8WithAlg R algorithmEd25519 pkcs8 kid

/-- `RingSigner::ed25519_from_seed_and_public_key_with_alg`. -/
def ed25519FromSeedAndPublicKeyWithAlg (alg : Int64) (seed publicKey : Bytes)
    (kid : Option Bytes) : Except Error (RingSigner R) :=
  ofEd25519 R alg (R.ed25519FromSeedAndPublicKey seed publicKey) kid "invalid Ed25519 key material"

/-- `RingSigner::ed25519_from_seed_and_public_key`. -/
def ed25519FromSeedAndPublicKey (seed publicKey : Bytes) (kid : Option Bytes) :
    Except Error (RingSigner R) :=
  ed25519FromSeedAndPublicKeyWithAlg R algorithmEd25519 seed publicKey kid

/-- `RingSigner::ecdsa_from_pkcs8`, of an algorithm that has a curve. -/
def ecdsaFromPkcs8 (alg : Int64) (algorithm : EcdsaAlgorithm)
    (h : ecdsaAlgorithm "ECDSA" alg = .ok algorithm) (pkcs8 random : Bytes) (kid : Option Bytes) :
    Except Error (RingSigner R) := do
  let pair ← Except.ofOption (.custom "invalid ECDSA PKCS#8 key")
    (R.ecdsaFromPkcs8 algorithm pkcs8 random)
  return { alg, kid, key := .ecdsa algorithm pair, fits := h }

/-- `RingSigner::es256_from_pkcs8`. -/
def es256FromPkcs8 (pkcs8 random : Bytes) (kid : Option Bytes) : Except Error (RingSigner R) :=
  ecdsaFromPkcs8 R algorithmES256 .p256Sha256Fixed rfl pkcs8 random kid

/-- `RingSigner::esp256_from_pkcs8`. -/
def esp256FromPkcs8 (pkcs8 random : Bytes) (kid : Option Bytes) : Except Error (RingSigner R) :=
  ecdsaFromPkcs8 R algorithmESP256 .p256Sha256Fixed rfl pkcs8 random kid

/-- `RingSigner::es384_from_pkcs8`. -/
def es384FromPkcs8 (pkcs8 random : Bytes) (kid : Option Bytes) : Except Error (RingSigner R) :=
  ecdsaFromPkcs8 R algorithmES384 .p384Sha384Fixed rfl pkcs8 random kid

/-- `RingSigner::esp384_from_pkcs8`. -/
def esp384FromPkcs8 (pkcs8 random : Bytes) (kid : Option Bytes) : Except Error (RingSigner R) :=
  ecdsaFromPkcs8 R algorithmESP384 .p384Sha384Fixed rfl pkcs8 random kid

/-- A signer with an RSA key pair, or the error that says why there is none. -/
def ofRsa (alg : Int64) (pair : Option R.RsaKeyPair) (kid : Option Bytes) (invalid : String) :
    Except Error (RingSigner R) :=
  match fits : rsaAlgorithm "RSA signing" alg with
  | .error e => .error e
  | .ok padding => do
    let pair ← Except.ofOption (.custom invalid) pair
    return { alg, kid, key := .rsa pair padding, fits }

/-- `RingSigner::rsa_from_pkcs8`. -/
def rsaFromPkcs8 (alg : Int64) (pkcs8 : Bytes) (kid : Option Bytes) : Except Error (RingSigner R) :=
  ofRsa R alg (R.rsaFromPkcs8 pkcs8) kid "invalid RSA PKCS#8 key"

/-- `RingSigner::rsa_from_der`. -/
def rsaFromDer (alg : Int64) (der : Bytes) (kid : Option Bytes) : Except Error (RingSigner R) :=
  ofRsa R alg (R.rsaFromDer der) kid "invalid RSA DER key"

/-- `RingSigner::ed25519_from_cose_key`. -/
def ed25519FromCoseKey (key : Key) (alg : Int64) : Except Error (RingSigner R) := do
  key.requireIntegerKty keyTypeOKP
  key.requireIntegerParameter okpKeyParameterCrv ellipticCurveEd25519 "curve"
  let d ← key.requiredBytes okpKeyParameterD "d"
  let x ← key.requiredBytes okpKeyParameterX "x"
  let kid ← key.kidOwned
  ed25519FromSeedAndPublicKeyWithAlg R alg d x kid

/-- `RingSigner::ecdsa_from_cose_key`. -/
def ecdsaFromCoseKey (key : Key) (alg : Int64) (random : Bytes) :
    Except Error (RingSigner R) := do
  key.requireIntegerKty keyTypeEC2
  match h : ecdsaAlgorithm "ECDSA signing" alg with
  | .error e => .error e
  | .ok algorithm =>
    key.requireIntegerParameter ec2KeyParameterCrv algorithm.curve "curve"
    let kid ← key.kidOwned
    let publicKey ← ec2UncompressedPublicKey key algorithm.coordinateLen
    let d ← key.requiredBytes ec2KeyParameterD "d"
    let pair ← Except.ofOption (.custom "invalid ECDSA key material")
      (R.ecdsaFromPrivateKeyAndPublicKey algorithm d publicKey random)
    return { alg, kid, key := .ecdsa algorithm pair, fits := ecdsaAlgorithm_eq_ok h }

/-- `RingSigner::rsa_from_cose_key`. -/
def rsaFromCoseKey (key : Key) (alg : Int64) : Except Error (RingSigner R) := do
  key.requireIntegerKty keyTypeRSA
  match fits : rsaAlgorithm "RSA signing" alg with
  | .error e => .error e
  | .ok padding =>
    let der ← rsaPkcs1PrivateKeyDer key
    let pair ← Except.ofOption (.custom "invalid RSA key material") (R.rsaFromDer der)
    let kid ← key.kidOwned
    return { alg, kid, key := .rsa pair padding, fits }

/-- `RingSigner::from_cose_key`. -/
def fromCoseKey (key : Key) (random : Bytes) : Except Error (RingSigner R) := do
  key.requireAnyOperation [keyOperationSign] "signing"
  let alg ← key.requiredIntegerAlg "crypto backend"
  match ← signatureKind "signing" alg with
  | .ed25519 => ed25519FromCoseKey R key alg
  | .ecdsa => ecdsaFromCoseKey R key alg random
  | .rsa => rsaFromCoseKey R key alg

end Making

variable {R : Ring} (s : RingSigner R)

/-- `RingSigner::public_key`. -/
def publicKey : Option Bytes :=
  match s.key with
  | .ed25519 pair => some (R.ed25519PublicKey pair)
  | .ecdsa _ pair => some (R.ecdsaPublicKey pair)
  | .rsa _ _ => none

/-- `RingSigner::to_cose_key`. -/
def toCoseKey : Except Error Key :=
  match s.key with
  | .ed25519 pair => .ok (Key.ed25519Public s.alg (R.ed25519PublicKey pair) s.kid)
  | .ecdsa _ pair => ec2PublicCoseKey s.alg (R.ecdsaPublicKey pair) s.kid
  | .rsa _ _ => .error (.custom ("cannot export a COSE_Key from an RSA RingSigner: " ++
      "the backend exposes no public key"))

/-- `RingSigner::sign`. -/
def sign (random data : Bytes) : Except Error Bytes :=
  match s.key with
  | .ed25519 pair => .ok (R.ed25519Sign pair data)
  | .ecdsa _ pair => Except.ofOption (.custom "ECDSA signing failed") (R.ecdsaSign pair random data)
  | .rsa pair padding =>
    Except.ofOption (.custom "RSA signing failed") (R.rsaSign pair padding random data)

/-- `Signer for RingSigner`, for a call in which `random` is drawn. -/
def toSigner (random : Bytes) : Signer where
  alg := some (.int s.alg)
  kid := s.kid
  sign := s.sign random

end RingSigner

/-! ### `RingVerifier` -/

/-- `RingVerificationKey`. -/
inductive RingVerificationKey where
  | ed25519 (publicKey : Bytes)
  | ecdsa (publicKey : Bytes)
  | rsaComponents (n e : Bytes)
  | rsaDer (der : Bytes)

/-- The key is one for the algorithm. -/
def RingVerificationKey.Fits (alg : Int64) : RingVerificationKey → Prop
  | .ed25519 _ => alg = algorithmEd25519 ∨ alg = algorithmEdDSA
  | .ecdsa _ => ∃ a, ecdsaAlgorithm "ECDSA verification" alg = .ok a
  | .rsaComponents _ _ | .rsaDer _ => ∃ a, rsaAlgorithm "RSA verification" alg = .ok a

/-- `RingVerifier`. -/
structure RingVerifier where
  alg : Int64
  kid : Option Bytes
  key : RingVerificationKey
  fits : key.Fits alg

namespace RingVerifier

/-- `RingVerifier::ed25519_with_alg`. -/
def ed25519WithAlg (alg : Int64) (publicKey : Bytes) (kid : Option Bytes) :
    Except Error RingVerifier :=
  match h : requireEd25519Alg (unsupportedAlg "Ed25519" alg) alg with
  | .error e => .error e
  | .ok () => .ok { alg, kid, key := .ed25519 publicKey, fits := requireEd25519Alg_eq_ok.mp h }

/-- `RingVerifier::ed25519`. -/
def ed25519 (publicKey : Bytes) (kid : Option Bytes) : Except Error RingVerifier :=
  ed25519WithAlg algorithmEd25519 publicKey kid

/-- `RingVerifier::ecdsa`. -/
def ecdsa (alg : Int64) (publicKey : Bytes) (kid : Option Bytes) : Except Error RingVerifier :=
  match h : ecdsaAlgorithm "ECDSA verification" alg with
  | .error e => .error e
  | .ok a => .ok { alg, kid, key := .ecdsa publicKey, fits := ⟨a, h⟩ }

/-- `RingVerifier::rsa_components`. -/
def rsaComponents (alg : Int64) (n e : Bytes) (kid : Option Bytes) : Except Error RingVerifier :=
  match h : rsaAlgorithm "RSA verification" alg with
  | .error e => .error e
  | .ok a => .ok { alg, kid, key := .rsaComponents n e, fits := ⟨a, h⟩ }

/-- `RingVerifier::rsa_der`. -/
def rsaDer (alg : Int64) (der : Bytes) (kid : Option Bytes) : Except Error RingVerifier :=
  match h : rsaAlgorithm "RSA verification" alg with
  | .error e => .error e
  | .ok a => .ok { alg, kid, key := .rsaDer der, fits := ⟨a, h⟩ }

/-- `RingVerifier::from_cose_key`. -/
def fromCoseKey (key : Key) : Except Error RingVerifier := do
  key.requireAnyOperation [keyOperationVerify] "signature verification"
  let alg ← key.requiredIntegerAlg "crypto backend"
  match ← signatureKind "verification" alg with
  | .ed25519 =>
    key.requireIntegerKty keyTypeOKP
    key.requireIntegerParameter okpKeyParameterCrv ellipticCurveEd25519 "curve"
    let x ← key.requiredBytes okpKeyParameterX "x"
    ed25519WithAlg alg x (← key.kidOwned)
  | .ecdsa =>
    key.requireIntegerKty keyTypeEC2
    let expected : EcdsaAlgorithm :=
      if alg = algorithmES256 ∨ alg = algorithmESP256 then .p256Sha256Fixed else .p384Sha384Fixed
    key.requireIntegerParameter ec2KeyParameterCrv expected.curve "curve"
    let publicKey ← ec2UncompressedPublicKey key expected.coordinateLen
    ecdsa alg publicKey (← key.kidOwned)
  | .rsa =>
    key.requireIntegerKty keyTypeRSA
    let n ← key.requiredBytes rsaKeyParameterN "n"
    let e ← key.requiredBytes rsaKeyParameterE "e"
    rsaComponents alg n e (← key.kidOwned)

variable (v : RingVerifier)

/-- `RingVerifier::to_cose_key`. -/
def toCoseKey : Except Error Key :=
  match v.key with
  | .ed25519 publicKey => .ok (Key.ed25519Public v.alg publicKey v.kid)
  | .ecdsa publicKey => ec2PublicCoseKey v.alg publicKey v.kid
  | .rsaComponents n e => .ok (rsaPublicCoseKey v.alg n e v.kid)
  | .rsaDer der => do
    let (n, e) ← rsaPublicKeyFromDer der
    return rsaPublicCoseKey v.alg n e v.kid

/-- `RingVerifier::verify`. -/
def verify (R : Ring) (data signature : Bytes) : Except Error Unit := do
  match v.key with
  | .ed25519 publicKey =>
    Except.failIf (R.ed25519Verify publicKey data signature = false)
      (.verify "Ed25519 signature mismatch")
  | .ecdsa publicKey =>
    let algorithm ← ecdsaAlgorithm "ECDSA verification" v.alg
    Except.failIf (R.ecdsaVerify algorithm publicKey data signature = false)
      (.verify "ECDSA signature mismatch")
  | .rsaComponents n e =>
    let algorithm ← rsaAlgorithm "RSA verification" v.alg
    Except.failIf (R.rsaVerifyComponents algorithm n e data signature = false)
      (.verify "RSA signature mismatch")
  | .rsaDer der =>
    let algorithm ← rsaAlgorithm "RSA verification" v.alg
    Except.failIf (R.rsaVerifyDer algorithm der data signature = false)
      (.verify "RSA signature mismatch")

section Verify

variable {v} {R : Ring} {data signature : Bytes}

theorem verify_ed25519 {x : Bytes} (hkey : v.key = .ed25519 x) :
    v.verify R data signature = .ok () ↔ R.ed25519Verify x data signature = true := by
  simp only [verify, hkey]
  rw [Except.failIf_eq_ok, Bool.not_eq_false]

theorem verify_ecdsa {operation : String} {point : Bytes} {a : EcdsaAlgorithm}
    (hkey : v.key = .ecdsa point) (ha : ecdsaAlgorithm operation v.alg = .ok a) :
    v.verify R data signature = .ok () ↔ R.ecdsaVerify a point data signature = true := by
  simp only [verify, hkey]
  rw [ecdsaAlgorithm_eq_ok ha, Except.ok_bind, Except.failIf_eq_ok, Bool.not_eq_false]

theorem verify_rsaComponents {operation : String} {n e : Bytes} {a : RsaAlgorithm}
    (hkey : v.key = .rsaComponents n e) (ha : rsaAlgorithm operation v.alg = .ok a) :
    v.verify R data signature = .ok () ↔ R.rsaVerifyComponents a n e data signature = true := by
  simp only [verify, hkey]
  rw [rsaAlgorithm_eq_ok ha, Except.ok_bind, Except.failIf_eq_ok, Bool.not_eq_false]

end Verify

/-- `Verifier for RingVerifier`. -/
def toVerifier (R : Ring) : Verifier where
  alg := some (.int v.alg)
  kid := v.kid
  verify := v.verify R

end RingVerifier

/-! ### `Ed25519Signer` and `Ed25519Verifier` -/

/-- `require_supported_alg`. -/
def requireSupportedAlg (alg : Int64) : Except Error Unit :=
  requireEd25519Alg (.custom s!"unsupported Ed25519 algorithm {(Label.int alg).display}") alg

/-- `require_alg`. -/
def requireAlg (key : Key) : Except Error Int64 := do
  match ← key.alg with
  | none => return algorithmEd25519
  | some (.int alg) =>
    if alg = algorithmEd25519 ∨ alg = algorithmEdDSA then return alg else mismatch (.int alg)
  | some other => mismatch other
where
  mismatch (other : Label) : Except Error Int64 := .error (.custom
    (s!"COSE_Key alg mismatch, expected {(Label.int algorithmEd25519).display} or " ++
      s!"{(Label.int algorithmEdDSA).display}, got {other.display}"))

/-- `Ed25519Signer`. -/
structure Ed25519Signer (D : Dalek) where
  alg : Int64
  kid : Option Bytes
  key : D.SigningKey
  fits : alg = algorithmEd25519 ∨ alg = algorithmEdDSA

/-- `Ed25519Verifier`. -/
structure Ed25519Verifier (D : Dalek) where
  alg : Int64
  kid : Option Bytes
  key : D.VerifyingKey
  fits : alg = algorithmEd25519 ∨ alg = algorithmEdDSA

namespace Ed25519Signer

variable (D : Dalek)

/-- `Ed25519Signer::from_secret_key_with_alg`. -/
def fromSecretKeyWithAlg (alg : Int64) (secretKey : Bytes) (kid : Option Bytes) :
    Except Error (Ed25519Signer D) :=
  match h : requireSupportedAlg alg with
  | .error e => .error e
  | .ok () => do
    Except.failIf (secretKey.length ≠ 32) (.custom "Ed25519 private key must be 32 bytes")
    return { alg, kid, key := D.signingKeyFromBytes secretKey
             fits := requireEd25519Alg_eq_ok.mp h }

/-- `Ed25519Signer::from_secret_key`. -/
def fromSecretKey (secretKey : Bytes) (kid : Option Bytes) : Except Error (Ed25519Signer D) :=
  fromSecretKeyWithAlg D algorithmEd25519 secretKey kid

variable {D} in
/-- `Ed25519Signer::public_key`. -/
def publicKey (s : Ed25519Signer D) : Bytes := D.verifyingKeyToBytes (D.verifyingKey s.key)

/-- `Ed25519Signer::from_cose_key`. -/
def fromCoseKey (key : Key) : Except Error (Ed25519Signer D) := do
  key.requireAnyOperation [keyOperationSign] "signing"
  let alg ← requireAlg key
  key.requireIntegerKty keyTypeOKP
  key.requireIntegerParameter okpKeyParameterCrv ellipticCurveEd25519 "curve"
  let d ← key.requiredBytes okpKeyParameterD "d"
  let kid ← key.kidOwned
  let signer ← fromSecretKeyWithAlg D alg d kid
  match ← key.getBytes okpKeyParameterX with
  | none => return signer
  | some expected =>
    Except.failIf (expected ≠ signer.publicKey)
      (.custom "COSE_Key Ed25519 public key x does not match private key d")
    return signer

variable {D} (s : Ed25519Signer D)

/-- `Ed25519Signer::to_cose_key`. -/
def toCoseKey : Except Error Key := .ok (Key.ed25519Public s.alg s.publicKey s.kid)

/-- `Signer for Ed25519Signer`. -/
def toSigner : Signer where
  alg := some (.int s.alg)
  kid := s.kid
  sign data := .ok (D.sign s.key data)

end Ed25519Signer

namespace Ed25519Verifier

variable (D : Dalek)

/-- `Ed25519Verifier::from_public_key_with_alg`. -/
def fromPublicKeyWithAlg (alg : Int64) (publicKey : Bytes) (kid : Option Bytes) :
    Except Error (Ed25519Verifier D) :=
  match h : requireSupportedAlg alg with
  | .error e => .error e
  | .ok () => do
    Except.failIf (publicKey.length ≠ 32) (.custom "Ed25519 public key must be 32 bytes")
    let key ← Except.ofOption (.custom "invalid Ed25519 public key")
      (D.verifyingKeyFromBytes publicKey)
    return { alg, kid, key, fits := requireEd25519Alg_eq_ok.mp h }

/-- `Ed25519Verifier::from_public_key`. -/
def fromPublicKey (publicKey : Bytes) (kid : Option Bytes) : Except Error (Ed25519Verifier D) :=
  fromPublicKeyWithAlg D algorithmEd25519 publicKey kid

/-- `Ed25519Verifier::from_cose_key`. -/
def fromCoseKey (key : Key) : Except Error (Ed25519Verifier D) := do
  key.requireAnyOperation [keyOperationVerify] "signature verification"
  let alg ← requireAlg key
  key.requireIntegerKty keyTypeOKP
  key.requireIntegerParameter okpKeyParameterCrv ellipticCurveEd25519 "curve"
  let x ← key.requiredBytes okpKeyParameterX "x"
  fromPublicKeyWithAlg D alg x (← key.kidOwned)

variable {D} (v : Ed25519Verifier D)

/-- `Ed25519Verifier::to_cose_key`. -/
def toCoseKey : Except Error Key :=
  .ok (Key.ed25519Public v.alg (D.verifyingKeyToBytes v.key) v.kid)

/-- `Ed25519Verifier::verify`. -/
def verify (data signature : Bytes) : Except Error Unit := do
  Except.failIf (signature.length ≠ 64) (.verify "invalid Ed25519 signature")
  Except.failIf (D.verifyStrict v.key data signature = false)
    (.verify "Ed25519 signature mismatch")

/-- `Verifier for Ed25519Verifier`. -/
def toVerifier : Verifier where
  alg := some (.int v.alg)
  kid := v.kid
  verify := v.verify

end Ed25519Verifier

end Cose2
