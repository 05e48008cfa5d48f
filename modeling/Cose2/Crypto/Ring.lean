import Cose2.Provider

/-! # The libraries behind the built-in providers

What `src/crypto.rs`, `src/aes_gcm.rs` and `src/ed25519.rs` call of the libraries that
they wrap.  A library is a parameter of the model; what is relied on is stated as laws,
each of them documented behaviour of the library.
-/
namespace Cose2

open Cbor

/-! ### Algorithms -/

/-- `hmac::Algorithm`. -/
inductive HmacAlgorithm where
  | sha256
  | sha384
  | sha512
deriving DecidableEq, Repr

/-- The size of a digest. -/
def HmacAlgorithm.digestLen : HmacAlgorithm → Nat
  | .sha256 => 32
  | .sha384 => 48
  | .sha512 => 64

/-- `aead::Algorithm`. -/
inductive AeadAlgorithm where
  | aes128Gcm
  | aes256Gcm
  | chacha20Poly1305
deriving DecidableEq, Repr

/-- `signature::EcdsaSigningAlgorithm`, and the verification algorithm of the same name. -/
inductive EcdsaAlgorithm where
  | p256Sha256Fixed
  | p384Sha384Fixed
deriving DecidableEq, Repr

/-- `signature::RsaEncoding`, and the verification parameters of the same name. -/
inductive RsaAlgorithm where
  | pkcs1Sha256
  | pkcs1Sha384
  | pkcs1Sha512
  | pssSha256
  | pssSha384
  | pssSha512
deriving DecidableEq, Repr

/-- The size of a coordinate on the curve of an algorithm. -/
def EcdsaAlgorithm.coordinateLen : EcdsaAlgorithm → Nat
  | .p256Sha256Fixed => 32
  | .p384Sha384Fixed => 48

/-! ### `ring`, or `aws-lc-rs` behind the same interface -/

/-- What `src/crypto.rs` calls.  Where the library draws random bytes, these are an
argument. -/
structure Ring where
  HmacKey : Type
  hmacKey : HmacAlgorithm → Bytes → HmacKey
  hmacSign : HmacKey → (data : Bytes) → Bytes
  AeadKey : Type
  aeadKey : AeadAlgorithm → Bytes → Option AeadKey
  nonceLen : Nat
  aeadTagLen : AeadKey → Nat
  sealInPlaceAppendTag : AeadKey → (nonce aad plaintext : Bytes) → Option Bytes
  openInPlace : AeadKey → (nonce aad ciphertext : Bytes) → Option Bytes
  Ed25519KeyPair : Type
  ed25519FromPkcs8 : Bytes → Option Ed25519KeyPair
  ed25519FromSeedAndPublicKey : (seed publicKey : Bytes) → Option Ed25519KeyPair
  ed25519PublicKey : Ed25519KeyPair → Bytes
  ed25519Sign : Ed25519KeyPair → (data : Bytes) → Bytes
  ed25519Verify : (publicKey data signature : Bytes) → Bool
  /-- A key pair belongs to the algorithm that it was made for. -/
  EcdsaKeyPair : EcdsaAlgorithm → Type
  ecdsaFromPkcs8 : (a : EcdsaAlgorithm) → (pkcs8 random : Bytes) → Option (EcdsaKeyPair a)
  ecdsaFromPrivateKeyAndPublicKey : (a : EcdsaAlgorithm) → (d publicKey random : Bytes) →
    Option (EcdsaKeyPair a)
  ecdsaPublicKey : {a : EcdsaAlgorithm} → EcdsaKeyPair a → Bytes
  ecdsaSign : {a : EcdsaAlgorithm} → EcdsaKeyPair a → (random data : Bytes) → Option Bytes
  ecdsaVerify : EcdsaAlgorithm → (publicKey data signature : Bytes) → Bool
  RsaKeyPair : Type
  rsaFromPkcs8 : Bytes → Option RsaKeyPair
  rsaFromDer : Bytes → Option RsaKeyPair
  rsaSign : RsaKeyPair → RsaAlgorithm → (random data : Bytes) → Option Bytes
  rsaVerifyComponents : RsaAlgorithm → (n e data signature : Bytes) → Bool
  rsaVerifyDer : RsaAlgorithm → (der data signature : Bytes) → Bool

namespace Ring

variable (R : Ring)

/-- An HMAC has the size of the digest. -/
structure HmacLength : Prop where
  length : ∀ algorithm key data,
    (R.hmacSign (R.hmacKey algorithm key) data).length = algorithm.digestLen

/-- What is sealed is opened with the same key, nonce and additional data. -/
structure OpensSealed : Prop where
  opens : ∀ key nonce aad plaintext ciphertext,
    R.sealInPlaceAppendTag key nonce aad plaintext = some ciphertext →
      R.openInPlace key nonce aad ciphertext = some plaintext

/-- What is signed with a key pair verifies with its public key. -/
structure VerifiesSigned : Prop where
  ed25519 : ∀ pair data,
    R.ed25519Verify (R.ed25519PublicKey pair) data (R.ed25519Sign pair data) = true
  ecdsa : ∀ {a} (pair : R.EcdsaKeyPair a) random data signature,
    R.ecdsaSign pair random data = some signature →
      R.ecdsaVerify a (R.ecdsaPublicKey pair) data signature = true

end Ring

/-! ### `aes-gcm` -/

/-- What `src/aes_gcm.rs` calls. -/
structure AesGcm where
  Aes128Gcm : Type
  Aes256Gcm : Type
  aes128FromSlice : Bytes → Option Aes128Gcm
  aes256FromSlice : Bytes → Option Aes256Gcm
  encrypt128 : Aes128Gcm → (nonce msg aad : Bytes) → Option Bytes
  encrypt256 : Aes256Gcm → (nonce msg aad : Bytes) → Option Bytes
  decrypt128 : Aes128Gcm → (nonce msg aad : Bytes) → Option Bytes
  decrypt256 : Aes256Gcm → (nonce msg aad : Bytes) → Option Bytes

/-- What is encrypted is decrypted with the same key, nonce and additional data. -/
structure AesGcm.OpensSealed (A : AesGcm) : Prop where
  opens128 : ∀ key nonce msg aad ciphertext, A.encrypt128 key nonce msg aad = some ciphertext →
    A.decrypt128 key nonce ciphertext aad = some msg
  opens256 : ∀ key nonce msg aad ciphertext, A.encrypt256 key nonce msg aad = some ciphertext →
    A.decrypt256 key nonce ciphertext aad = some msg

/-! ### `ed25519-dalek` -/

/-- What `src/ed25519.rs` calls; keys and signatures are taken as byte strings whose size
has been checked. -/
structure Dalek where
  SigningKey : Type
  signingKeyFromBytes : (seed : Bytes) → SigningKey
  sign : SigningKey → (data : Bytes) → Bytes
  VerifyingKey : Type
  verifyingKey : SigningKey → VerifyingKey
  verifyingKeyFromBytes : Bytes → Option VerifyingKey
  verifyingKeyToBytes : VerifyingKey → Bytes
  verifyStrict : VerifyingKey → (data signature : Bytes) → Bool

namespace Dalek

variable (D : Dalek)

/-- A verifying key is made again from its bytes. -/
structure KeysAsBytes : Prop where
  length : ∀ key, (D.verifyingKeyToBytes key).length = 32
  key : ∀ key, D.verifyingKeyFromBytes (D.verifyingKeyToBytes key) = some key

/-- What is signed with a key verifies with its verifying key. -/
structure VerifiesSigned : Prop where
  length : ∀ key data, (D.sign key data).length = 64
  signed : ∀ key data, D.verifyStrict (D.verifyingKey key) data (D.sign key data) = true

end Dalek

/-! ### Libraries that know one answer -/

/-- The HMAC with SHA-256 of one structure, under the key `01020304`. -/
def hmacKnown (algorithm : HmacAlgorithm) (key data : Bytes) : Bytes :=
  if algorithm = .sha256 ∧ key = [1, 2, 3, 4] ∧ data =
      [0x84, 0x64, 0x4d, 0x41, 0x43, 0x30, 0x43, 0xa1, 0x01, 0x04, 0x40, 0x41, 0x07] then
    [0xb2, 0x0f, 0xc9, 0x1f, 0x03, 0xcc, 0x1e, 0x1b, 0xd7, 0x2b, 0x1c, 0x93, 0x8e, 0xca, 0x0d,
     0x3a, 0x5a, 0x25, 0x19, 0x2c, 0x7d, 0x1d, 0x6d, 0x59, 0x4e, 0x9d, 0xd7, 0x2f, 0x86, 0x3c,
     0x2a, 0xc7]
  else List.replicate algorithm.digestLen 0

/-- A seed for Ed25519. -/
def knownSeed : Bytes :=
  [0x9d, 0x61, 0xb1, 0x9d, 0xef, 0xfd, 0x5a, 0x60, 0xba, 0x84, 0x4a, 0xf4, 0x92, 0xec, 0x2c,
   0xc4, 0x44, 0x49, 0xc5, 0x69, 0x7b, 0x32, 0x69, 0x19, 0x70, 0x3b, 0xac, 0x03, 0x1c, 0xae,
   0x7f, 0x60]

/-- The public key that goes with the seed. -/
def knownPublicKey : Bytes :=
  [0xd7, 0x5a, 0x98, 0x01, 0x82, 0xb1, 0x0a, 0xb7, 0xd5, 0x4b, 0xfe, 0xd3, 0xc9, 0x64, 0x07,
   0x3a, 0x0e, 0xe1, 0x72, 0xf3, 0xda, 0xa6, 0x23, 0x25, 0xaf, 0x02, 0x1a, 0x68, 0xf7, 0x07,
   0x51, 0x1a]

/-- The signatures with the seed over two structures. -/
def ed25519Known (publicKey data : Bytes) : Bytes :=
  if publicKey = knownPublicKey ∧ data =
      [0x84, 0x6a, 0x53, 0x69, 0x67, 0x6e, 0x61, 0x74, 0x75, 0x72, 0x65, 0x31, 0x43, 0xa1, 0x01,
       0x27, 0x40, 0x41, 0x07] then
    [0x9e, 0xbf, 0x16, 0x3c, 0x74, 0x94, 0x3a, 0xa9, 0x25, 0x82, 0x0f, 0x81, 0x19, 0xea, 0xac,
     0x3c, 0x74, 0x56, 0xfc, 0x02, 0x2e, 0xcf, 0x27, 0xb8, 0xb8, 0x34, 0xde, 0xb2, 0x8d, 0xa7,
     0x64, 0xe8, 0x00, 0x35, 0x15, 0xd8, 0x04, 0x8b, 0x04, 0xa9, 0x7c, 0x72, 0xca, 0x9f, 0xb6,
     0x3f, 0x1d, 0xfb, 0x4f, 0x33, 0xd8, 0xf2, 0x9f, 0x19, 0x4c, 0xd2, 0x4b, 0xdd, 0x29, 0xb0,
     0x27, 0xbd, 0x82, 0x0b]
  else if publicKey = knownPublicKey ∧ data =
      [0x85, 0x69, 0x53, 0x69, 0x67, 0x6e, 0x61, 0x74, 0x75, 0x72, 0x65, 0x40, 0x43, 0xa1, 0x01,
       0x27, 0x40, 0x41, 0x07] then
    [0x11, 0x35, 0x1a, 0x28, 0x2f, 0x22, 0x29, 0xc6, 0xff, 0x78, 0x6e, 0xb8, 0x1c, 0xa0, 0xaa,
     0x6d, 0xb7, 0x85, 0x2e, 0x9c, 0xb0, 0x6d, 0x3d, 0x74, 0x33, 0x4d, 0xb8, 0x4d, 0x99, 0xb2,
     0x94, 0x70, 0x41, 0x14, 0xcb, 0xd5, 0x81, 0x1c, 0x91, 0x95, 0xff, 0xa2, 0x70, 0xfa, 0x18,
     0xd5, 0xa8, 0x66, 0x18, 0x92, 0x7c, 0xa7, 0x72, 0x3b, 0xe6, 0x3b, 0x21, 0x05, 0x9e, 0xdf,
     0x7a, 0xa5, 0x40, 0x02]
  else List.replicate 64 0

/-- The library as far as one HMAC and the known signatures. -/
def Ring.known : Ring where
  HmacKey := HmacAlgorithm × Bytes
  hmacKey := Prod.mk
  hmacSign key := hmacKnown key.1 key.2
  AeadKey := Empty
  aeadKey _ _ := none
  nonceLen := 12
  aeadTagLen _ := 16
  sealInPlaceAppendTag _ _ _ _ := none
  openInPlace _ _ _ _ := none
  Ed25519KeyPair := Unit
  ed25519FromPkcs8 _ := none
  ed25519FromSeedAndPublicKey seed publicKey :=
    if seed = knownSeed ∧ publicKey = knownPublicKey then some () else none
  ed25519PublicKey _ := knownPublicKey
  ed25519Sign _ := ed25519Known knownPublicKey
  ed25519Verify publicKey data signature := signature = ed25519Known publicKey data
  EcdsaKeyPair _ := Empty
  ecdsaFromPkcs8 _ _ _ := none
  ecdsaFromPrivateKeyAndPublicKey _ _ _ _ := none
  ecdsaPublicKey pair := pair.elim
  ecdsaSign pair := pair.elim
  ecdsaVerify _ _ _ _ := false
  RsaKeyPair := Empty
  rsaFromPkcs8 _ := none
  rsaFromDer _ := none
  rsaSign pair := pair.elim
  rsaVerifyComponents _ _ _ _ _ := false
  rsaVerifyDer _ _ _ _ := false

theorem Ring.known_hmacLength : known.HmacLength where
  length algorithm key data := by
    show (hmacKnown algorithm key data).length = algorithm.digestLen
    rw [hmacKnown]
    split_ifs with h
    · obtain ⟨rfl, -⟩ := h
      rfl
    · exact List.length_replicate

/-- No cipher of `aes-gcm`. -/
def AesGcm.known : AesGcm where
  Aes128Gcm := Empty
  Aes256Gcm := Empty
  aes128FromSlice _ := none
  aes256FromSlice _ := none
  encrypt128 key := key.elim
  encrypt256 key := key.elim
  decrypt128 key := key.elim
  decrypt256 key := key.elim

/-- The public key of a seed, as far as the one. -/
def knownVerifyingKey (seed : Bytes) : { b : Bytes // b.length = 32 } :=
  if seed = knownSeed then ⟨knownPublicKey, rfl⟩ else ⟨List.replicate 32 0, rfl⟩

/-- The library as far as the known signatures. -/
def Dalek.known : Dalek where
  SigningKey := Bytes
  signingKeyFromBytes := id
  sign seed := ed25519Known (knownVerifyingKey seed).val
  VerifyingKey := { b : Bytes // b.length = 32 }
  verifyingKey := knownVerifyingKey
  verifyingKeyFromBytes b := if h : b.length = 32 then some ⟨b, h⟩ else none
  verifyingKeyToBytes key := key.val
  verifyStrict key data signature := signature = ed25519Known key.val data

end Cose2
