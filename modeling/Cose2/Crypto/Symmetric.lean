import Cose2.Crypto.Keys
import Cose2.Crypto.Ring

/-! # Built-in providers with a symmetric key

`RingMacer` and `RingEncryptor` of `src/crypto.rs`, and `AesGcmEncryptor` of
`src/aes_gcm.rs`.  The fields of a provider are private, so that every provider comes from
`new` or `from_cose_key`: its cipher was made from the key that it keeps for the export,
and its `key_ops` permit one of its operations.
-/
namespace Cose2

open Cbor Iana

/-- `unsupported_alg`. -/
def unsupportedAlg (operation : String) (alg : Int64) : Error := .custom
  (s!"unsupported {operation} algorithm {(Label.int alg).display} " ++
    "for the built-in crypto backend")

/-! ### Comparing tags -/

/-- `constant_time_eq`. -/
def constantTimeEq (a b : Bytes) : Bool :=
  if a.length ≠ b.length then false
  else decide ((a.zip b).foldl (fun diff e => diff ||| (e.1 ^^^ e.2)) 0 = 0)

theorem foldl_differences {es : List (UInt8 × UInt8)} {diff : UInt8} :
    es.foldl (fun diff e => diff ||| (e.1 ^^^ e.2)) diff = 0 ↔
      diff = 0 ∧ ∀ e ∈ es, e.1 = e.2 := by
  induction es generalizing diff with
  | nil => simp
  | cons e es ih => simp [ih, and_assoc]

/-- The comparison looks at every byte and compares nothing else. -/
theorem constantTimeEq_iff {a b : Bytes} : constantTimeEq a b = true ↔ a = b := by
  unfold constantTimeEq
  split_ifs with hlength
  · refine iff_of_false (by rintro ⟨⟩) fun h => hlength ?_
    rw [h]
  · rw [not_not] at hlength
    rw [decide_eq_true_iff, foldl_differences]
    simp only [true_and]
    rw [← List.forall₂_eq_eq_eq, List.forall₂_iff_zip]
    simp [hlength]

/-! ### HMAC -/

/-- `hmac_algorithm`. -/
def hmacAlgorithm (alg : Int64) : Except Error (HmacAlgorithm × Nat) :=
  if alg = algorithmHMAC_256_64 then .ok (.sha256, 8)
  else if alg = algorithmHMAC_256_256 then .ok (.sha256, 32)
  else if alg = algorithmHMAC_384_384 then .ok (.sha384, 48)
  else if alg = algorithmHMAC_512_512 then .ok (.sha512, 64)
  else .error (unsupportedAlg "HMAC" alg)

/-- A tag is not longer than the digest it is cut from. -/
theorem hmacAlgorithm_tagLen {alg : Int64} {algorithm : HmacAlgorithm} {tagLen : Nat}
    (h : hmacAlgorithm alg = .ok (algorithm, tagLen)) : tagLen ≤ algorithm.digestLen := by
  unfold hmacAlgorithm at h
  split_ifs at h <;> cases h <;> decide

/-- `RingMacer`. -/
structure RingMacer (R : Ring) where
  alg : Int64
  kid : Option Bytes
  key : R.HmacKey
  rawKey : Bytes
  tagLen : Nat
  keyOps : Option (List Label)
  made : ∃ algorithm, hmacAlgorithm alg = .ok (algorithm, tagLen) ∧ key = R.hmacKey algorithm rawKey
  usable : keyOpsAllow keyOps [keyOperationMacCreate, keyOperationMacVerify] = true

namespace RingMacer

variable (R : Ring)

/-- `RingMacer::new`. -/
def new (alg : Int64) (key : Bytes) (kid : Option Bytes) : Except Error (RingMacer R) :=
  match made : hmacAlgorithm alg with
  | .error e => .error e
  | .ok (algorithm, tagLen) => .ok
    { alg, kid, key := R.hmacKey algorithm key, rawKey := key, tagLen, keyOps := none
      made := ⟨algorithm, made, rfl⟩, usable := rfl }

/-- `RingMacer::from_cose_key`. -/
def fromCoseKey (key : Key) : Except Error (RingMacer R) := do
  key.requireIntegerKty keyTypeSymmetric
  let alg ← key.requiredIntegerAlg "crypto backend"
  let k ← key.requiredBytes symmetricKeyParameterK "k"
  let kid ← key.kidOwned
  let macer ← new R alg k kid
  let keyOps ← key.ops
  if usable : keyOpsAllow keyOps [keyOperationMacCreate, keyOperationMacVerify] = true then
    return { macer with keyOps, usable }
  else .error (.custom "COSE_Key key_ops permits neither MAC create nor MAC verify")

variable {R}

/-- A provider is made from its algorithm and its key. -/
theorem new_eq_ok {alg : Int64} {key : Bytes} {kid : Option Bytes} {p : RingMacer R} :
    new R alg key kid = .ok p ↔
      p.alg = alg ∧ p.rawKey = key ∧ p.kid = kid ∧ p.keyOps = none := by
  obtain ⟨alg', kid', key', rawKey', tagLen', keyOps', ⟨algorithm', hmade', hkey'⟩, husable'⟩ := p
  rw [new.eq_def]
  split
  · next e he =>
    refine iff_of_false (by rintro ⟨⟩) ?_
    rintro ⟨rfl, -⟩
    rw [hmade'] at he
    cases he
  · next algorithm tagLen hmade =>
    constructor
    · intro h
      cases h
      exact ⟨rfl, rfl, rfl, rfl⟩
    · rintro ⟨rfl, rfl, rfl, rfl⟩
      obtain ⟨rfl, rfl⟩ := Prod.mk.inj (Except.ok.inj (hmade.symm.trans hmade'))
      subst hkey'
      rfl

/-- `RingMacer::to_cose_key`. -/
def toCoseKey (p : RingMacer R) : Except Error Key :=
  .ok (Key.symmetric p.alg p.rawKey p.kid none p.keyOps)

/-- `RingMacer::mac_create`. -/
def macCreate (p : RingMacer R) (data : Bytes) : Except Error Bytes := do
  requireKeyOps p.keyOps [keyOperationMacCreate] "MAC create"
  return (R.hmacSign p.key data).take p.tagLen

/-- `RingMacer::mac_verify`. -/
def macVerify (p : RingMacer R) (data tag : Bytes) : Except Error Unit := do
  requireKeyOps p.keyOps [keyOperationMacVerify] "MAC verify"
  Except.failIf (tag.length ≠ p.tagLen) (.verify "HMAC tag length mismatch")
  let expected := R.hmacSign p.key data
  Except.failIf (constantTimeEq (expected.take p.tagLen) tag = false)
    (.verify "HMAC tag mismatch")

/-- `Macer for RingMacer`. -/
def toMacer (p : RingMacer R) : Macer where
  alg := some (.int p.alg)
  kid := p.kid
  macCreate := p.macCreate
  macVerify := p.macVerify

/-- A key is loaded as the provider that has its parameters. -/
theorem fromCoseKey_eq_ok {key : Key} {p : RingMacer R} : fromCoseKey R key = .ok p ↔
    key.get keyParameterKty = some keyTypeSymmetric.toValue ∧ key.alg = .ok (some (.int p.alg)) ∧
      key.get symmetricKeyParameterK = some (.bytes p.rawKey) ∧
      key.get keyParameterKid = p.kid.map Value.bytes ∧ key.ops = .ok p.keyOps := by
  simp only [fromCoseKey, Except.bind_eq_ok, Key.requireIntegerKty_eq_ok,
    Key.requiredIntegerAlg_eq_ok, Key.requiredBytes_eq_ok, Key.kidOwned_eq_ok]
  constructor
  · rintro ⟨_, hkty, alg, halg, k, hk, kid, hkid, macer, hnew, keyOps, hops, h⟩
    obtain ⟨rfl, rfl, rfl, -⟩ := new_eq_ok.mp hnew
    split at h
    · cases h
      exact ⟨hkty, halg, hk, hkid, hops⟩
    · cases h
  · rintro ⟨hkty, halg, hk, hkid, hops⟩
    refine ⟨(), hkty, p.alg, halg, p.rawKey, hk, p.kid, hkid,
      { p with keyOps := none, usable := rfl }, new_eq_ok.mpr ⟨rfl, rfl, rfl, rfl⟩, p.keyOps, hops,
      ?_⟩
    rw [dif_pos p.usable]
    rfl

/-- A tag has the size that the algorithm asks for. -/
theorem length_tag (hR : R.HmacLength) (p : RingMacer R) (data : Bytes) :
    ((R.hmacSign p.key data).take p.tagLen).length = p.tagLen := by
  obtain ⟨algorithm, halgorithm, hkey⟩ := p.made
  rw [List.length_take, hkey, hR.length]
  exact min_eq_left (hmacAlgorithm_tagLen halgorithm)

end RingMacer

/-! ### AEADs -/

/-- What `RingEncryptor` and `AesGcmEncryptor` differ in. -/
structure AeadSuite where
  Cipher : Type
  /-- What the provider calls itself. -/
  backend : String
  cipher : (alg : Int64) → (key : Bytes) → Except Error Cipher
  nonceSize : Nat
  encrypt : Cipher → (nonce plaintext aad : Bytes) → Except Error Bytes
  decrypt : Cipher → (nonce ciphertext aad : Bytes) → Except Error Bytes

/-- A provider of content encryption. -/
structure AeadEncryptor (S : AeadSuite) where
  alg : Int64
  kid : Option Bytes
  cipher : S.Cipher
  rawKey : Bytes
  baseIv : Option Bytes
  keyOps : Option (List Label)
  made : S.cipher alg rawKey = .ok cipher
  usable : keyOpsAllow keyOps [keyOperationEncrypt, keyOperationDecrypt] = true

namespace AeadEncryptor

variable (S : AeadSuite)

/-- `RingEncryptor::new` and `AesGcmEncryptor::new`. -/
def new (alg : Int64) (key : Bytes) (kid : Option Bytes) : Except Error (AeadEncryptor S) :=
  match made : S.cipher alg key with
  | .error e => .error e
  | .ok cipher => .ok
    { alg, kid, cipher, rawKey := key, baseIv := none, keyOps := none, made, usable := rfl }

/-- `RingEncryptor::from_cose_key` and `AesGcmEncryptor::from_cose_key`. -/
def fromCoseKey (key : Key) : Except Error (AeadEncryptor S) := do
  key.requireIntegerKty keyTypeSymmetric
  let alg ← key.requiredIntegerAlg S.backend
  let k ← key.requiredBytes symmetricKeyParameterK "k"
  let kid ← key.kidOwned
  let encryptor ← new S alg k kid
  let baseIv ← key.baseIv
  let keyOps ← key.ops
  if usable : keyOpsAllow keyOps [keyOperationEncrypt, keyOperationDecrypt] = true then
    return { encryptor with baseIv, keyOps, usable }
  else .error (.custom "COSE_Key key_ops permits neither encryption nor decryption")

variable {S}

theorem new_eq_ok {alg : Int64} {key : Bytes} {kid : Option Bytes} {p : AeadEncryptor S} :
    new S alg key kid = .ok p ↔ p.alg = alg ∧ p.rawKey = key ∧ p.kid = kid ∧
      p.baseIv = none ∧ p.keyOps = none := by
  obtain ⟨alg', kid', cipher', rawKey', baseIv', keyOps', hmade', husable'⟩ := p
  rw [new.eq_def]
  split
  · next e he =>
    refine iff_of_false (by rintro ⟨⟩) ?_
    rintro ⟨rfl, rfl, -⟩
    rw [hmade'] at he
    cases he
  · next cipher hmade =>
    constructor
    · intro h
      cases h
      exact ⟨rfl, rfl, rfl, rfl, rfl⟩
    · rintro ⟨rfl, rfl, rfl, rfl, rfl⟩
      obtain rfl := Except.ok.inj (hmade.symm.trans hmade')
      rfl

/-- `RingEncryptor::with_base_iv` and `AesGcmEncryptor::with_base_iv`. -/
def withBaseIv (p : AeadEncryptor S) (baseIv : Bytes) : AeadEncryptor S :=
  { p with baseIv := some baseIv }

/-- `RingEncryptor::to_cose_key` and `AesGcmEncryptor::to_cose_key`. -/
def toCoseKey (p : AeadEncryptor S) : Except Error Key :=
  .ok (Key.symmetric p.alg p.rawKey p.kid p.baseIv p.keyOps)

/-- The `encrypt` of both providers. -/
def encrypt (p : AeadEncryptor S) (nonce plaintext aad : Bytes) : Except Error Bytes := do
  requireKeyOps p.keyOps [keyOperationEncrypt] "encryption"
  S.encrypt p.cipher nonce plaintext aad

/-- The `decrypt` of both providers. -/
def decrypt (p : AeadEncryptor S) (nonce ciphertext aad : Bytes) : Except Error Bytes := do
  requireKeyOps p.keyOps [keyOperationDecrypt] "decryption"
  S.decrypt p.cipher nonce ciphertext aad

/-- `Encryptor for RingEncryptor` and `Encryptor for AesGcmEncryptor`. -/
def toEncryptor (p : AeadEncryptor S) : Encryptor where
  alg := some (.int p.alg)
  kid := p.kid
  nonceSize := S.nonceSize
  baseIv := p.baseIv
  encrypt := p.encrypt
  decrypt := p.decrypt

/-- A key is loaded as the provider that has its parameters. -/
theorem fromCoseKey_eq_ok {key : Key} {p : AeadEncryptor S} : fromCoseKey S key = .ok p ↔
    key.get keyParameterKty = some keyTypeSymmetric.toValue ∧ key.alg = .ok (some (.int p.alg)) ∧
      key.get symmetricKeyParameterK = some (.bytes p.rawKey) ∧
      key.get keyParameterKid = p.kid.map Value.bytes ∧
      key.get keyParameterBaseIV = p.baseIv.map Value.bytes ∧ key.ops = .ok p.keyOps := by
  simp only [fromCoseKey, Except.bind_eq_ok, Key.requireIntegerKty_eq_ok,
    Key.requiredIntegerAlg_eq_ok, Key.requiredBytes_eq_ok, Key.kidOwned_eq_ok, Key.baseIv_eq_ok]
  constructor
  · rintro ⟨_, hkty, alg, halg, k, hk, kid, hkid, encryptor, hnew, baseIv, hbaseIv, keyOps, hops, h⟩
    obtain ⟨rfl, rfl, rfl, -⟩ := new_eq_ok.mp hnew
    split at h
    · cases h
      exact ⟨hkty, halg, hk, hkid, hbaseIv, hops⟩
    · cases h
  · rintro ⟨hkty, halg, hk, hkid, hbaseIv, hops⟩
    refine ⟨(), hkty, p.alg, halg, p.rawKey, hk, p.kid, hkid,
      { p with baseIv := none, keyOps := none, usable := rfl },
      new_eq_ok.mpr ⟨rfl, rfl, rfl, rfl, rfl⟩, p.baseIv, hbaseIv, p.keyOps, hops, ?_⟩
    rw [dif_pos p.usable]
    rfl

end AeadEncryptor

/-! ### The two suites -/

section Ring

variable (R : Ring)

/-- `aead_algorithm`. -/
def aeadAlgorithm (alg : Int64) : Except Error AeadAlgorithm :=
  if alg = algorithmA128GCM then .ok .aes128Gcm
  else if alg = algorithmA256GCM then .ok .aes256Gcm
  else if alg = algorithmChaCha20Poly1305 then .ok .chacha20Poly1305
  else .error (unsupportedAlg "AEAD" alg)

/-- What `RingEncryptor` does with its cipher. -/
def Ring.aead : AeadSuite where
  Cipher := R.AeadKey
  backend := "crypto backend"
  cipher alg key := do
    let algorithm ← aeadAlgorithm alg
    Except.ofOption (.custom "invalid AEAD key length") (R.aeadKey algorithm key)
  nonceSize := R.nonceLen
  encrypt cipher nonce plaintext aad := do
    Except.failIf (nonce.length ≠ R.nonceLen) (.custom "invalid AEAD nonce length")
    Except.failIf (¬ plaintext.length + R.aeadTagLen cipher < usizeBound)
      (.custom "AEAD ciphertext size overflow")
    Except.ofOption (.custom "AEAD encryption failed")
      (R.sealInPlaceAppendTag cipher nonce aad plaintext)
  decrypt cipher nonce ciphertext aad := do
    Except.failIf (nonce.length ≠ R.nonceLen) (.custom "invalid AEAD nonce length")
    Except.ofOption (.verify "AEAD authentication failed")
      (R.openInPlace cipher nonce aad ciphertext)

/-- `RingEncryptor`. -/
abbrev RingEncryptor := AeadEncryptor R.aead

end Ring

section AesGcm

variable (A : AesGcm)

/-- `AesGcmCipher`. -/
inductive AesGcmCipher where
  | aes128 (cipher : A.Aes128Gcm)
  | aes256 (cipher : A.Aes256Gcm)

/-- `NONCE_LEN`. -/
def aesGcmNonceLen : Nat := 12

/-- `aead_seal` and `aead_open`, but for what they do with the nonce. -/
def withAesGcmNonce (nonce : Bytes) (failed : Error) (run : Option Bytes) : Except Error Bytes := do
  Except.failIf (nonce.length ≠ aesGcmNonceLen) (.custom "invalid AEAD nonce length")
  Except.ofOption failed run

/-- What `AesGcmEncryptor` does with its cipher. -/
def AesGcm.aead : AeadSuite where
  Cipher := AesGcmCipher A
  backend := "AES-GCM backend"
  cipher alg key :=
    if alg = algorithmA128GCM then
      Except.ofOption (.custom "invalid A128GCM key length") ((A.aes128FromSlice key).map .aes128)
    else if alg = algorithmA256GCM then
      Except.ofOption (.custom "invalid A256GCM key length") ((A.aes256FromSlice key).map .aes256)
    else .error (.custom (s!"unsupported AEAD algorithm {(Label.int alg).display} " ++
      "for the built-in AES-GCM backend"))
  nonceSize := aesGcmNonceLen
  encrypt cipher nonce plaintext aad :=
    withAesGcmNonce nonce (.custom "AEAD encryption failed")
      (match cipher with
        | .aes128 c => A.encrypt128 c nonce plaintext aad
        | .aes256 c => A.encrypt256 c nonce plaintext aad)
  decrypt cipher nonce ciphertext aad :=
    withAesGcmNonce nonce (.verify "AEAD authentication failed")
      (match cipher with
        | .aes128 c => A.decrypt128 c nonce ciphertext aad
        | .aes256 c => A.decrypt256 c nonce ciphertext aad)

/-- `AesGcmEncryptor`. -/
abbrev AesGcmEncryptor := AeadEncryptor A.aead

end AesGcm

end Cose2
