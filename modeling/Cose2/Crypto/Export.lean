import Cose2.Crypto.Asymmetric

/-! # Exported providers

The key that a provider is exported as makes the same provider again, or for a signer the
one that verifies its signatures.  The parameters that a provider reads are those that its
export has written.
-/
namespace Cose2

open Cbor Cbor2 Iana

variable {R : Ring} {D : Dalek}

/-! ### Public keys -/

namespace Key

variable {k : Key} {kty : Label} {alg : Int64} {kid baseIv : Option Bytes}
  {keyOps : Option (List Label)}

/-- The exported public keys permit verification, and nothing else. -/
def verifyOnly : Option (List Label) := some [.int keyOperationVerify]

theorem Exported.requireVerify (h : k.Exported kty alg kid baseIv verifyOnly) (name : String) :
    k.requireAnyOperation [keyOperationVerify] name = .ok () :=
  (requireAnyOperation_eq_ok (by decide)).mpr ⟨verifyOnly, h.ops_ok, by decide⟩

/-- The parameters of a key in front of its `key_ops`. -/
theorem get_setOps {ops : List Label} {label : Label} (h : label ≠ keyParameterKeyOps) :
    (k.setOps ops).get label = k.get label :=
  get_insert_of_ne h

/-- A public Ed25519 key with its parameters. -/
structure IsEd25519Public (k : Key) (alg : Int64) (x : Bytes) (kid : Option Bytes) : Prop where
  exported : k.Exported keyTypeOKP alg kid none verifyOnly
  crv : k.get okpKeyParameterCrv = some ellipticCurveEd25519.toValue
  x : k.get okpKeyParameterX = some (.bytes x)

theorem isEd25519Public {x : Bytes} : (ed25519Public alg x kid).IsEd25519Public alg x kid where
  exported := ((exported_withKtyAlg.insert (by decide) (plain_toValue _)).insert (by decide)
    (.bytes x)).setOps _
  crv := by
    rw [ed25519Public, get_setOps (by decide), get_insert_of_ne (by decide), BTreeMap.get_insert,
      if_pos rfl]
  x := by rw [ed25519Public, get_setOps (by decide), BTreeMap.get_insert, if_pos rfl]

/-- A public key on a curve with its parameters. -/
structure IsEc2Public (k : Key) (alg : Int64) (algorithm : EcdsaAlgorithm) (point : Bytes)
    (kid : Option Bytes) : Prop where
  exported : k.Exported keyTypeEC2 alg kid none verifyOnly
  crv : k.get ec2KeyParameterCrv = some algorithm.curve.toValue
  point : ec2UncompressedPublicKey k algorithm.coordinateLen = .ok point

/-- A public RSA key with its parameters. -/
structure IsRsaPublic (k : Key) (alg : Int64) (n e : Bytes) (kid : Option Bytes) : Prop where
  exported : k.Exported keyTypeRSA alg kid none verifyOnly
  n : k.get rsaKeyParameterN = some (.bytes n)
  e : k.get rsaKeyParameterE = some (.bytes e)

theorem isRsaPublic {n e : Bytes} : (rsaPublicCoseKey alg n e kid).IsRsaPublic alg n e kid where
  exported := ((exported_withKtyAlg.insert (by decide) (.bytes n)).insert (by decide)
    (.bytes e)).setOps _
  n := by
    rw [rsaPublicCoseKey, get_setOps (by decide), get_insert_of_ne (by decide),
      BTreeMap.get_insert, if_pos rfl]
  e := by rw [rsaPublicCoseKey, get_setOps (by decide), BTreeMap.get_insert, if_pos rfl]

end Key

/-- The shape of an uncompressed point on the curve of an algorithm. -/
def UncompressedPoint (algorithm : EcdsaAlgorithm) (point : Bytes) : Prop :=
  point.head? = some 0x04 ∧ point.length = 1 + 2 * algorithm.coordinateLen

/-- A point is exported exactly if it is uncompressed, and it is read back. -/
theorem ec2PublicCoseKey_ok {alg : Int64} {point : Bytes} {kid : Option Bytes} {key : Key}
    (h : ec2PublicCoseKey alg point kid = .ok key) :
    ∃ algorithm, ecdsaAlgorithm "ECDSA" alg = .ok algorithm ∧
      UncompressedPoint algorithm point ∧ key.IsEc2Public alg algorithm point kid := by
  simp only [ec2PublicCoseKey, Except.bind_eq_ok, Except.failIf_eq_ok, Except.pure_eq_ok, not_or,
    not_not] at h
  obtain ⟨algorithm, halgorithm, _, ⟨hhead, hlength⟩, rfl⟩ := h
  refine ⟨algorithm, halgorithm, ⟨hhead, hlength⟩, ?_⟩
  obtain ⟨rest, rfl⟩ := List.head?_eq_some_iff.mp hhead
  rw [List.length_cons] at hlength
  rw [List.drop_succ_cons, List.drop_zero, Nat.add_comm 1, List.drop_succ_cons]
  exact
    { exported := (((Key.exported_withKtyAlg.insert (by decide) (Key.plain_toValue _)).insert
        (by decide) (.bytes _)).insert (by decide) (.bytes _)).setOps _
      crv := by
        rw [Key.get_setOps (by decide), Key.get_insert_of_ne (by decide),
          Key.get_insert_of_ne (by decide), BTreeMap.get_insert, if_pos rfl]
      point := by
        simp only [ec2UncompressedPublicKey, Except.bind_eq_ok, Key.requiredBytes_eq_ok,
          Except.failIf_eq_ok, Except.pure_eq_ok]
        refine ⟨rest.take algorithm.coordinateLen, ?_, rest.drop algorithm.coordinateLen, ?_, (),
          ?_, ?_⟩
        · rw [Key.get_setOps (by decide), Key.get_insert_of_ne (by decide), BTreeMap.get_insert,
            if_pos rfl]
        · rw [Key.get_setOps (by decide), BTreeMap.get_insert, if_pos rfl]
        · rw [List.length_take, List.length_drop]
          omega
        · rw [List.take_append_drop] }

/-! ### Kinds of algorithms -/

theorem signatureKind_ed25519 {operation : String} {alg : Int64}
    (h : alg = algorithmEd25519 ∨ alg = algorithmEdDSA) :
    signatureKind operation alg = .ok .ed25519 := by
  rcases h with rfl | rfl <;> rfl

theorem signatureKind_ecdsa {operation operation' : String} {alg : Int64} {a : EcdsaAlgorithm}
    (h : ecdsaAlgorithm operation' alg = .ok a) : signatureKind operation alg = .ok .ecdsa := by
  unfold ecdsaAlgorithm at h
  split_ifs at h with h₁ h₂
  · rcases h₁ with rfl | rfl <;> rfl
  · rcases h₂ with rfl | rfl <;> rfl

theorem signatureKind_rsa {operation operation' : String} {alg : Int64} {a : RsaAlgorithm}
    (h : rsaAlgorithm operation' alg = .ok a) : signatureKind operation alg = .ok .rsa := by
  unfold rsaAlgorithm at h
  split_ifs at h with h₁ h₂ h₃ h₄ h₅ h₆ <;> subst_vars <;> rfl

/-- The curve that `RingVerifier::from_cose_key` expects is the one of the algorithm. -/
theorem expectedCurve {operation : String} {alg : Int64} {a : EcdsaAlgorithm}
    (h : ecdsaAlgorithm operation alg = .ok a) :
    (if alg = algorithmES256 ∨ alg = algorithmESP256 then EcdsaAlgorithm.p256Sha256Fixed
      else .p384Sha384Fixed) = a := by
  unfold ecdsaAlgorithm at h
  split_ifs at h ⊢ <;> cases h <;> rfl

/-! ### Symmetric providers -/

theorem RingMacer.fromCoseKey_toCoseKey {p : RingMacer R} {key : Key}
    (h : p.toCoseKey = .ok key) : RingMacer.fromCoseKey R key = .ok p := by
  obtain rfl := Except.ok.inj h
  have hexported : (Key.symmetric p.alg p.rawKey p.kid none p.keyOps).Exported keyTypeSymmetric
      p.alg p.kid none p.keyOps := Key.exported_symmetric
  exact fromCoseKey_eq_ok.mpr ⟨hexported.kty, hexported.alg_ok, Key.get_symmetric, hexported.kid,
    hexported.ops_ok⟩

theorem AeadEncryptor.fromCoseKey_toCoseKey {S : AeadSuite} {p : AeadEncryptor S} {key : Key}
    (h : p.toCoseKey = .ok key) : AeadEncryptor.fromCoseKey S key = .ok p := by
  obtain rfl := Except.ok.inj h
  have hexported : (Key.symmetric p.alg p.rawKey p.kid p.baseIv p.keyOps).Exported
      keyTypeSymmetric p.alg p.kid p.baseIv p.keyOps := Key.exported_symmetric
  exact fromCoseKey_eq_ok.mpr ⟨hexported.kty, hexported.alg_ok, Key.get_symmetric, hexported.kid,
    hexported.baseIv, hexported.ops_ok⟩

/-! ### Verifiers -/

namespace RingVerifier

variable {v : RingVerifier} {key : Key}

theorem fromCoseKey_ed25519 {alg : Int64} {x : Bytes} {kid : Option Bytes}
    (hfits : alg = algorithmEd25519 ∨ alg = algorithmEdDSA)
    (h : key.IsEd25519Public alg x kid) :
    fromCoseKey key = .ok { alg, kid, key := .ed25519 x, fits := hfits } := by
  simp only [fromCoseKey, Except.bind_eq_ok, Key.requiredIntegerAlg_eq_ok]
  refine ⟨(), h.exported.requireVerify _, alg, h.exported.alg_ok, .ed25519,
    signatureKind_ed25519 hfits, ?_⟩
  simp only [Except.bind_eq_ok, Key.requireIntegerKty_eq_ok,
    Key.requireIntegerParameter_eq_ok, Key.requiredBytes_eq_ok, Key.kidOwned_eq_ok]
  refine ⟨(), h.exported.kty, (), h.crv, x, h.x, kid, h.exported.kid, ?_⟩
  rw [ed25519WithAlg.eq_def]
  split
  · next e he =>
    rw [(requireEd25519Alg_eq_ok (u := ())).mpr hfits] at he
    cases he
  · rfl

theorem fromCoseKey_ecdsa {alg : Int64} {algorithm : EcdsaAlgorithm} {point : Bytes}
    {kid : Option Bytes} (hfits : ∃ a, ecdsaAlgorithm "ECDSA verification" alg = .ok a)
    (halgorithm : ecdsaAlgorithm "ECDSA" alg = .ok algorithm)
    (h : key.IsEc2Public alg algorithm point kid) :
    fromCoseKey key = .ok { alg, kid, key := .ecdsa point, fits := hfits } := by
  simp only [fromCoseKey, Except.bind_eq_ok, Key.requiredIntegerAlg_eq_ok]
  refine ⟨(), h.exported.requireVerify _, alg, h.exported.alg_ok, .ecdsa,
    signatureKind_ecdsa halgorithm, ?_⟩
  simp only [Except.bind_eq_ok, Key.requireIntegerKty_eq_ok,
    Key.requireIntegerParameter_eq_ok, Key.kidOwned_eq_ok, expectedCurve halgorithm]
  refine ⟨(), h.exported.kty, (), h.crv, point, h.point, kid, h.exported.kid, ?_⟩
  rw [ecdsa.eq_def]
  split
  · next e he =>
    rw [hfits.choose_spec] at he
    cases he
  · rfl

theorem fromCoseKey_rsa {alg : Int64} {n e : Bytes} {kid : Option Bytes}
    (hfits : ∃ a, rsaAlgorithm "RSA verification" alg = .ok a)
    (h : key.IsRsaPublic alg n e kid) :
    fromCoseKey key = .ok { alg, kid, key := .rsaComponents n e, fits := hfits } := by
  simp only [fromCoseKey, Except.bind_eq_ok, Key.requiredIntegerAlg_eq_ok]
  refine ⟨(), h.exported.requireVerify _, alg, h.exported.alg_ok, .rsa,
    signatureKind_rsa hfits.choose_spec, ?_⟩
  simp only [Except.bind_eq_ok, Key.requireIntegerKty_eq_ok,
    Key.requiredBytes_eq_ok, Key.kidOwned_eq_ok]
  refine ⟨(), h.exported.kty, n, h.n, e, h.e, kid, h.exported.kid, ?_⟩
  rw [rsaComponents.eq_def]
  split
  · next e he =>
    rw [hfits.choose_spec] at he
    cases he
  · rfl

end RingVerifier

/-- The verifier of `ed25519-dalek` is loaded from the bytes of its key. -/
theorem Ed25519Verifier.fromCoseKey_ed25519 (hD : D.KeysAsBytes) {v : Ed25519Verifier D} {key : Key}
    (h : key.IsEd25519Public v.alg (D.verifyingKeyToBytes v.key) v.kid) :
    fromCoseKey D key = .ok v := by
  have halg : requireAlg key = .ok v.alg := by
    rw [requireAlg, h.exported.alg_ok, Except.ok_bind]
    exact if_pos v.fits
  simp only [fromCoseKey, Except.bind_eq_ok, Key.requireIntegerKty_eq_ok,
    Key.requireIntegerParameter_eq_ok, Key.requiredBytes_eq_ok, Key.kidOwned_eq_ok]
  refine ⟨(), h.exported.requireVerify _, v.alg, halg, (), h.exported.kty, (), h.crv, _, h.x, v.kid,
    h.exported.kid, ?_⟩
  rw [fromPublicKeyWithAlg.eq_def]
  split
  · next e he =>
    rw [requireSupportedAlg, (requireEd25519Alg_eq_ok (u := ())).mpr v.fits] at he
    cases he
  · rw [Except.seq_eq_ok, Except.failIf_eq_ok, not_not, Except.bind_eq_ok]
    exact ⟨hD.length v.key, v.key, by rw [hD.key, Except.ofOption_eq_ok], rfl⟩

/-! ### Providers with the known key -/

/-- A provider that truncates the one HMAC. -/
def knownMacer : RingMacer Ring.known where
  alg := algorithmHMAC_256_64
  kid := some [9]
  key := (.sha256, [1, 2, 3, 4])
  rawKey := [1, 2, 3, 4]
  tagLen := 8
  keyOps := none
  made := ⟨.sha256, rfl, rfl⟩
  usable := by decide

/-- A signer with the one seed. -/
def knownSigner : Ed25519Signer Dalek.known where
  alg := algorithmEdDSA
  kid := none
  key := knownSeed
  fits := .inr rfl

/-- The verifier of what the signer signs. -/
def knownVerifier : Ed25519Verifier Dalek.known where
  alg := algorithmEdDSA
  kid := none
  key := knownVerifyingKey knownSeed
  fits := .inr rfl

end Cose2
