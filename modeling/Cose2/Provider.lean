import Cose2.Header

/-! # Providers

`src/traits.rs`.  The crate contains no cryptography of its own: callers pass
signers, verifiers, MACs and ciphers, of which nothing is assumed.
-/
namespace Cose2

open Cbor

/-- `EncryptionContext`. -/
structure EncryptionContext where
  nonce : Bytes
  aad : Bytes
deriving DecidableEq, Repr

/-- `Signer`. -/
structure Signer where
  alg : Option Label := none
  kid : Option Bytes := none
  sign : Bytes → Except Error Bytes

/-- `Verifier`. -/
structure Verifier where
  alg : Option Label := none
  kid : Option Bytes := none
  understoodCriticalHeaders : List Label := []
  verify : Bytes → Bytes → Except Error Unit

/-- `Macer`. -/
structure Macer where
  alg : Option Label := none
  kid : Option Bytes := none
  understoodCriticalHeaders : List Label := []
  macCreate : Bytes → Except Error Bytes
  macVerify : Bytes → Bytes → Except Error Unit

/-- `Encryptor`. -/
structure Encryptor where
  alg : Option Label := none
  kid : Option Bytes := none
  understoodCriticalHeaders : List Label := []
  nonceSize : Nat
  baseIv : Option Bytes := none
  encrypt : Bytes → Bytes → Bytes → Except Error Bytes
  decrypt : Bytes → Bytes → Bytes → Except Error Bytes

end Cose2
