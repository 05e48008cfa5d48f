import Cose2.SdCwt.Payload

/-! # From the issuer over the holder to the verifier

The issuer signs what it issued, with the disclosures in the unprotected header, which the
signature does not cover.  Whoever receives the message may leave disclosures out before
sending it on, over any number of relays: each receiver accepts the signature, reads the
disclosures that were left in, and restores from them what they show of the pre-issuance value.
-/
namespace Cose2.SdCwt

open Cbor Iana

section Holder

variable {c : SdCbor2} {limits limits' : ProcessingLimits} {hasher : RedactionHasher}
  {value : Value} {salts : SaltGenerator} {r : IssueResult} {selected : List Disclosure}

end Holder

/-! ### Messages -/

section Message

variable {c : SdCbor2} {limits limits' : ProcessingLimits} {hasher : RedactionHasher}
  {value : Value} {salts : SaltGenerator} {r : IssueResult} {selected : List Disclosure}
  {alg : Option Label} {kid : Option Bytes} {create : Bytes → Except Error Bytes}
  {externalAad : Option Bytes} {m₀ m m₁ m' : Sign1Message} {u : Header} {b : Bytes}

variable (hi : c.ReadsItems) (hw : c.WritesValues) (hrb : c.ReadsBack) (hc : c.ReadsValues)
  (hd : c.Describes) (ht : c.WritesTuples) (hb : c.ReadsByteStrings) (hr : c.ReadsCanonically)
  (hrecursion : defaultMaxDepth < c.recursionLimit)
include hi hw hrb hc hd ht hb hr hrecursion

end Message

/-! ### One claim -/

end Cose2.SdCwt
