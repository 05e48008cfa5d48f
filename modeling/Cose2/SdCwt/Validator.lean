import Cose2.SdCwt.Accounting
import Cose2.SdCwt.Envelope
import Cose2.SdCwt.RegisteredClaims

/-! # The validator of SD-CWTs

`SdCwtValidator` of `sd-cwt/src/validation.rs`: it checks the envelope and the claims
as they were signed, restores the disclosed claims, and checks what it restored.
-/
namespace Cose2.SdCwt

open Cbor

/-- `Sign1Message`. -/
abbrev Sign1Message := AuthMessage Unit

section Model

variable (c : SdCbor2) (sha256 : Bytes → Bytes) (options : SdCwtValidationOptions)
  (m : Sign1Message)

end Model
end Cose2.SdCwt
