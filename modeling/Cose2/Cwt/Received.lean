import Cose2.Cwt.Validator

/-! # Received claims

A receiver can validate the typed claims it decodes, or the map that the bytes encode.
Taking the registered claims out of the map does not change what is found under a label
(`Claims.Reads`), so both validations read the same data in the end.
-/
namespace Cose2

open Cbor Iana

namespace Claims.Reads

variable {map : CoseMap} {claims : Claims}

/-- The accessor of the map finds the issuer that has been taken out. -/
theorem getText (h : Reads map claims) : map.getText cwtClaimIss = .ok claims.issuer := by
  have hissuer := h.issuer
  rw [CoseMap.getText]
  cases hget : map.get cwtClaimIss with
  | none =>
    rw [hget] at hissuer
    exact hissuer
  | some value =>
    rw [hget] at hissuer
    cases value with
    | text s => exact hissuer
    | integer | bytes | float | bool | null | simple | tag | array | map => cases hissuer

/-- Both validations check the same dates, the same issuer and the same audience. -/
theorem validateMap_eq (h : Reads map claims) (v : Validator) (clock : Except Duration Duration)
    (debug : String → String) : v.validateMap clock debug map = v.validate clock debug claims := by
  rw [Validator.validateMap, Validator.validate, numericDateClaim, numericDateClaim,
    numericDateClaim, audienceClaim, h.expiration, h.notBefore, h.issuedAt, h.audience, h.getText]
  simp only [Except.ok_bind]

end Claims.Reads

namespace Claims

/-- What `from_slice` accepts is a map that holds what the fields say. -/
theorem fromSlice_ok {c : Cbor2} {data : Bytes} {claims : Claims} :
    fromSlice c data = .ok claims ↔
      ∃ map, CoseMap.fromSlice c data = .ok map ∧ Reads map claims := by
  simp only [fromSlice, Except.bind_eq_ok, fromMap_ok]

/-- **The typed claims of a byte string are valid exactly when its map is**, for every
validator and every time. -/
theorem validate_iff_validateMap (c : Cbor2) (data : Bytes) (claims : Claims)
    (h : fromSlice c data = .ok claims) :
    ∃ map, CoseMap.fromSlice c data = .ok map ∧
      ∀ (v : Validator) (clock : Except Duration Duration) (debug : String → String),
        (v.validate clock debug claims = .ok () ↔ v.validateMap clock debug map = .ok ()) := by
  obtain ⟨map, hmap, hreads⟩ := fromSlice_ok.mp h
  refine ⟨map, hmap, fun v clock debug => ?_⟩
  rw [hreads.validateMap_eq v clock debug]

/-- A set of claims with an issuer and a date that is a double: `{1: "x", 4: 1.5}`. -/
def dated : Bytes := [0xa2, 0x01, 0x61, 0x78, 0x04, 0xf9, 0x3e, 0x00]

theorem dated_validate_iff : ∃ claims map, fromSlice Cbor2.reference dated = .ok claims ∧
    CoseMap.fromSlice Cbor2.reference dated = .ok map ∧
      ∀ (v : Validator) (clock : Except Duration Duration) (debug : String → String),
        (v.validate clock debug claims = .ok () ↔ v.validateMap clock debug map = .ok ()) := by
  obtain ⟨claims, h⟩ := Except.isOk_iff.mp
    (show (fromSlice Cbor2.reference dated).isOk = true from rfl)
  obtain ⟨map, hmap, hvalid⟩ := validate_iff_validateMap Cbor2.reference dated claims h
  exact ⟨claims, map, h, hmap, hvalid⟩

end Claims
end Cose2
