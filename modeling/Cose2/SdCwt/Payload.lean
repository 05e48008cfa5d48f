import Cose2.Message.Relays
import Cose2.SdCwt.Decoded
import Cose2.SdCwt.Validator

/-! # Restoring the payload of a message

The issued value is the payload of a signed message, and its disclosures are an unprotected
header parameter.  Both are read back by whoever has ample limits.
-/
namespace Cose2.SdCwt

open Cbor

/-! ### The payload -/

section Model

variable (c : SdCbor2) (mode : RestoreMode) (m : Sign1Message)

end Model

/-! ### Wider limits -/

section Widen

variable {c : SdCbor2} {limits limits' : ProcessingLimits} {depth : Nat}
  (hlimits : limits.Within limits')
include hlimits

theorem Fits.widen {v : Value} (h : Fits limits depth v) : Fits limits' depth v := by
  have hdepths := hlimits.depth
  have hentries := hlimits.containerEntries
  induction h with
  | scalar hs hdepth => exact .scalar hs (by omega)
  | tag hdepth _ ih => exact .tag (by omega) ih
  | array hdepth hlength _ ih => exact .array (by omega) (by omega) ih
  | map hdepth hlength _ _ ihkeys ihvalues => exact .map (by omega) (by omega) ihkeys ihvalues

/-- What is made within some limits is made within wider ones. -/
theorem Disclosure.Made.widen (hk : c.EncodesKeys) {d : Disclosure}
    (h : d.Made c limits) : d.Made c limits' where
  fromKind := by
    obtain ⟨hkind, hvalue, hencoded⟩ := (fromKindWithLimits_ok c).mp h.fromKind
    refine (fromKindWithLimits_ok c).mpr ⟨hkind, ?_, hencoded⟩
    rw [validateDisclosureValue_ok hk] at hvalue ⊢
    intro v hv
    obtain ⟨⟨hredacted, hfits⟩, haffords⟩ := hvalue v hv
    refine ⟨⟨hredacted, hfits.widen hlimits⟩, ?_⟩
    have hitems := hlimits.items
    rw [TraversalBudget.Affords] at haffords ⊢
    simp only at haffords ⊢
    omega
  depth := h.depth.trans hlimits.depth
  fits v hv := (h.fits v hv).widen hlimits

end Widen

/-! ### Reading the disclosures -/

section Reading

variable {c : SdCbor2} {limits : ProcessingLimits} (hr : c.ReadsCanonically)
  {ds : List Disclosure}
include hr

end Reading

/-! ### Reading the message -/

section Message

variable {c : SdCbor2} {limits limits' : ProcessingLimits} {hasher : RedactionHasher}
  {value : Value} {salts : SaltGenerator} {r : IssueResult} {selected : List Disclosure}
  (hr : c.ReadsCanonically)
  (hissue : issueFromPreissuanceWithLimits c value salts hasher limits = .ok r)
  (hample : limits.Ample limits')
include hr hissue hample

end Message

end Cose2.SdCwt
