import Cose2.SdCwt.Basic

/-! # Claims in two maps

Claims may be repeated in the protected header and in the payload, hidden or
disclosed in each on its own.  `claim_values_match` of `sd-cwt/src/validation.rs`
compares what can be seen of two such values.
-/
namespace Cose2.SdCwt

open Cbor

/-- The comparison with a given value. -/
abbrev Matcher := Value → Except Error Bool

section Model

variable (c : SdCbor2)

/-- Whether two values have the same canonical encoding. -/
def sameCanonical (left right : Value) : Except Error Bool := do
  return (← c.canonicalVec left) = (← c.canonicalVec right)

/-- A loop over pairs that ends with the first mismatch. -/
def allMatch : List (Matcher × Value) → Except Error Bool
  | [] => .ok true
  | (matcher, right) :: pairs => do
    if !(← matcher right) then return false
    allMatch pairs

/-- The visible entries of a map by their labels. -/
def labelledValues : List (Value × Value) → BTreeMap Label Value →
    Except Error (BTreeMap Label Value)
  | [], values => .ok values
  | (key, value) :: entries, values =>
    if isRedactedClaimKeysLabel key then labelledValues entries values
    else do
      let label ← labelFromValue key
      labelledValues entries (values.insert label value)

/-- The loop over the entries of the left map: what remains of the right one, or
`none` after a mismatch. -/
def matchEntries (rightHidden : Bool) : List (Value × Matcher) → BTreeMap Label Value →
    Except Error (Option (BTreeMap Label Value))
  | [], rightValues => .ok (some rightValues)
  | (key, matcher) :: left, rightValues =>
    if isRedactedClaimKeysLabel key then matchEntries rightHidden left rightValues
    else do
      let label ← labelFromValue key
      match rightValues.get label with
      | some other =>
        if !(← matcher other) then return none
        matchEntries rightHidden left (rightValues.remove label)
      | none =>
        if !rightHidden then return none
        matchEntries rightHidden left rightValues

/-- Two maps. -/
def mapsMatch (left : List (Value × Matcher)) (right : List (Value × Value)) :
    Except Error Bool := do
  let leftHidden := left.any fun e => isRedactedClaimKeysLabel e.1
  let rightHidden := right.any fun e => isRedactedClaimKeysLabel e.1
  let rightValues ← labelledValues right ∅
  match ← matchEntries rightHidden left rightValues with
  | none => return false
  | some rightValues => return leftHidden || rightValues.entries.isEmpty

/-- Two arrays; of the left one, which elements are redacted and how the others compare. -/
def arraysMatch (left : List (Bool × Matcher)) (right : List Value) : Except Error Bool :=
  let leftKnown := left.countP fun e => !e.1
  let rightKnown := right.countP fun v => !isRedactedElement v
  if right.length < leftKnown ∨ left.length < rightKnown then .ok false
  else if leftKnown = left.length ∧ rightKnown = right.length then
    allMatch ((left.map Prod.snd).zip right)
  else
    -- only the elements in front of the first hidden one and behind the last can be aligned
    allMatch
      ((((left.takeWhile fun e => !e.1).map Prod.snd).zip
          (right.takeWhile fun v => !isRedactedElement v)) ++
        (((left.reverse.takeWhile fun e => !e.1).map Prod.snd).zip
          (right.reverse.takeWhile fun v => !isRedactedElement v)))

mutual
/-- `claim_values_match`. -/
def claimValuesMatch : Value → Matcher
  | .map left, .map right => mapsMatch (entryMatchers left) right
  | .array left, .array right => arraysMatch (itemMatchers left) right
  | .tag leftTag left, .tag rightTag right =>
    if leftTag = rightTag then claimValuesMatch left right
    else sameCanonical c (.tag leftTag left) (.tag rightTag right)
  | left, right => sameCanonical c left right

/-- The comparison with each entry. -/
def entryMatchers : List (Value × Value) → List (Value × Matcher)
  | [] => []
  | (key, value) :: entries => (key, claimValuesMatch value) :: entryMatchers entries

/-- The comparison with each element. -/
def itemMatchers : List Value → List (Bool × Matcher)
  | [] => []
  | item :: items => (isRedactedElement item, claimValuesMatch item) :: itemMatchers items
end

theorem entryMatchers_eq (entries : List (Value × Value)) :
    entryMatchers c entries = entries.map fun e => (e.1, claimValuesMatch c e.2) := by
  induction entries with
  | nil => rfl
  | cons e entries ih =>
    obtain ⟨key, value⟩ := e
    rw [entryMatchers, ih, List.map_cons]

theorem itemMatchers_eq (items : List Value) :
    itemMatchers c items = items.map fun v => (isRedactedElement v, claimValuesMatch c v) := by
  induction items with
  | nil => rfl
  | cons item items ih => rw [itemMatchers, ih, List.map_cons]

end Model

/-! ### Claims maps -/

section Claims

variable (c : SdCbor2)

/-- `safe_map_key`. -/
def safeMapKey (value : Value) : Except Error Bytes :=
  match value with
  | .integer _ => c.canonicalVec value
  | .text s =>
    if 1 ≤ (utf8 s).length ∧ (utf8 s).length ≤ 255 then c.canonicalVec value
    else .error (.unexpectedType "SD-CWT text map keys must contain 1 to 255 octets")
  | _ => .error (.unexpectedType "SD-CWT safe-map keys must be integers or text strings")

/-- `claim_maps`. -/
def claimMaps (payload : List (Value × Value)) (protectedClaims : Option Value) :
    List (List (Value × Value)) :=
  match protectedClaims with
  | some (.map entries) => [payload, entries]
  | _ => [payload]

/-- The inner loop of `validate_matching_claims`; `seen` lists the claims met so far,
the latest first. -/
def matchClaims (mapIndex : Nat) :
    List (Value × Value) → List (Bytes × Nat × Value) →
    Except Error (List (Bytes × Nat × Value))
  | [], seen => .ok seen
  | (key, value) :: entries, seen =>
    if isRedactedClaimKeysLabel key then matchClaims mapIndex entries seen
    else do
      let keyBytes ← safeMapKey c key
      match seen.lookup keyBytes with
      | some (previousMap, previous) => do
        Except.failIf (previousMap = mapIndex)
          (.verify s!"duplicate SD-CWT claim key {c.display key}")
        let same ← claimValuesMatch c previous value
        Except.failIf (same = false)
          (.verify s!"CWT_Claims header and payload disagree for claim {c.display key}")
      | none => pure ()
      matchClaims mapIndex entries ((keyBytes, mapIndex, value) :: seen)

/-- The outer loop of `validate_matching_claims`. -/
def matchMaps (mapIndex : Nat) :
    List (List (Value × Value)) → List (Bytes × Nat × Value) → Except Error Unit
  | [], _ => .ok ()
  | entries :: maps, seen => do
    let seen ← matchClaims c mapIndex entries seen
    matchMaps (mapIndex + 1) maps seen

/-- `validate_matching_claims`. -/
def validateMatchingClaims (maps : List (List (Value × Value))) : Except Error Unit :=
  matchMaps c 0 maps []

end Claims

mutual
/-- `remove_undisclosed_redactions`. -/
def removeUndisclosedRedactions : Value → Value
  | .map entries => .map (removeFromEntries entries)
  | .array items => .array (removeFromItems items)
  | .tag tag value => .tag tag (removeUndisclosedRedactions value)
  | value => value

/-- The entries of a map that are kept. -/
def removeFromEntries : List (Value × Value) → List (Value × Value)
  | [] => []
  | (key, value) :: entries =>
    if isRedactedClaimKeysLabel key then removeFromEntries entries
    else (key, removeUndisclosedRedactions value) :: removeFromEntries entries

/-- The elements of an array that are kept. -/
def removeFromItems : List Value → List Value
  | [] => []
  | item :: items =>
    if isRedactedElement item then removeFromItems items
    else removeUndisclosedRedactions item :: removeFromItems items
end

end Cose2.SdCwt
