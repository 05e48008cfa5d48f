import Cose2.SdCwt.ClaimMatch
import Cose2.SdCwt.Disclosure

/-! # Restoration

`sd-cwt/src/restore.rs`: hashes in a claims value are replaced by the disclosures
that were presented for them, each of which is used up by the first hash it
matches.  A disclosed value may contain hashes in its turn.

No value is entered below `max_depth`, so the recursion is counted down from there,
and its end is the error that `enter` reports at that depth.
-/
namespace Cose2.SdCwt

open Cbor

/-- Byte strings in the order of their bytes, for maps that have them as keys. -/
instance : LinearOrder Bytes :=
  LinearOrder.lift' (List.map UInt8.toNat)
    (List.map_injective_iff.mpr fun _ _ => UInt8.toNat_inj.mp)

/-- `RestoreMode`. -/
inductive RestoreMode where
  | holder
  | verifier
deriving DecidableEq, Repr

/-- `RestoreReport`. -/
structure RestoreReport where
  value : Value
  protectedClaims : Option Value
  disclosed : Nat
  decoys : Nat
  removedRedactions : Nat

/-- `RestoreStats`. -/
structure RestoreStats where
  disclosed : Nat := 0
  decoys : Nat := 0
  removedRedactions : Nat := 0
deriving DecidableEq, Repr

/-- `DisclosureMap`. -/
structure DisclosureMap where
  entries : BTreeMap Bytes Disclosure
  validateClaims : Bool

/-- What restoration passes on from one value to the next. -/
structure Restoring where
  pending : DisclosureMap
  stats : RestoreStats
  budget : TraversalBudget

namespace Restoring

variable (s : Restoring)

/-- `TraversalBudget::enter`. -/
def enter (depth : Nat) : Except Error Restoring := do
  return { s with budget := ← s.budget.enter depth }

/-- `DisclosureMap::remove`, of a digest that is there. -/
def remove (hash : Bytes) : Restoring :=
  { s with pending := { s.pending with entries := s.pending.entries.remove hash } }

/-- `stats.disclosed += 1`. -/
def countDisclosed : Restoring :=
  { s with stats := { s.stats with disclosed := s.stats.disclosed + 1 } }

/-- `stats.decoys += 1`. -/
def countDecoy : Restoring := { s with stats := { s.stats with decoys := s.stats.decoys + 1 } }

/-- `stats.removed_redactions += 1`. -/
def countRemoved : Restoring :=
  { s with stats := { s.stats with removedRedactions := s.stats.removedRedactions + 1 } }

end Restoring

/-! ### Loading the disclosures -/

/-- The loop of `DisclosureMap::new`. -/
def loadDisclosures (hasher : RedactionHasher) :
    List Disclosure → (index totalBytes : Nat) → (salts : List Bytes) →
    BTreeMap Bytes Disclosure → TraversalBudget →
    Except Error (BTreeMap Bytes Disclosure × TraversalBudget)
  | [], _, _, _, entries, budget => .ok (entries, budget)
  | disclosure :: disclosures, index, totalBytes, salts, entries, budget => do
    Except.failIf (budget.limits.maxDisclosures ≤ index)
      (.limitExceeded "SD-CWT disclosure" budget.limits.maxDisclosures)
    Except.failIf (¬ totalBytes + disclosure.encoded.length < usizeBound)
      (.custom "SD-CWT disclosure size overflow")
    let totalBytes := totalBytes + disclosure.encoded.length
    Except.failIf (budget.limits.maxDisclosureBytes < totalBytes)
      (.limitExceeded "SD-CWT disclosure bytes" budget.limits.maxDisclosureBytes)
    let budget ← budget.consume (← disclosure.itemCount)
    let hash := disclosure.redactedHash hasher
    Except.failIf (entries.containsKey hash) (.verify "duplicate SD-CWT disclosure digest")
    Except.failIf (disclosure.salt ∈ salts) (.verify "duplicate SD-CWT disclosure salt")
    loadDisclosures hasher disclosures (index + 1) totalBytes (disclosure.salt :: salts)
      (entries.insert hash disclosure) budget

/-! ### Restoring values -/

/-- `validate_root_disclosure_key`. -/
def validateRootDisclosureKey (key : Label) : Except Error Unit :=
  Except.failIf (key ∈ [1, 3, 4, 5, 6, 7, 8, 39].map Label.int)
    (.custom s!"SD-CWT claim {key.display} must not be redacted")

/-- The check of a disclosed key, which is made for validated claims and at the root only. -/
def checkDisclosureKey (validateClaims : Bool) (depth : Nat) (key : Label) :
    Except Error Unit :=
  if validateClaims ∧ depth = 0 then validateRootDisclosureKey key else .ok ()

section Model

variable (c : SdCbor2) (mode : RestoreMode)

section Loops

-- `next` restores a value one level further down
variable (next : Value → Restoring → Nat → Except Error (Value × Restoring)) (depth : Nat)

/-- The first loop of `restore_map`: the restored entries, all keys met, and the hashes. -/
def restoreEntries : List (Value × Value) → (sawRedactedKeys : Bool) → (keys : List Label) →
    Restoring → Except Error (List (Value × Value) × List Label × List Bytes × Restoring)
  | [], _, keys, s => .ok ([], keys, [], s)
  | (key, value) :: entries, sawRedactedKeys, keys, s => do
    let s ← s.enter (depth + 1)
    if isRedactedClaimKeysLabel key then
      Except.failIf sawRedactedKeys (.verify "duplicate redacted_claim_keys entry")
      let (hashes, budget) ← readRedactedKeys depth
        "redacted_claim_keys entries must be byte strings" value s.budget
      let (output, keys, hashes', s) ← restoreEntries entries true keys { s with budget }
      return (output, keys, hashes ++ hashes', s)
    else
      let label ← (labelFromValue key).mapError fun _ =>
        .unexpectedType "issued SD-CWT map keys must be integers or text"
      Except.failIf (label ∈ keys) (.verify s!"duplicate claim key {c.display key}")
      let (value, s) ← next value s (depth + 1)
      let (output, keys, hashes, s) ← restoreEntries entries sawRedactedKeys (label :: keys) s
      return ((key, value) :: output, keys, hashes, s)

/-- The second loop of `restore_map`: the disclosed entries and the undisclosed hashes. -/
def restoreHashes : List Bytes → (keys : List Label) → Restoring →
    Except Error (List (Value × Value) × List Bytes × Restoring)
  | [], _, s => .ok ([], [], s)
  | hash :: hashes, keys, s =>
    match s.pending.entries.get hash with
    | some disclosure =>
      let s := s.remove hash
      match disclosure.kind with
      | .claim _ key value => do
        checkDisclosureKey s.pending.validateClaims depth key
        Except.failIf (key ∈ keys) (.verify s!"duplicate claim key {key.display}")
        let (value, s) ← next value s (depth + 1)
        let (output, undisclosed, s) ← restoreHashes hashes (key :: keys) s.countDisclosed
        return ((key.toValue, value) :: output, undisclosed, s)
      | .decoy _ => restoreHashes hashes keys s.countDecoy
      | .element .. =>
        .error (.verify "array-element disclosure matched a redacted map claim")
    | none =>
      match mode with
      | .verifier => do
        let (output, undisclosed, s) ← restoreHashes hashes keys s.countRemoved
        return (output, if s.pending.validateClaims then hash :: undisclosed else undisclosed, s)
      | .holder =>
        .error (.verify "holder validation found redacted map claim without disclosure")

/-- The entry for the hashes that stay undisclosed. -/
def undisclosedEntry : List Bytes → List (Value × Value)
  | [] => []
  | hashes => [(redactedClaimKeysLabel, .array (hashes.map .bytes))]

/-- `restore_map`. -/
def restoreMap (entries : List (Value × Value)) (s : Restoring) :
    Except Error (Value × Restoring) := do
  s.budget.container entries.length
  let (output, keys, hashes, s) ← restoreEntries c next depth entries false [] s
  let (disclosed, undisclosed, s) ← restoreHashes mode next depth hashes keys s
  return (.map (output ++ disclosed ++ undisclosedEntry undisclosed), s)

/-- A redacted element that matched a disclosure, or did not. -/
def restoreElement (hash : Bytes) (s : Restoring) : Except Error (List Value × Restoring) :=
  match s.pending.entries.get hash with
  | some disclosure =>
    let s := s.remove hash
    match disclosure.kind with
    | .element _ value => do
      let (value, s) ← next value s (depth + 1)
      return ([value], s.countDisclosed)
    | .decoy _ => .ok ([], s.countDecoy)
    | .claim .. => .error (.verify "map-claim disclosure matched a redacted array element")
  | none =>
    match mode with
    | .verifier =>
      .ok (if s.pending.validateClaims then [redactedElement hash] else [], s.countRemoved)
    | .holder =>
      .error (.verify "holder validation found redacted array element without disclosure")

/-- An element of an array. -/
def restoreItem (item : Value) (s : Restoring) : Except Error (List Value × Restoring) :=
  match redactedInner item with
  | some inner => do
    let s ← s.enter (depth + 1)
    let s ← s.enter (depth + 2)
    let hash ← expectBytes inner "redacted array element hash must be bytes"
    restoreElement mode next depth hash s
  | none => do
    let (value, s) ← next item s (depth + 1)
    return ([value], s)

/-- The loop of `restore_array`. -/
def restoreItems : List Value → Restoring → Except Error (List Value × Restoring)
  | [], s => .ok ([], s)
  | item :: items, s => do
    let (output, s) ← restoreItem mode next depth item s
    let (rest, s) ← restoreItems items s
    return (output ++ rest, s)

/-- `restore_array`. -/
def restoreArray (items : List Value) (s : Restoring) : Except Error (Value × Restoring) := do
  s.budget.container items.length
  let (output, s) ← restoreItems mode next depth items s
  return (.array output, s)

end Loops

/-- `restore_value`, `levels` levels above `max_depth`. -/
def restoreValue : (levels : Nat) → Value → Restoring → Nat → Except Error (Value × Restoring)
  | 0, _, s, _ => .error (.limitExceeded "SD-CWT nesting" s.budget.limits.maxDepth)
  | levels + 1, value, s, depth => do
    let s ← s.enter depth
    match value with
    | .map entries => restoreMap c mode (restoreValue levels) depth entries s
    | .array items => restoreArray mode (restoreValue levels) depth items s
    | .tag tag inner =>
      if IsReservedTag tag then .error (misplacedTag tag)
      else
        let (inner, s) ← restoreValue levels inner s (depth + 1)
        return (.tag tag inner, s)
    | value =>
      if isRedactedClaimKeysLabel value then .error misplacedLabel else return (value, s)

/-- `restore_value` at the root. -/
def restoreRoot (value : Value) (s : Restoring) : Except Error (Value × Restoring) :=
  restoreValue c mode (s.budget.limits.maxDepth + 1) value s 0

/-- `restore_value` for claims that may be missing. -/
def restoreOption (claims : Option Value) (s : Restoring) :
    Except Error (Option Value × Restoring) :=
  match claims with
  | none => .ok (none, s)
  | some claims => do
    let (claims, s) ← restoreRoot c mode claims s
    return (some claims, s)

/-- `restore_with_protected_claims`, up to the comparison of the two maps: the values as
they were restored, and the counts. -/
def restoreClaims (value : Value) (protectedClaims : Option Value)
    (disclosures : List Disclosure) (hasher : RedactionHasher) (limits : ProcessingLimits)
    (validateClaims : Bool) : Except Error RestoreReport := do
  let (entries, budget) ← loadDisclosures hasher disclosures 0 0 [] ∅ { limits }
  let s : Restoring := { pending := { entries, validateClaims }, stats := {}, budget }
  let (protectedClaims, s) ← restoreOption c mode protectedClaims s
  let (value, s) ← restoreRoot c mode value s
  Except.failIf (s.pending.entries.entries ≠ [])
    (.verify "sd_claims contains a disclosure without a matching redacted claim")
  return {
    value, protectedClaims
    disclosed := s.stats.disclosed
    decoys := s.stats.decoys
    removedRedactions := s.stats.removedRedactions }

/-- `restore_with_protected_claims`. -/
def restoreWithProtectedClaims (value : Value) (protectedClaims : Option Value)
    (disclosures : List Disclosure) (hasher : RedactionHasher) (limits : ProcessingLimits)
    (validateClaims : Bool) : Except Error RestoreReport := do
  let report ← restoreClaims c mode value protectedClaims disclosures hasher limits validateClaims
  if validateClaims then
    match report.value with
    | .map entries =>
      validateMatchingClaims c (claimMaps entries report.protectedClaims)
      return { report with
        value := removeUndisclosedRedactions report.value
        protectedClaims := report.protectedClaims.map removeUndisclosedRedactions }
    -- `unreachable!`: only claims maps are restored with this policy
    | _ => .error (.custom "the structural validator requires a claims map")
  else return report

/-- `restore_with_limits`. -/
def restoreWithLimits (value : Value) (disclosures : List Disclosure) (hasher : RedactionHasher)
    (limits : ProcessingLimits) : Except Error RestoreReport :=
  restoreWithProtectedClaims c mode value none disclosures hasher limits false

/-- `restore`. -/
def restore (value : Value) (disclosures : List Disclosure) (hasher : RedactionHasher) :
    Except Error RestoreReport :=
  restoreWithLimits c mode value disclosures hasher {}

end Model

/-- `restore_for_holder`. -/
def restoreForHolder (c : SdCbor2) := restore c .holder

/-- `restore_for_verifier`. -/
def restoreForVerifier (c : SdCbor2) := restore c .verifier

end Cose2.SdCwt
