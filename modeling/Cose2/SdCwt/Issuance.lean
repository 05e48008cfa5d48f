import Cose2.SdCwt.Restore

/-! # Issuance

`sd-cwt/src/issuance.rs`: the requests in a pre-issuance claims value are replaced by
hashes.  Tag 58 around a key or an element asks for it to be redacted, and tag 62
for a decoy.  A value is issued before it is redacted, so disclosures come inside out.

As in restoration, no value is entered below `max_depth`, and the recursion is
counted down from there.
-/
namespace Cose2.SdCwt

open Cbor

/-- `SaltGenerator`, as the results of its successive calls. -/
abbrev SaltGenerator := Nat → Except Error { salt : Bytes // salt.length = 16 }

/-- `IssueContext`.  Of a salt generator the calls made so far are counted. -/
structure IssueContext where
  salts : SaltGenerator
  saltCalls : Nat := 0
  hasher : RedactionHasher
  decoyIds : List Int := []
  saltsUsed : List Bytes := []
  digestsUsed : List Bytes := []
  disclosures : List Disclosure := []
  disclosureBytes : Nat := 0
  budget : TraversalBudget

/-- `IssueResult`. -/
structure IssueResult where
  value : Value
  disclosures : List Disclosure

/-- What a tag is put around. -/
def taggedInner (tag : UInt64) : Value → Option Value
  | .tag tag' inner => if tag' = tag then some inner else none
  | _ => none

theorem taggedInner_eq_some {tag : UInt64} {v inner : Value} :
    taggedInner tag v = some inner ↔ v = .tag tag inner := by
  cases v with
  | tag tag' content => simp [taggedInner]
  | _ => simp [taggedInner]

namespace IssueContext

variable (ctx : IssueContext)

/-- `TraversalBudget::enter`. -/
def enter (depth : Nat) : Except Error IssueContext := do
  return { ctx with budget := ← ctx.budget.enter depth }

/-- `IssueContext::next_salt`. -/
def nextSalt : Except Error (Bytes × IssueContext) := do
  let salt ← ctx.salts ctx.saltCalls
  Except.failIf (salt.val ∈ ctx.saltsUsed)
    (.custom "SaltGenerator returned a duplicate salt")
  return (salt.val,
    { ctx with saltCalls := ctx.saltCalls + 1, saltsUsed := salt.val :: ctx.saltsUsed })

/-- `record_decoy_id`. -/
def recordDecoyId (value : Value) : Except Error IssueContext :=
  match value with
  | .integer id => do
    Except.failIf (id.val < 0) (.unexpectedType "tag 62 decoy payload must be a positive integer")
    Except.failIf (id.val = 0)
      (.unexpectedType "tag 62 decoy payload must be greater than zero")
    Except.failIf (id.val ∈ ctx.decoyIds) (.verify "duplicate tag 62 decoy identifier")
    return { ctx with decoyIds := id.val :: ctx.decoyIds }
  | _ => .error (.unexpectedType "tag 62 decoy payload must be a positive integer")

end IssueContext

section Model

variable (c : SdCbor2)

/-- `IssueContext::add_disclosure`. -/
def IssueContext.addDisclosure (ctx : IssueContext) (kind : DisclosureKind) :
    Except Error (Bytes × IssueContext) := do
  let limits := ctx.budget.limits
  let disclosure ← Disclosure.fromKindWithLimits c kind limits
  Except.failIf (limits.maxDisclosures ≤ ctx.disclosures.length)
    (.limitExceeded "SD-CWT disclosure" limits.maxDisclosures)
  Except.failIf (¬ ctx.disclosureBytes + disclosure.encoded.length < usizeBound)
    (.custom "SD-CWT disclosure size overflow")
  let disclosureBytes := ctx.disclosureBytes + disclosure.encoded.length
  Except.failIf (limits.maxDisclosureBytes < disclosureBytes)
    (.limitExceeded "SD-CWT disclosure bytes" limits.maxDisclosureBytes)
  let digest := disclosure.redactedHash ctx.hasher
  Except.failIf (digest ∈ ctx.digestsUsed)
    (.verify "redaction hash collision while issuing SD-CWT disclosures")
  return (digest, { ctx with
    disclosureBytes
    digestsUsed := digest :: ctx.digestsUsed
    disclosures := ctx.disclosures ++ [disclosure] })

/-- A disclosure with the next salt. -/
def IssueContext.disclose (ctx : IssueContext) (kind : Bytes → DisclosureKind) :
    Except Error (Bytes × IssueContext) := do
  let (salt, ctx) ← ctx.nextSalt
  ctx.addDisclosure c (kind salt)

/-- `insert_normalized_key`. -/
def insertNormalizedKey (keys : List Bytes) (key : Value) : Except Error (List Bytes) := do
  let encoded ← c.canonicalVec key
  Except.failIf (encoded ∈ keys) (.verify s!"duplicate pre-issuance map key {c.display key}")
  return encoded :: keys

/-- The error for a reserved tag where a value should be. -/
def misplacedRequest (tag : UInt64) : Error :=
  .custom s!"SD-CWT tag {tag} is not valid in this value position"

section Loops

-- `next` issues a value further down
variable (next : Value → IssueContext → Nat → Except Error (Value × IssueContext)) (depth : Nat)

/-- An entry whose key is under tag 58. -/
def issueRedactedEntry (inner value : Value) (keys : List Bytes) (ctx : IssueContext) :
    Except Error (Bytes × List Bytes × IssueContext) := do
  let ctx ← ctx.enter (depth + 2)
  let claimKey ← labelFromValue inner
  checkDisclosureKey true depth claimKey
  let keys ← insertNormalizedKey c keys claimKey.toValue
  let (issued, ctx) ← next value ctx (depth + 1)
  let (hash, ctx) ← ctx.disclose c fun salt => .claim salt claimKey issued
  return (hash, keys, ctx)

/-- An entry whose key is under tag 62. -/
def issueDecoyEntry (inner value : Value) (keys : List Bytes) (ctx : IssueContext) :
    Except Error (Bytes × List Bytes × IssueContext) := do
  let ctx ← ctx.enter (depth + 2)
  let keys ← insertNormalizedKey c keys (.tag toBeDecoyTag inner)
  let ctx ← ctx.recordDecoyId inner
  match value with
  | .null => do
    let ctx ← ctx.enter (depth + 1)
    let (hash, ctx) ← ctx.disclose c .decoy
    return (hash, keys, ctx)
  | _ => .error (.custom "map decoy tag 62 entries must have a null value")

/-- Any other entry. -/
def issuePlainEntry (key value : Value) (keys : List Bytes) (ctx : IssueContext) :
    Except Error (Value × List Bytes × IssueContext) := do
  Except.failIf (isRedactedClaimKeysLabel key)
    (.custom "pre-issuance map must not already contain simple(59)")
  let _ ← labelFromValue key
  let keys ← insertNormalizedKey c keys key
  let (value, ctx) ← next value ctx (depth + 1)
  return (value, keys, ctx)

/-- The loop of `issue_map`: the entries that stay and the hashes of the others. -/
def issueEntries : List (Value × Value) → (keys : List Bytes) → IssueContext →
    Except Error (List (Value × Value) × List Bytes × IssueContext)
  | [], _, ctx => .ok ([], [], ctx)
  | (key, value) :: entries, keys, ctx => do
    let ctx ← ctx.enter (depth + 1)
    match taggedInner toBeRedactedTag key, taggedInner toBeDecoyTag key with
    | some inner, _ => do
      let (hash, keys, ctx) ← issueRedactedEntry c next depth inner value keys ctx
      let (output, hashes, ctx) ← issueEntries entries keys ctx
      return (output, hash :: hashes, ctx)
    | none, some inner => do
      let (hash, keys, ctx) ← issueDecoyEntry c depth inner value keys ctx
      let (output, hashes, ctx) ← issueEntries entries keys ctx
      return (output, hash :: hashes, ctx)
    | none, none => do
      let (value, keys, ctx) ← issuePlainEntry c next depth key value keys ctx
      let (output, hashes, ctx) ← issueEntries entries keys ctx
      return ((key, value) :: output, hashes, ctx)

/-- `issue_map`. -/
def issueMap (entries : List (Value × Value)) (ctx : IssueContext) :
    Except Error (Value × IssueContext) := do
  ctx.budget.container entries.length
  let (output, hashes, ctx) ← issueEntries c next depth entries [] ctx
  return (.map (output ++ undisclosedEntry hashes), ctx)

/-- An element of an array. -/
def issueItem (item : Value) (ctx : IssueContext) : Except Error (Value × IssueContext) :=
  match taggedInner toBeRedactedTag item, taggedInner toBeDecoyTag item with
  | some inner, _ => do
    let ctx ← ctx.enter (depth + 1)
    let (issued, ctx) ← next inner ctx (depth + 2)
    let (hash, ctx) ← ctx.disclose c fun salt => .element salt issued
    return (redactedElement hash, ctx)
  | none, some inner => do
    let ctx ← ctx.enter (depth + 1)
    let ctx ← ctx.enter (depth + 2)
    let ctx ← ctx.recordDecoyId inner
    let (hash, ctx) ← ctx.disclose c .decoy
    return (redactedElement hash, ctx)
  | none, none => next item ctx (depth + 1)

/-- The loop of `issue_array`. -/
def issueItems : List Value → IssueContext → Except Error (List Value × IssueContext)
  | [], ctx => .ok ([], ctx)
  | item :: items, ctx => do
    let (item, ctx) ← issueItem c next depth item ctx
    let (items, ctx) ← issueItems items ctx
    return (item :: items, ctx)

/-- `issue_array`. -/
def issueArray (items : List Value) (ctx : IssueContext) :
    Except Error (Value × IssueContext) := do
  ctx.budget.container items.length
  let (output, ctx) ← issueItems c next depth items ctx
  return (.array output, ctx)

end Loops

/-- `issue_value`. -/
def issueValue : (levels : Nat) → Value → IssueContext → Nat → Except Error (Value × IssueContext)
  | 0, _, ctx, _ => .error (.limitExceeded "SD-CWT nesting" ctx.budget.limits.maxDepth)
  | levels + 1, value, ctx, depth => do
    let ctx ← ctx.enter depth
    match value with
    | .map entries => issueMap c (issueValue levels) depth entries ctx
    | .array items => issueArray c (issueValue levels) depth items ctx
    | .tag tag inner =>
      if IsReservedTag tag then .error (misplacedRequest tag)
      else do
        let (inner, ctx) ← issueValue levels inner ctx (depth + 1)
        return (.tag tag inner, ctx)
    | value =>
      if isRedactedClaimKeysLabel value then
        .error (.custom "pre-issuance value must not contain simple(59) redaction labels")
      else return (value, ctx)

/-- `issue_from_preissuance_with_limits`. -/
def issueFromPreissuanceWithLimits (value : Value) (salts : SaltGenerator)
    (hasher : RedactionHasher) (limits : ProcessingLimits) : Except Error IssueResult :=
  match value with
  | .map _ => do
    let (value, ctx) ← issueValue c (limits.maxDepth + 1) value
      { salts, hasher, budget := { limits } } 0
    return { value, disclosures := ctx.disclosures }
  | _ => .error (.unexpectedType "pre-issuance SD-CWT claims must be a map")

end Model

end Cose2.SdCwt
