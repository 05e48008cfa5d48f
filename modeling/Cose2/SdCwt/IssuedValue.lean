import Cose2.SdCwt.Basic

/-! # The structure of issued claims

`validate_issued_value` of `sd-cwt/src/validation.rs`: labels are distinct and well
formed, `simple(59)` stands only in front of a list of hashes, and tag 60 only
around a hash in an array.
-/
namespace Cose2.SdCwt

open Cbor

/-- What tag 60 is put around. -/
def redactedInner : Value → Option Value
  | .tag tag inner => if tag = redactedElementTag then some inner else none
  | _ => none

theorem redactedInner_eq_some {v inner : Value} :
    redactedInner v = some inner ↔ v = .tag redactedElementTag inner := by
  cases v with
  | tag tag content => simp [redactedInner]
  | _ => simp [redactedInner]

theorem redactedInner_eq_none {v : Value} :
    redactedInner v = none ↔ isRedactedElement v = false := by
  cases v with
  | tag tag content => simp [redactedInner, isRedactedElement]
  | _ => simp [redactedInner, isRedactedElement]

/-- The error for a reserved tag where a value should be. -/
def misplacedTag (tag : UInt64) : Error :=
  .unexpectedType s!"SD-CWT tag {tag} is not valid in this value position"

/-- The error for `simple(59)` where a value should be. -/
def misplacedLabel : Error :=
  .unexpectedType "simple(59) is only valid as a redacted_claim_keys map key"

/-- The elements of a `redacted_claim_keys` array, each entered and read. -/
def readHashes (depth : Nat) (message : String) :
    List Value → TraversalBudget → Except Error (List Bytes × TraversalBudget)
  | [], b => .ok ([], b)
  | hash :: hashes, b => do
    let b ← b.enter (depth + 2)
    let hash ← expectBytes hash message
    let (hashes, b) ← readHashes depth message hashes b
    return (hash :: hashes, b)

/-- The value of a `redacted_claim_keys` entry. -/
def readRedactedKeys (depth : Nat) (message : String) (value : Value) (b : TraversalBudget) :
    Except Error (List Bytes × TraversalBudget) :=
  match value with
  | .array hashes => do
    let b ← b.enter (depth + 1)
    b.container hashes.length
    readHashes depth message hashes b
  | _ => .error (.unexpectedType "redacted_claim_keys value must be an array")

theorem readHashes_ok {depth : Nat} {message : String} {values : List Value}
    {hashes : List Bytes} {b b' : TraversalBudget} :
    readHashes depth message values b = .ok (hashes, b') ↔
      values = hashes.map .bytes ∧ (values ≠ [] → depth + 2 ≤ b.limits.maxDepth) ∧
        b.Affords values.length ∧ b' = b.spend values.length := by
  induction values generalizing b b' hashes with
  | nil =>
    rw [readHashes, Except.ok.injEq, Prod.mk.injEq]
    constructor
    · rintro ⟨hhashes, hb⟩
      subst hhashes hb
      exact ⟨rfl, fun h => absurd rfl h, .inl rfl, rfl⟩
    · rintro ⟨hhashes, _, _, hb⟩
      exact ⟨(List.map_eq_nil_iff.mp hhashes.symm).symm, hb.symm⟩
  | cons value values ih =>
    rw [readHashes]
    simp only [Except.bind_eq_ok, TraversalBudget.enter_ok, expectBytes_ok, Prod.exists,
      Except.pure_eq_ok, Prod.mk.injEq, ih]
    rw [List.length_cons, Nat.add_comm values.length, TraversalBudget.affords_add,
      ← TraversalBudget.spend_spend]
    constructor
    · rintro ⟨_, ⟨hdepth, haffords, hb⟩, hash, hvalue, rest, _, ⟨hvalues, _, hrest, hspent⟩, heq⟩
      obtain ⟨rfl, rfl⟩ := heq
      subst hb
      exact ⟨by rw [hvalue, hvalues, List.map_cons], fun _ => hdepth, ⟨haffords, hrest⟩, hspent⟩
    · rintro ⟨hvalues, hdepth, ⟨haffords, hrest⟩, hspent⟩
      obtain ⟨hash, rest, rfl, hvalue, hvalues⟩ := List.map_eq_cons_iff.mp hvalues.symm
      have hdepth := hdepth (List.cons_ne_nil _ _)
      exact ⟨_, ⟨hdepth, haffords, rfl⟩, hash, hvalue.symm, rest, _,
        ⟨hvalues.symm, fun _ => hdepth, hrest, hspent⟩, rfl, rfl⟩

/-- A list of hashes is read from an array of byte strings. -/
theorem readRedactedKeys_ok {depth : Nat} {message : String} {value : Value}
    {hashes : List Bytes} {b b' : TraversalBudget} :
    readRedactedKeys depth message value b = .ok (hashes, b') ↔
      value = .array (hashes.map .bytes) ∧ depth + 1 ≤ b.limits.maxDepth ∧
        hashes.length ≤ b.limits.maxContainerEntries ∧
        (hashes ≠ [] → depth + 2 ≤ b.limits.maxDepth) ∧
        b.Affords (1 + hashes.length) ∧ b' = b.spend (1 + hashes.length) := by
  cases value with
  | array values =>
    rw [readRedactedKeys, Except.bind_eq_ok]
    simp only [TraversalBudget.enter_ok, Except.seq_eq_ok, TraversalBudget.container_ok,
      readHashes_ok]
    constructor
    · rintro ⟨_, ⟨hdepth, haffords, hb⟩, hlength, hvalues, hdeep, hrest, hspent⟩
      subst hb hvalues
      rw [List.length_map] at hlength hrest hspent
      refine ⟨rfl, hdepth, hlength, fun h => hdeep ?_, ?_, ?_⟩
      · rwa [ne_eq, List.map_eq_nil_iff]
      · exact TraversalBudget.affords_add.mpr ⟨haffords, hrest⟩
      · rw [hspent, TraversalBudget.spend_spend]
    · rintro ⟨hvalues, hdepth, hlength, hdeep, haffords, hspent⟩
      cases hvalues
      have haffords := TraversalBudget.affords_add.mp haffords
      rw [List.length_map]
      refine ⟨_, ⟨hdepth, haffords.1, rfl⟩, hlength, rfl, fun h => hdeep ?_, haffords.2, ?_⟩
      · rwa [ne_eq, List.map_eq_nil_iff] at h
      · rw [hspent, TraversalBudget.spend_spend]
  | integer | bytes | text | float | bool | null | simple | tag | map =>
    exact iff_of_false (by rintro ⟨⟩) fun h => absurd h.1 (by rintro ⟨⟩)

variable (c : SdCbor2)

mutual
/-- `validate_issued_value`. -/
def validateIssuedValue : Value → TraversalBudget → Nat → Except Error TraversalBudget
  | .map entries, b, depth => do
    let b ← b.enter depth
    b.container entries.length
    validateIssuedEntries entries [] b depth
  | .array items, b, depth => do
    let b ← b.enter depth
    b.container items.length
    validateIssuedItems items b depth
  | .tag tag inner, b, depth => do
    let b ← b.enter depth
    if IsReservedTag tag then .error (misplacedTag tag)
    else validateIssuedValue inner b (depth + 1)
  | .simple s, b, depth => do
    let b ← b.enter depth
    if isRedactedClaimKeysLabel (.simple s) then .error misplacedLabel else return b
  | _, b, depth => b.enter depth

/-- The loop over the entries of a map, which has met `keys`. -/
def validateIssuedEntries : List (Value × Value) → List Bytes → TraversalBudget → Nat →
    Except Error TraversalBudget
  | [], _, b, _ => .ok b
  | (key, value) :: entries, keys, b, depth => do
    let b ← b.enter (depth + 1)
    let canonical ← c.canonicalVec key
    Except.failIf (canonical ∈ keys) (.verify "duplicate issued SD-CWT map key")
    let b ←
      if isRedactedClaimKeysLabel key then do
        let (_, b) ← readRedactedKeys depth "redacted_claim_keys entry must be bytes" value b
        pure b
      else do
        let _ ← (labelFromValue key).mapError fun _ =>
          .unexpectedType "issued SD-CWT map keys must be integers or text"
        validateIssuedValue value b (depth + 1)
    validateIssuedEntries entries (canonical :: keys) b depth

/-- The loop over the elements of an array. -/
def validateIssuedItems : List Value → TraversalBudget → Nat → Except Error TraversalBudget
  | [], b, _ => .ok b
  | item :: items, b, depth => do
    let b ←
      match redactedInner item with
      | some inner => do
        let b ← b.enter (depth + 1)
        let b ← b.enter (depth + 2)
        let _ ← expectBytes inner "redacted array element hash must be bytes"
        pure b
      | none => validateIssuedValue item b (depth + 1)
    validateIssuedItems items b depth
end

end Cose2.SdCwt
