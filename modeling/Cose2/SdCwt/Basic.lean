import Cose2.Header

/-! # Selective disclosure: limits and markers

`sd-cwt/src/lib.rs`: the markers that stand for hidden claims, the resource limits,
and the budget that every traversal spends.
-/
namespace Cose2.SdCwt

open Cbor

/-- The functions of `cbor2` that `sd-cwt` calls. -/
structure SdCbor2 extends Cbor2 where
  /-- `Display for Value`, which appears in errors only. -/
  display : Value → String
  /-- `validate_slice`. -/
  validateSlice : Bytes → Except String Unit

/-- What is written deterministically is read back, with null for undefined, unless a map in it
has two keys that are alike once they are read. -/
structure SdCbor2.ReadsCanonically (c : SdCbor2) : Prop extends c.toCbor2.EncodesCanonically where
  positive : 0 < c.recursionLimit
  decodes : ∀ {v : Value}, v.norm.Regular → v.norm.toTree.depth < c.recursionLimit →
    c.fromSlice v.canonical = .ok v.asRead
  validates : ∀ {v : Value}, v.norm.Regular → v.norm.toTree.depth < c.recursionLimit →
    c.validateSlice v.canonical = .ok ()

/-- A reference implementation, but for the texts of errors. -/
def SdCbor2.reference : SdCbor2 where
  toCbor2 := Cbor2.reference
  display _ := ""
  validateSlice data := (readAll 256 data).map fun _ => ()

theorem SdCbor2.reference_readsCanonically : SdCbor2.reference.ReadsCanonically where
  toEncodesCanonically := Cbor2.reference_encodesCanonically
  positive := by decide
  decodes {v} h hdepth := by
    have hread : Cbor2.reference.item v.canonical = .ok v.norm.toTree :=
      readAll_ok.mpr ⟨⟨h.writable.wellFormed, hdepth⟩, rfl⟩
    refine Except.mapError_eq_ok.mpr (Except.bind_eq_ok.mpr ⟨_, hread, ?_⟩)
    exact Cbor2.reference_value.mpr ⟨_, Value.value_toTree _, Value.load_of_norm h.normal⟩
  validates {v} h hdepth := by
    have hread : readAll 256 v.canonical = .ok v.norm.toTree :=
      readAll_ok.mpr ⟨⟨h.writable.wellFormed, hdepth⟩, rfl⟩
    exact Except.map_eq_ok.mpr ⟨_, hread, rfl⟩

/-! ### Markers -/

/-- `REDACTED_ELEMENT_TAG`. -/
def redactedElementTag : UInt64 := 60

/-- `TO_BE_REDACTED_TAG`. -/
def toBeRedactedTag : UInt64 := 58

/-- `TO_BE_DECOY_TAG`. -/
def toBeDecoyTag : UInt64 := 62

/-- The three tags with a meaning of their own. -/
def IsReservedTag (tag : UInt64) : Prop :=
  tag = redactedElementTag ∨ tag = toBeRedactedTag ∨ tag = toBeDecoyTag

instance (tag : UInt64) : Decidable (IsReservedTag tag) :=
  inferInstanceAs (Decidable (_ ∨ _))

/-- `redacted_claim_keys_label`. -/
def redactedClaimKeysLabel : Value := .simple ⟨59, by omega⟩

/-- `is_redacted_claim_keys_label`. -/
def isRedactedClaimKeysLabel : Value → Bool
  | .simple s => s.val = 59
  | _ => false

theorem isRedactedClaimKeysLabel_iff {v : Value} :
    isRedactedClaimKeysLabel v = true ↔ v = redactedClaimKeysLabel := by
  cases v with
  | simple s =>
    obtain ⟨n, hn⟩ := s
    simp [isRedactedClaimKeysLabel, redactedClaimKeysLabel]
  | _ => simp [isRedactedClaimKeysLabel, redactedClaimKeysLabel]

/-- `redacted_element`. -/
def redactedElement (hash : Bytes) : Value := .tag redactedElementTag (.bytes hash)

/-- `is_redacted_element`. -/
def isRedactedElement : Value → Bool
  | .tag tag _ => tag = redactedElementTag
  | _ => false

/-! ### Keys and hashes -/

/-- `label_from_value`. -/
def labelFromValue : Value → Except Error Label
  | .integer i =>
    match Cbor2.i64TryFrom i.val with
    | some v => .ok (.int v)
    | none => .error (.unexpectedType "claim key integer out of range")
  | .text s =>
    if 1 ≤ (utf8 s).length ∧ (utf8 s).length ≤ 255 then .ok (.text s)
    else .error (.unexpectedType "SD-CWT text claim keys must contain 1 to 255 octets")
  | _ => .error (.unexpectedType "disclosed claim key must be an integer or text string")

/-- A label is read from its own value only. -/
theorem labelFromValue_ok {v : Value} {l : Label} (h : labelFromValue v = .ok l) :
    v = l.toValue := by
  cases v with
  | integer i =>
    rw [labelFromValue] at h
    cases hi : Cbor2.i64TryFrom i.val with
    | none => rw [hi] at h; cases h
    | some j =>
      rw [hi] at h
      cases h
      exact congrArg Value.integer (Integer.ext (Cbor2.i64TryFrom_eq_some hi).symm)
  | text s =>
    rw [labelFromValue] at h
    split_ifs at h
    cases h
    rfl
  | bytes | float | bool | null | simple | tag | array | map => cases h

/-- `expect_bytes` and `expect_owned_bytes`, with the whole message. -/
def expectBytes (value : Value) (message : String) : Except Error Bytes :=
  match value with
  | .bytes b => .ok b
  | _ => .error (.unexpectedType message)

@[simp] theorem expectBytes_ok {v : Value} {message : String} {b : Bytes} :
    expectBytes v message = .ok b ↔ v = .bytes b := by
  cases v <;> simp [expectBytes]

/-! ### Limits -/

/-- `validate_cbor`: `strict::validate_with_limits`. -/
def validateCbor (c : SdCbor2) (data : Bytes) (limits : CborLimits) : Except Error Unit := do
  let _ ← Strict.root c.toCbor2 data limits
  (c.validateSlice data).mapError .cbor

/-- `ProcessingLimits`, with its defaults. -/
structure ProcessingLimits where
  maxDepth : Nat := 64
  maxItems : Nat := 100000
  maxDisclosures : Nat := 4096
  maxDisclosureBytes : Nat := 4 * 1024 * 1024
  maxContainerEntries : Nat := 16384
  maxInputBytes : Nat := 8 * 1024 * 1024
deriving DecidableEq, Repr

/-- `TraversalBudget`. -/
structure TraversalBudget where
  limits : ProcessingLimits
  visited : Nat := 0
deriving DecidableEq, Repr

namespace TraversalBudget

variable (b : TraversalBudget)

/-- `TraversalBudget::consume`. -/
def consume (count : Nat) : Except Error TraversalBudget := do
  Except.failIf (¬ b.visited + count < usizeBound) (.custom "SD-CWT item count overflow")
  Except.failIf (b.limits.maxItems < b.visited + count)
    (.limitExceeded "SD-CWT item" b.limits.maxItems)
  return { b with visited := b.visited + count }

/-- `TraversalBudget::enter`. -/
def enter (depth : Nat) : Except Error TraversalBudget := do
  Except.failIf (b.limits.maxDepth < depth) (.limitExceeded "SD-CWT nesting" b.limits.maxDepth)
  b.consume 1

/-- `TraversalBudget::container`. -/
def container (len : Nat) : Except Error Unit :=
  Except.failIf (b.limits.maxContainerEntries < len)
    (.limitExceeded "SD-CWT container entry" b.limits.maxContainerEntries)

/-- The budget after some visits. -/
def spend (count : Nat) : TraversalBudget := { b with visited := b.visited + count }

/-- Some visits are within the limits; no visit is never refused. -/
def Affords (count : Nat) : Prop :=
  count = 0 ∨ (b.visited + count < usizeBound ∧ b.visited + count ≤ b.limits.maxItems)

@[simp] theorem spend_limits (n : Nat) : (b.spend n).limits = b.limits := rfl

@[simp] theorem spend_visited (n : Nat) : (b.spend n).visited = b.visited + n := rfl

@[simp] theorem spend_zero : b.spend 0 = b := rfl

@[simp] theorem spend_spend (n m : Nat) : (b.spend n).spend m = b.spend (n + m) := by
  simp only [spend, Nat.add_assoc]

@[simp] theorem affords_zero : b.Affords 0 := .inl rfl

variable {b}

theorem affords_add {n m : Nat} :
    b.Affords (n + m) ↔ b.Affords n ∧ (b.spend n).Affords m := by
  simp only [Affords, spend_visited, spend_limits]
  omega

theorem Affords.mono {n m : Nat} (h : b.Affords n) (hle : m ≤ n) : b.Affords m := by
  simp only [Affords] at h ⊢
  omega

theorem consume_ok {n : Nat} {b' : TraversalBudget} (hn : 0 < n) :
    b.consume n = .ok b' ↔ b.Affords n ∧ b' = b.spend n := by
  rw [consume, Except.seq_eq_ok, Except.failIf_eq_ok, Except.seq_eq_ok, Except.failIf_eq_ok,
    Except.pure_eq_ok, not_not, not_lt]
  constructor
  · rintro ⟨hsize, hitems, h⟩
    exact ⟨.inr ⟨hsize, hitems⟩, h.symm⟩
  · rintro ⟨hbounds, h⟩
    rcases hbounds with h0 | ⟨hsize, hitems⟩
    · omega
    · exact ⟨hsize, hitems, h.symm⟩

theorem enter_ok {depth : Nat} {b' : TraversalBudget} :
    b.enter depth = .ok b' ↔ depth ≤ b.limits.maxDepth ∧ b.Affords 1 ∧ b' = b.spend 1 := by
  rw [enter, Except.seq_eq_ok, Except.failIf_eq_ok, consume_ok Nat.one_pos, not_lt]

theorem container_ok {len : Nat} :
    b.container len = .ok () ↔ len ≤ b.limits.maxContainerEntries := by
  rw [container, Except.failIf_eq_ok, not_lt]

end TraversalBudget

/-- The items `value_item_count` comes upon: a value and all values in it. -/
def items : Value → Nat
  | .array vs => 1 + itemsAll vs
  | .map es => 1 + itemsEntries es
  | .tag _ v => 1 + items v
  | _ => 1
where
  /-- The items of the elements of an array. -/
  itemsAll : List Value → Nat
    | [] => 0
    | v :: vs => items v + itemsAll vs
  /-- The items of the entries of a map. -/
  itemsEntries : List (Value × Value) → Nat
    | [] => 0
    | (k, v) :: es => items k + items v + itemsEntries es

/-- `value_item_count`. -/
def valueItemCount (value : Value) : Except Error Nat := do
  Except.failIf (¬ items value < usizeBound) (.custom "SD-CWT item count overflow")
  return items value

end Cose2.SdCwt
