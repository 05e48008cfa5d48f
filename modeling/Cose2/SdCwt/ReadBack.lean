import Cose2.SdCwt.Loading
import Cose2.SdCwt.Written

/-! # Disclosures read back

A disclosure is checked when it is made and again when it is decoded from its encoding,
where its value is one level further down.  What was made is accepted there, and is the
same but for how its value is read.
-/
namespace Cose2.SdCwt

open Cbor

namespace DisclosureKind

/-- The kind with its value as it is read. -/
def asRead : DisclosureKind → DisclosureKind
  | .claim salt key value => .claim salt key value.asRead
  | .element salt value => .element salt value.asRead
  | .decoy salt => .decoy salt

/-- The items of what is encoded. -/
def items (kind : DisclosureKind) : Nat :=
  kind.fixedItems + (kind.value.map SdCwt.items).getD 0

theorem asRead_salt (kind : DisclosureKind) : kind.asRead.salt = kind.salt := by
  cases kind with
  | claim | element | decoy => rfl

theorem asRead_fixedItems (kind : DisclosureKind) :
    kind.asRead.fixedItems = kind.fixedItems := by
  cases kind with
  | claim | element | decoy => rfl

theorem asRead_value (kind : DisclosureKind) :
    kind.asRead.value = kind.value.map Value.asRead := by
  cases kind with
  | claim | element | decoy => rfl

theorem key_scalar (key : Label) :
    IsScalar key.toValue ∧ isRedactedClaimKeysLabel key.toValue = false := by
  cases key with
  | int | text => exact ⟨trivial, rfl⟩

theorem toValue_asRead (kind : DisclosureKind) : kind.toValue.asRead = kind.asRead.toValue := by
  have hbytes (salt : Bytes) : (Value.bytes salt).asRead = .bytes salt := rfl
  cases kind with
  | claim salt key value =>
    rw [toValue, asRead, toValue, Value.asRead_array, List.map_cons, List.map_cons, List.map_cons,
      hbytes, key.plain_toValue.asRead]
    rfl
  | element salt value =>
    rw [toValue, asRead, toValue, Value.asRead_array, List.map_cons, List.map_cons, hbytes]
    rfl
  | decoy salt =>
    rw [toValue, asRead, toValue, Value.asRead_array, List.map_cons, hbytes]
    rfl

theorem items_toValue (kind : DisclosureKind) : SdCwt.items kind.toValue = kind.items := by
  cases kind with
  | claim salt key value =>
    have hkey : SdCwt.items key.toValue = 1 := items_scalar (key_scalar key).1
    simp only [toValue, items, SdCwt.items, SdCwt.items.itemsAll, hkey, fixedItems,
      DisclosureKind.value, Option.map_some, Option.getD_some]
    omega
  | element salt value =>
    simp only [toValue, items, SdCwt.items, SdCwt.items.itemsAll, fixedItems,
      DisclosureKind.value, Option.map_some, Option.getD_some]
    omega
  | decoy => rfl

/-- What is encoded has its markers in the value only. -/
theorem redacted_toValue {kind : DisclosureKind} (h : ∀ v, kind.value = some v → Redacted true v) :
    Redacted true kind.toValue := by
  have array {vs : List Value} (hvs : ∀ v ∈ vs, Redacted true v) : Redacted true (.array vs) :=
    .array (fun v hv helement => by rw [(hvs v hv).not_redacted] at helement; cases helement)
      fun v hv _ => hvs v hv
  have hbytes (salt : Bytes) : Redacted true (.bytes salt) := .scalar trivial rfl
  cases kind with
  | claim salt key value =>
    refine array fun v hv => ?_
    rcases List.mem_cons.mp hv with rfl | hv
    · exact hbytes salt
    · rcases List.mem_cons.mp hv with rfl | hv
      · exact h v rfl
      · rw [List.mem_singleton.mp hv]
        exact .scalar (key_scalar key).1 (key_scalar key).2
  | element salt value =>
    refine array fun v hv => ?_
    rcases List.mem_cons.mp hv with rfl | hv
    · exact hbytes salt
    · rw [List.mem_singleton.mp hv]
      exact h value rfl
  | decoy salt =>
    refine array fun v hv => ?_
    rw [List.mem_singleton.mp hv]
    exact hbytes salt

/-- What is encoded fits where the value does, one level further down. -/
theorem fits_toValue {limits : ProcessingLimits} {kind : DisclosureKind}
    (hdepth : 1 ≤ limits.maxDepth) (h : ∀ v, kind.value = some v → Fits limits 1 v) :
    ∀ v ∈ kind.toValue.children, Fits limits 1 v := by
  have scalar {v : Value} (hv : IsScalar v) : Fits limits 1 v := .scalar hv hdepth
  cases kind with
  | claim salt key value =>
    refine List.forall_mem_cons.mpr ⟨scalar trivial, List.forall_mem_cons.mpr ⟨h value rfl, ?_⟩⟩
    exact List.forall_mem_singleton.mpr (scalar (key_scalar key).1)
  | element salt value =>
    exact List.forall_mem_cons.mpr ⟨scalar trivial, List.forall_mem_singleton.mpr (h value rfl)⟩
  | decoy salt => exact List.forall_mem_singleton.mpr (scalar trivial)

/-- It is nested within the limit. -/
theorem depth_toValue {limits : ProcessingLimits} {kind : DisclosureKind}
    (hdepth : 1 ≤ limits.maxDepth) (h : ∀ v, kind.value = some v → Fits limits 1 v) :
    kind.toValue.toTree.depth ≤ limits.maxDepth := by
  rw [← Nat.lt_succ_iff, Nat.succ_eq_add_one, Tree.depth_lt_succ_iff, Value.children_toTree,
    List.forall_mem_map]
  exact fun v hv => (fits_toValue hdepth h v hv).depth_toTree

end DisclosureKind

section Reading

variable {c : SdCbor2} {limits : ProcessingLimits}

theorem validateDisclosureValue_ok (hk : c.EncodesKeys) {kind : DisclosureKind} :
    validateDisclosureValue c kind limits = .ok () ↔
      ∀ v, kind.value = some v → (Redacted true v ∧ Fits limits 0 v) ∧
        (TraversalBudget.mk limits 0).Affords kind.items := by
  rw [validateDisclosureValue, DisclosureKind.items]
  have hpos : 0 < kind.fixedItems := by
    cases kind with
    | claim | element | decoy => exact Nat.succ_pos _
  cases kind.value with
  | none => exact ⟨fun _ => by simp, fun _ => rfl⟩
  | some v =>
    simp only [Except.bind_eq_ok, TraversalBudget.consume_ok hpos, validateIssuedValue_ok hk,
      Except.pure_eq_ok, Option.some.injEq, forall_eq', Option.map_some, Option.getD_some,
      TraversalBudget.affords_add]
    constructor
    · rintro ⟨b, ⟨hfixed, hb⟩, _, ⟨hv, hrest, _⟩, _⟩
      subst hb
      exact ⟨hv, hfixed, hrest⟩
    · rintro ⟨hv, hfixed, hrest⟩
      exact ⟨_, ⟨hfixed, rfl⟩, _, ⟨hv, hrest, rfl⟩, trivial⟩

theorem decodeDisclosureValue_asRead (d : Disclosure) :
    decodeDisclosureValue d.kind.asRead.toValue = .ok d.kind.asRead := by
  have hkey {salt : Bytes} {key : Label} {value : Value} (h : d.kind = .claim salt key value) :=
    d.labelFromValue_key h
  generalize d.kind = kind at hkey ⊢
  cases kind with
  | claim salt key value =>
    simp only [DisclosureKind.asRead, DisclosureKind.toValue, decodeDisclosureValue, expectBytes,
      Except.ok_bind, hkey rfl]
    rfl
  | element | decoy => rfl

theorem validateDisclosureKind_asRead (d : Disclosure) :
    validateDisclosureKind d.kind.asRead = .ok () := by
  have hvalid := d.valid
  generalize d.kind = kind at hvalid ⊢
  cases kind with
  | claim | element | decoy => exact hvalid

/-- The disclosure with its value as it is read. -/
def Disclosure.asRead (d : Disclosure) : Disclosure :=
  ⟨d.kind.asRead, d.encoded, validateDisclosureKind_asRead d⟩

theorem Disclosure.asRead_salt (d : Disclosure) : d.asRead.salt = d.salt := d.kind.asRead_salt

theorem Disclosure.items_asRead_le (d : Disclosure) : d.asRead.items ≤ d.items := by
  rw [Disclosure.items, Disclosure.items, Disclosure.asRead, DisclosureKind.asRead_fixedItems,
    DisclosureKind.asRead_value]
  cases d.kind.value with
  | none => exact Nat.le_refl _
  | some v => exact Nat.add_le_add_left (SdCwt.items_asRead_le v) _

/-- The items that are written are those that are read. -/
theorem Disclosure.items_norm_toValue (d : Disclosure) :
    SdCwt.items d.kind.toValue.norm = d.asRead.items := by
  rw [← items_asRead, DisclosureKind.toValue_asRead, DisclosureKind.items_toValue]
  rfl

section Decoding

variable (hr : c.ReadsCanonically) {d : Disclosure}
include hr

theorem Disclosure.redacted_of_kind
    (hkind : Disclosure.fromKindWithLimits c d.kind limits = .ok d) :
    ∀ v, d.kind.value = some v → Redacted true v ∧ Fits limits 0 v := by
  have hvalue := ((fromKindWithLimits_ok c).mp hkind).2.1
  exact fun v hv => ((validateDisclosureValue_ok hr.encodesKeys).mp hvalue v hv).1

/-- What is encoded is not nested too deep to be decoded. -/
theorem Disclosure.encoded_of_kind
    (hkind : Disclosure.fromKindWithLimits c d.kind limits = .ok d) :
    d.encoded = d.kind.toValue.canonical ∧
      d.kind.toValue.norm.toTree.depth < c.recursionLimit := by
  have hencoded := Except.mapError_eq_ok.mp ((fromKindWithLimits_ok c).mp hkind).2.2
  exact ⟨hr.writes hencoded, (Value.depth_norm_le _).trans_lt (hr.shallow hencoded)⟩

/-- A disclosure that was made is decoded from its encoding if that is not too long, and
what is encoded is nested within the limit, and has items within it. -/
theorem Disclosure.fromEncoded_asRead {limits' : ProcessingLimits}
    (hkind : Disclosure.fromKindWithLimits c d.kind limits = .ok d)
    (hsame : SameShapeLimits limits limits') (hsize : d.encoded.length < usizeBound)
    (hbytes : d.encoded.length ≤ limits'.maxDisclosureBytes)
    (hdepth : d.kind.toValue.norm.toTree.depth ≤ limits'.maxDepth)
    (hbudget : (TraversalBudget.mk limits' 0).Affords d.asRead.items) :
    fromEncodedWithLimits c d.encoded limits' = .ok d.asRead := by
  obtain ⟨hencoded, hshallow⟩ := d.encoded_of_kind hr hkind
  have hvalid := d.redacted_of_kind hr hkind
  have hredacted := DisclosureKind.redacted_toValue fun v hv => (hvalid v hv).1
  have hitems : SdCwt.items d.kind.toValue.norm ≤ limits'.maxItems := by
    have hpos := d.asRead.items_pos
    rw [TraversalBudget.Affords] at hbudget
    simp only at hbudget
    rw [d.items_norm_toValue]
    omega
  have hvalue : validateDisclosureValue c d.kind.asRead limits' = .ok () := by
    refine (validateDisclosureValue_ok hr.encodesKeys).mpr fun v hv => ?_
    rw [DisclosureKind.asRead_value] at hv
    obtain ⟨v', hv', rfl⟩ := Option.map_eq_some_iff.mp hv
    obtain ⟨hR, hfits⟩ := hvalid v' hv'
    exact ⟨⟨hR.asRead, (hfits.of_same hsame).asRead⟩, hbudget⟩
  rw [hencoded] at hsize hbytes
  obtain ⟨hcbor, hread⟩ := @Redacted.readBack true c hr _ hredacted hsize
    limits' hshallow hdepth hitems
  rw [hencoded, fromEncodedWithLimits, Except.seq_eq_ok, Except.failIf_eq_ok, not_lt]
  refine ⟨hbytes, Except.seq_eq_ok.mpr ⟨hcbor, Except.bind_eq_ok.mpr ⟨_, hread, ?_⟩⟩⟩
  rw [DisclosureKind.toValue_asRead, decodeDisclosureValue_asRead, Except.ok_bind]
  split
  · next e herror =>
    rw [validateDisclosureKind_asRead] at herror
    cases herror
  · next hvalid =>
    refine Except.seq_eq_ok.mpr ⟨hvalue, ?_⟩
    rw [Disclosure.asRead]
    exact congrArg Except.ok (by simp only [hencoded])

/-- It is decoded only then: the strict parser counts levels and items. -/
theorem Disclosure.within_of_fromEncoded {limits' : ProcessingLimits} {d' : Disclosure}
    (hkind : Disclosure.fromKindWithLimits c d.kind limits = .ok d)
    (hsize : d.encoded.length < usizeBound)
    (hok : fromEncodedWithLimits c d.encoded limits' = .ok d') :
    d.encoded.length ≤ limits'.maxDisclosureBytes ∧
      d.kind.toValue.norm.toTree.depth ≤ limits'.maxDepth ∧
        d.asRead.items ≤ limits'.maxItems := by
  obtain ⟨hencoded, -⟩ := d.encoded_of_kind hr hkind
  rw [fromEncodedWithLimits, Except.seq_eq_ok, Except.failIf_eq_ok, not_lt, Except.seq_eq_ok,
    validateCbor, Except.bind_eq_ok] at hok
  obtain ⟨hbytes, ⟨_, hroot, _⟩, _⟩ := hok
  obtain ⟨t, ht, hfits, hlimits, _⟩ := (Strict.rootWithDuplicatePolicy_ok c.toCbor2).mp hroot
  rw [hencoded] at hsize ht
  have hw : d.kind.toValue.norm.Writable :=
    Tree.value_writable hsize (Value.value_toTree _)
  have htree := bytes_inj hw.wellFormed.fits hfits ht
  have hdepth := hlimits.depth
  have hcount := hlimits.items
  rw [← htree] at hdepth
  rw [← htree, count_toTree, d.items_norm_toValue] at hcount
  exact ⟨hbytes, hdepth, hcount⟩

end Decoding

/-- A disclosure that issuance made. -/
structure Disclosure.Made (c : SdCbor2) (limits : ProcessingLimits) (d : Disclosure) : Prop where
  fromKind : Disclosure.fromKindWithLimits c d.kind limits = .ok d
  depth : 1 ≤ limits.maxDepth
  fits : ∀ v, d.kind.value = some v → Fits limits 1 v

section Made

variable (hr : c.ReadsCanonically) {d : Disclosure}
include hr

theorem Disclosure.Made.redacted (h : d.Made c limits) :
    ∀ v, d.kind.value = some v → Redacted true v :=
  fun v hv => (d.redacted_of_kind hr h.fromKind v hv).1

/-- A disclosure that was made is decoded from its encoding, also under another limit on
items, if its items are within that. -/
theorem Disclosure.Made.fromEncoded (h : d.Made c limits) (hsize : d.encoded.length < usizeBound)
    (hbytes : d.encoded.length ≤ limits.maxDisclosureBytes) {m : Nat}
    (hbudget : (TraversalBudget.mk { limits with maxItems := m } 0).Affords d.asRead.items) :
    fromEncodedWithLimits c d.encoded { limits with maxItems := m } = .ok d.asRead := by
  have hnested : d.kind.toValue.norm.toTree.depth ≤ limits.maxDepth :=
    (Value.depth_norm_le _).trans (DisclosureKind.depth_toValue h.depth h.fits)
  exact d.fromEncoded_asRead hr h.fromKind ⟨rfl, rfl⟩ hsize hbytes hnested hbudget

/-- It is decoded only then. -/
theorem Disclosure.Made.fromEncoded_iff (h : d.Made c limits)
    (hsize : d.encoded.length < usizeBound)
    (hbytes : d.encoded.length ≤ limits.maxDisclosureBytes) {m : Nat} (hm : m < usizeBound)
    {d' : Disclosure} :
    fromEncodedWithLimits c d.encoded { limits with maxItems := m } = .ok d' ↔
      d.asRead.items ≤ m ∧ d' = d.asRead := by
  have hdecodes (hitems : d.asRead.items ≤ m) :=
    h.fromEncoded hr hsize hbytes (m := m) (.inr (by
      rw [Nat.zero_add]
      exact ⟨hitems.trans_lt hm, hitems⟩))
  constructor
  · intro hok
    obtain ⟨-, -, hitems⟩ := d.within_of_fromEncoded hr h.fromKind hsize hok
    rw [hdecodes hitems, Except.ok.injEq] at hok
    exact ⟨hitems, hok.symm⟩
  · rintro ⟨hitems, hd'⟩
    rw [hd']
    exact hdecodes hitems

end Made

end Reading

end Cose2.SdCwt
