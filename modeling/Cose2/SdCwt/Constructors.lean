import Cose2.Cbor.Regular
import Cose2.SdCwt.ReadBack

/-! # Constructors and decoder

The public constructors of disclosures check the value alone, and the decoder checks the
encoded array that has the value in it.  Under the default limits, which both go by, a
constructed disclosure is decoded exactly when that array is short and shallow enough, and
what is decoded is the same disclosure.
-/
namespace Cose2.SdCwt

open Cbor

/-- The key of a claim, which the other kinds do not have. -/
def DisclosureKind.key : DisclosureKind → Option Label
  | .claim _ key _ => some key
  | .element .. | .decoy _ => none

theorem DisclosureKind.asRead_key (kind : DisclosureKind) : kind.asRead.key = kind.key := by
  cases kind with
  | claim | element | decoy => rfl

namespace Disclosure

section Model

variable (c : SdCbor2)

/-- `Disclosure::from_kind`. -/
def fromKind (kind : DisclosureKind) : Except Error Disclosure := fromKindWithLimits c kind {}

/-- `Disclosure::claim`. -/
def claim (salt : Bytes) (key : Label) (value : Value) : Except Error Disclosure :=
  fromKind c (.claim salt key value)

/-- `Disclosure::element`. -/
def element (salt : Bytes) (value : Value) : Except Error Disclosure :=
  fromKind c (.element salt value)

/-- `Disclosure::decoy`. -/
def decoy (salt : Bytes) : Except Error Disclosure := fromKind c (.decoy salt)

/-- `Disclosure::from_encoded`. -/
def fromEncoded (encoded : Bytes) : Except Error Disclosure := fromEncodedWithLimits c encoded {}

end Model

/-- The key of a disclosed claim. -/
def key (d : Disclosure) : Option Label := d.kind.key

/-- A disclosure that one of the constructors returns. -/
inductive Constructed (c : SdCbor2) (d : Disclosure) : Prop
  | claim {salt : Bytes} {key : Label} {value : Value} :
    Disclosure.claim c salt key value = .ok d → Constructed c d
  | element {salt : Bytes} {value : Value} : Disclosure.element c salt value = .ok d →
    Constructed c d
  | decoy {salt : Bytes} : Disclosure.decoy c salt = .ok d → Constructed c d

/-- The same disclosure, but for how its value is written down, and null for undefined. -/
structure Same (d d' : Disclosure) : Prop where
  salt : d'.salt = d.salt
  key : d'.key = d.key
  value : d'.kind.value.map Value.canonical =
    d.kind.value.map fun v => v.asRead.canonical
  /-- Without undefined in it, the value has the same canonical encoding. -/
  defined : (∀ v, d.kind.value = some v → v.Defined) →
    d'.kind.value.map Value.canonical = d.kind.value.map Value.canonical
  encoded : d'.encoded = d.encoded
  hash : ∀ hasher : RedactionHasher, d'.redactedHash hasher = d.redactedHash hasher

theorem same_asRead (d : Disclosure) : Same d d.asRead := by
  have hvalue : d.asRead.kind.value.map Value.canonical =
      d.kind.value.map fun v => v.asRead.canonical := by
    rw [asRead, DisclosureKind.asRead_value, Option.map_map]
    rfl
  refine ⟨d.asRead_salt, d.kind.asRead_key, hvalue, fun hdefined => ?_, rfl, fun _ => rfl⟩
  rw [hvalue]
  refine Option.map_congr fun v hv => ?_
  rw [(hdefined v hv).asRead, Value.canonical_norm]

variable {c : SdCbor2} {d d' : Disclosure}

theorem fromKindWithLimits_kind {kind : DisclosureKind} {limits : ProcessingLimits}
    (h : fromKindWithLimits c kind limits = .ok d) :
    fromKindWithLimits c d.kind limits = .ok d := by
  obtain ⟨rfl, -⟩ := (fromKindWithLimits_ok c).mp h
  exact h

theorem Constructed.fromKind (h : Constructed c d) :
    fromKindWithLimits c d.kind {} = .ok d := by
  cases h with
  | claim h | element h | decoy h => exact fromKindWithLimits_kind h

/-- The items of a constructed disclosure are within the default limit. -/
theorem Constructed.affords (hk : c.EncodesKeys) (h : Constructed c d) :
    (TraversalBudget.mk {} 0).Affords d.asRead.items := by
  have hvalue := (validateDisclosureValue_ok hk).mp ((fromKindWithLimits_ok c).mp h.fromKind).2.1
  refine TraversalBudget.Affords.mono ?_ d.items_asRead_le
  cases hkind : d.kind with
  | claim salt key value | element salt value =>
    have haffords := (hvalue value (by rw [hkind]; rfl)).2
    rw [items]
    exact haffords
  | decoy salt =>
    have hitems : d.items = 2 := by
      rw [items, hkind]
      rfl
    rw [hitems]
    exact .inr ⟨by decide, by decide⟩

theorem length_le_of_fromEncoded {bytes : Bytes} {limits : ProcessingLimits}
    (h : fromEncodedWithLimits c bytes limits = .ok d) :
    bytes.length ≤ limits.maxDisclosureBytes := by
  rw [fromEncodedWithLimits, Except.seq_eq_ok, Except.failIf_eq_ok, not_lt] at h
  exact h.1

/-- **A constructed disclosure is decoded exactly when its encoding is not longer, and what
it encodes not nested deeper, than the default limits allow**, and then it is the same. -/
theorem Constructed.decodes (hr : c.ReadsCanonically) (h : Constructed c d) :
    ((∃ d', fromEncoded c d.encoded = .ok d') ↔
      d.encoded.length ≤ ({} : ProcessingLimits).maxDisclosureBytes ∧
        d.kind.toValue.norm.toTree.depth ≤ ({} : ProcessingLimits).maxDepth) ∧
    ∀ d', fromEncoded c d.encoded = .ok d' → Same d d' := by
  have hsize (hlength : d.encoded.length ≤ ({} : ProcessingLimits).maxDisclosureBytes) :
      d.encoded.length < usizeBound := hlength.trans_lt (by decide)
  have hwithin {d' : Disclosure} (hok : fromEncoded c d.encoded = .ok d') :
      d.encoded.length ≤ ({} : ProcessingLimits).maxDisclosureBytes ∧
        d.kind.toValue.norm.toTree.depth ≤ ({} : ProcessingLimits).maxDepth := by
    have hlength := length_le_of_fromEncoded hok
    obtain ⟨-, hdepth, -⟩ := d.within_of_fromEncoded hr h.fromKind (hsize hlength) hok
    exact ⟨hlength, hdepth⟩
  have hdecodes (hlength : d.encoded.length ≤ ({} : ProcessingLimits).maxDisclosureBytes)
      (hdepth : d.kind.toValue.norm.toTree.depth ≤ ({} : ProcessingLimits).maxDepth) :
      fromEncoded c d.encoded = .ok d.asRead :=
    d.fromEncoded_asRead hr h.fromKind ⟨rfl, rfl⟩ (hsize hlength) hlength hdepth
      (h.affords hr.encodesKeys)
  refine ⟨⟨?_, ?_⟩, fun d' hok => ?_⟩
  · rintro ⟨d', hok⟩
    exact hwithin hok
  · rintro ⟨hlength, hdepth⟩
    exact ⟨d.asRead, hdecodes hlength hdepth⟩
  · obtain ⟨hlength, hdepth⟩ := hwithin hok
    have hsame := hdecodes hlength hdepth
    rw [hok] at hsame
    rw [Except.ok.inj hsame]
    exact d.same_asRead

/-- A claim with a value. -/
def plainClaim : Disclosure where
  kind := .claim (List.replicate 16 3) (.int 501) (.bool false)
  encoded := (DisclosureKind.claim (List.replicate 16 3) (.int 501) (.bool false)).toValue.canonical
  valid := rfl

/-- It is constructed, and decoded. -/
theorem decodes_plainClaim :
    claim .reference (List.replicate 16 3) (.int 501) (.bool false) = .ok plainClaim ∧
      ∃ d', fromEncoded .reference plainClaim.encoded = .ok d' ∧ Same plainClaim d' := by
  have hmade : claim .reference (List.replicate 16 3) (.int 501) (.bool false) = .ok plainClaim :=
    rfl
  have h := Constructed.decodes SdCbor2.reference_readsCanonically (.claim hmade)
  obtain ⟨d', hd'⟩ := h.1.mpr ⟨by decide, by decide⟩
  exact ⟨hmade, d', hd', h.2 d' hd'⟩

/-! ### A value at the depth limit -/

theorem redacted_nested (n : Nat) : Redacted true (Value.nested n) := by
  induction n with
  | zero => exact .scalar trivial rfl
  | succ n ih =>
    refine .array (fun v hv helement => ?_) fun v hv _ => ?_
    · rw [List.mem_singleton.mp hv, ih.not_redacted] at helement
      cases helement
    · rw [List.mem_singleton.mp hv]
      exact ih

theorem fits_nested {limits : ProcessingLimits} {n depth : Nat}
    (hdepth : depth + n ≤ limits.maxDepth) (hentries : 1 ≤ limits.maxContainerEntries) :
    Fits limits depth (Value.nested n) := by
  induction n generalizing depth with
  | zero => exact .scalar trivial hdepth
  | succ n ih =>
    refine .array (by omega) hentries fun v hv => ?_
    rw [List.mem_singleton.mp hv]
    exact ih (by omega)

theorem items_nested (n : Nat) : SdCwt.items (Value.nested n) = n + 1 := by
  induction n with
  | zero => rfl
  | succ n ih =>
    rw [Value.nested, SdCwt.items, items.itemsAll, items.itemsAll, ih]
    omega

/-- A redacted element that is nested `n` deep. -/
def nestedElement (n : Nat) : Disclosure where
  kind := .element (List.replicate 16 0) (Value.nested n)
  encoded := (DisclosureKind.element (List.replicate 16 0) (Value.nested n)).toValue.canonical
  valid := rfl

/-- It can be encoded. -/
theorem canonicalVec_nested {n : Nat} (hn : n ≤ ({} : ProcessingLimits).maxDepth) :
    SdCbor2.reference.canonicalVec (nestedElement n).kind.toValue =
      .ok (nestedElement n).encoded := by
  have hpair {P : Value → Prop} (hbytes : P (.bytes (List.replicate 16 0)))
      (hnested : P (Value.nested n)) : ∀ v ∈ [.bytes (List.replicate 16 0), Value.nested n], P v :=
    List.forall_mem_cons.mpr ⟨hbytes, List.forall_mem_singleton.mpr hnested⟩
  have hwritable : (nestedElement n).kind.toValue.Writable :=
    Value.writable_array.mpr ⟨by show 2 < 18446744073709551616; omega,
      hpair (Value.writable_bytes.mpr (by decide)) (Value.writable_nested n)⟩
  have hkeys : (nestedElement n).kind.toValue.DuplicateFree :=
    Value.duplicateFree_array (hpair (Value.Plain.bytes _).duplicateFree
      (Value.duplicateFree_nested n))
  have hdepth : (nestedElement n).kind.toValue.toTree.depth ≤ 64 + 1 :=
    Value.depth_array_le (hpair (Nat.zero_le _) ((Value.depth_nested n).trans_le hn))
  exact Except.mapError_eq_ok.mpr (Cbor2.reference_encodesCanonically.canonical hwritable hkeys
    (hdepth.trans_lt (by decide)))

/-- It is constructed up to the depth limit. -/
theorem element_nested {n : Nat} (hn : n ≤ ({} : ProcessingLimits).maxDepth) :
    element .reference (List.replicate 16 0) (Value.nested n) = .ok (nestedElement n) := by
  have hk := SdCbor2.reference_readsCanonically.encodesKeys
  refine (fromKindWithLimits_ok .reference (d := nestedElement n)).mpr
    ⟨rfl, (validateDisclosureValue_ok hk).mpr ?_, canonicalVec_nested hn⟩
  rintro v ⟨⟩
  have hdepth : 0 + n ≤ ({} : ProcessingLimits).maxDepth := by omega
  have hlimit : ({} : ProcessingLimits).maxDepth = 64 := rfl
  have hitems : (nestedElement n).kind.items = 2 + (n + 1) := congrArg (2 + ·) (items_nested n)
  refine ⟨⟨redacted_nested n, fits_nested hdepth (by decide)⟩, .inr ?_⟩
  show 0 + (nestedElement n).kind.items < usizeBound ∧ 0 + (nestedElement n).kind.items ≤ 100000
  rw [hitems, usizeBound]
  omega

/-- The array around the value is one level more, which the decoder counts. -/
theorem depth_le_of_decoded {n : Nat} (hn : n ≤ ({} : ProcessingLimits).maxDepth)
    {d' : Disclosure} (hok : fromEncoded .reference (nestedElement n).encoded = .ok d') :
    n + 1 ≤ ({} : ProcessingLimits).maxDepth := by
  have hkind := Constructed.fromKind (.element (element_nested hn))
  have hlength := length_le_of_fromEncoded hok
  have hnorm : (nestedElement n).kind.toValue.norm = (nestedElement n).kind.toValue := by
    show (Value.array [_, _]).norm = _
    rw [Value.norm, Value.normItems_eq, List.map_cons, List.map_cons, Value.norm_nested]
    rfl
  obtain ⟨-, hdepth, -⟩ := (nestedElement n).within_of_fromEncoded
    SdCbor2.reference_readsCanonically hkind (hlength.trans_lt (by decide)) hok
  have hkindValue : (nestedElement n).kind.toValue =
      .array [.bytes (List.replicate 16 0), Value.nested n] := rfl
  rw [hnorm, hkindValue, Value.toTree, Value.toTreeItems, Value.toTreeItems,
    Value.toTreeItems, Tree.depth, Tree.depthItems, Tree.depthItems, Tree.depthItems,
    Value.depth_nested] at hdepth
  omega

/-- A redacted element that is undefined. -/
def undefinedElement : Disclosure where
  kind := .element (List.replicate 16 0) .undefined
  encoded := (DisclosureKind.element (List.replicate 16 0) .undefined).toValue.canonical
  valid := rfl

/-- So at the limit, what is constructed is not decoded; and undefined is decoded as null. -/
theorem element_not_decoded :
    (element .reference (List.replicate 16 0) (Value.nested 64) = .ok (nestedElement 64) ∧
      ∀ d', fromEncoded .reference (nestedElement 64).encoded ≠ .ok d') ∧
    element .reference (List.replicate 16 0) .undefined = .ok undefinedElement ∧
      ∃ d', fromEncoded .reference undefinedElement.encoded = .ok d' ∧
        d'.kind.value.map Value.canonical ≠ undefinedElement.kind.value.map Value.canonical := by
  refine ⟨⟨element_nested (by decide), fun _ hok => ?_⟩, rfl, undefinedElement.asRead, rfl, ?_⟩
  · exact absurd (depth_le_of_decoded (by decide) hok) (by decide)
  · decide

end Disclosure

end Cose2.SdCwt
