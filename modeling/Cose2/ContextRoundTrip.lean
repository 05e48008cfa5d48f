import Cose2.ContextEncoding
import Cose2.LayerRoundTrip

/-! # Contexts of key derivation read back

What is written is read back, field by field.  The protected header alone has several
spellings, and a context that was decoded is written with the bytes it was decoded from.
-/
namespace Cose2

open Cbor Cbor2 Recipient

/-- A visitor is called with an integer or with bytes, a number that fits is read as an
unsigned integer, and only null is nothing. -/
structure Cbor2.ReadsNonces (c : Cbor2) : Prop where
  integer : ∀ i : Integer, ∃ u, c.deserializeAny (Value.integer i).toTree = .ok u ∧
    ((∃ n : Int64, n.toInt = i.val ∧ u = .i64 n) ∨
      (∃ n : UInt64, (n.toNat : Int) = i.val ∧ u = .u64 n) ∨
      u = .i128 i.val ∨ ∃ n : Nat, (n : Int) = i.val ∧ u = .u128 n)
  bytes : ∀ {b}, (Value.bytes b).Writable →
    c.deserializeAny (Value.bytes b).toTree = .ok (.bytes b)
  u64 : ∀ n, c.u64 (u64Value n).toTree = .ok n
  null : c.isNone Value.null.toTree = true
  some_integer : ∀ i : Integer, c.isNone (Value.integer i).toTree = false
  some_bytes : ∀ {b}, (Value.bytes b).Writable → c.isNone (Value.bytes b).toTree = false

theorem Cbor2.reference_deserializeAny (v : Value) :
    Cbor2.reference.deserializeAny v.toTree = .ok (visitOf v.norm) := by
  unfold reference
  dsimp only
  rw [Value.value_toTree]
  rfl

theorem Cbor2.reference_readsNonces : Cbor2.reference.ReadsNonces where
  integer i := by
    refine ⟨_, reference_deserializeAny _, ?_⟩
    rw [Value.norm, visitOf]
    cases h : i64TryFrom i.val with
    | none => exact .inr (.inr (.inl rfl))
    | some n => exact .inl ⟨n, i64TryFrom_eq_some h, rfl⟩
  bytes _ := reference_deserializeAny _
  u64 n := by
    have hvalue : (u64Value n).toTree.value = some (u64Value n) := Value.value_toTree _
    unfold reference
    dsimp only
    rw [hvalue, u64Value, Option.map_some, Value.load]
    simp
  null := rfl
  some_integer i := by
    simp only [reference, Value.value_toTree]
    rfl
  some_bytes _ := by
    simp only [reference, Value.value_toTree]
    rfl

/-! ### What is read back -/

theorem PartyNonce.deserialize_value {c : Cbor2} (hn : c.ReadsNonces) {n : PartyNonce} {v : Value}
    (h : n.serialize = .ok v) (hw : v.Writable) :
    PartyNonce.deserialize c v.toTree = .ok n := by
  obtain ⟨b, rfl, rfl⟩ | ⟨i, rfl, rfl⟩ := PartyNonce.serialize_ok.mp h
  · exact Except.bind_eq_ok.mpr ⟨_, hn.bytes hw, rfl⟩
  · obtain ⟨u, hu, hvisit⟩ := hn.integer i
    refine Except.bind_eq_ok.mpr ⟨u, hu, ?_⟩
    rcases hvisit with ⟨j, hj, rfl⟩ | ⟨j, hj, rfl⟩ | rfl | ⟨j, hj, rfl⟩
    · rw [visit, hj]
    · rw [visit, hj]
    · rw [visit, validatePartyNonceInteger_ok.mpr ⟨i, rfl⟩]
      rfl
    -- an integer of CBOR is far below the bound of `i128`
    · have hfits : ¬ 170141183460469231731687303715884105727 < j := by
        have := i.upper
        omega
      refine Except.bind_eq_ok.mpr ⟨(), Except.failIf_eq_ok.mpr hfits, ?_⟩
      rw [hj, validatePartyNonceInteger_ok.mpr ⟨i, rfl⟩]
      rfl

theorem PartyNonce.deserializeOption_value {c : Cbor2} (hn : c.ReadsNonces)
    {nonce : Option PartyNonce} {v : Value} (h : NonceValue nonce v) (hw : v.Writable) :
    PartyNonce.deserializeOption c v.toTree = .ok nonce := by
  obtain ⟨rfl, rfl⟩ | ⟨n, rfl, h⟩ := h
  · rw [deserializeOption, if_pos hn.null]
  · have hsome : c.isNone v.toTree = false := by
      obtain ⟨b, -, rfl⟩ | ⟨i, -, rfl⟩ := PartyNonce.serialize_ok.mp h
      · exact hn.some_bytes hw
      · exact hn.some_integer i
    rw [deserializeOption, hsome, deserialize_value hn h hw]
    rfl

section Reading

variable {c : Cbor2} (hr : c.ReadsBack) (hcap : c.CapturesRaw)
  (hrecursion : defaultMaxDepth < c.recursionLimit)

include hr hcap hrecursion

theorem strictOptionalBytes_value {o : Option Bytes} (hw : (serializeOptionalBytes o).Writable) :
    strictOptionalBytes c (serializeOptionalBytes o).toTree = .ok o := by
  cases o with
  | none => exact strictOptionalBytes_null hr hcap hrecursion
  | some b => exact strictOptionalBytes_bytes hr hcap hrecursion hw

theorem readsLast_value {o : Option Bytes}
    (hw : ∀ v ∈ KdfContext.lastItem o, v.Writable) :
    ReadsLast c ((KdfContext.lastItem o).map Value.toTree) o := by
  cases o with
  | none => exact ⟨rfl, Nat.zero_le _⟩
  | some b =>
    have hread := strictBytes_value hr hcap hrecursion (hw (.bytes b) (List.mem_singleton.mpr rfl))
    refine ⟨?_, Nat.le_refl _⟩
    change Option.mapM (strictBytes c) (some (Value.bytes b).toTree) = _
    rw [Option.mapM_some, hread]
    rfl

theorem PartyInfo.deserialize_value (hn : c.ReadsNonces) {info : PartyInfo} {v : Value}
    (h : info.serialize = .ok v) (hw : v.Writable) :
    PartyInfo.deserialize c v.toTree = .ok info := by
  obtain ⟨nonce, hnonce, rfl⟩ := PartyInfo.serialize_ok.mp h
  obtain ⟨-, hparts⟩ := Value.writable_array.mp hw
  rw [List.forall_mem_cons, List.forall_mem_cons, List.forall_mem_singleton] at hparts
  obtain ⟨hidentity, hw, hother⟩ := hparts
  exact PartyInfo.deserialize_ok.mpr ⟨_, _, _, _, rfl,
    strictOptionalBytes_value hr hcap hrecursion hidentity,
    PartyNonce.deserializeOption_value hn hnonce hw,
    strictOptionalBytes_value hr hcap hrecursion hother⟩

theorem SuppPubInfo.deserialize_value (hn : c.ReadsNonces) {info : SuppPubInfo} {raw : Bytes}
    {p : Header} (hraw : decodeProtected c raw = .ok p)
    (hw : (KdfContext.suppPubValue info raw).Writable) :
    SuppPubInfo.deserialize c (KdfContext.suppPubValue info raw).toTree =
      .ok { info with protectedHeader := p, protectedRaw := some raw } := by
  obtain ⟨-, hparts⟩ := Value.writable_array.mp hw
  rw [List.forall_mem_cons, List.forall_mem_cons] at hparts
  obtain ⟨-, hbytes, hlast⟩ := hparts
  rw [KdfContext.suppPubValue, Value.toTree, Value.toTreeItems_eq, SuppPubInfo.deserialize_ok]
  exact ⟨_, _, _, _, raw, rfl, hn.u64 _, strictBytes_value hr hcap hrecursion hbytes,
    readsLast_value hr hcap hrecursion hlast, hraw, rfl⟩

theorem KdfContext.deserialize_value (hn : c.ReadsNonces) {ctx : KdfContext} {pu pv : Value}
    {raw : Bytes} {p : Header} (h : ctx.Writes c pu pv raw)
    (hraw : decodeProtected c raw = .ok p) (hw : (ctx.contextValue pu pv raw).Writable) :
    KdfContext.deserialize c (ctx.contextValue pu pv raw).toTree = .ok { ctx with
      suppPubInfo := { ctx.suppPubInfo with protectedHeader := p, protectedRaw := some raw } } := by
  obtain ⟨-, hparts⟩ := Value.writable_array.mp hw
  rw [List.forall_mem_cons, List.forall_mem_cons, List.forall_mem_cons, List.forall_mem_cons]
    at hparts
  obtain ⟨-, hu, hv, hs, hlast⟩ := hparts
  rw [KdfContext.contextValue, Value.toTree, Value.toTreeItems_eq, KdfContext.deserialize_ok]
  exact ⟨_, _, _, _, _, _, rfl, CoseMap.deserialize_label hr _,
    PartyInfo.deserialize_value hr hcap hrecursion hn h.partyU hu,
    PartyInfo.deserialize_value hr hcap hrecursion hn h.partyV hv,
    SuppPubInfo.deserialize_value hr hcap hrecursion hn hraw hs,
    readsLast_value hr hcap hrecursion hlast⟩

end Reading

namespace KdfContext

/-- The same contexts, up to the spelling of the values in the protected header. -/
structure Same (ctx ctx' : KdfContext) : Prop where
  algorithmId : ctx'.algorithmId = ctx.algorithmId
  partyUInfo : ctx'.partyUInfo = ctx.partyUInfo
  partyVInfo : ctx'.partyVInfo = ctx.partyVInfo
  keyDataLength : ctx'.suppPubInfo.keyDataLength = ctx.suppPubInfo.keyDataLength
  protectedHeader : SameHeader ctx.suppPubInfo.protectedHeader ctx'.suppPubInfo.protectedHeader
  other : ctx'.suppPubInfo.other = ctx.suppPubInfo.other
  suppPrivInfo : ctx'.suppPrivInfo = ctx.suppPrivInfo

section Encoding

variable {c : Cbor2} {ctx ctx' : KdfContext} {b : Bytes} (hw : c.WritesValues) (hr : c.ReadsBack)
  (hrecursion : defaultMaxDepth < c.recursionLimit)
include hw hr hrecursion

/-- What `to_vec` writes, `from_slice` reads. -/
theorem fromSlice_toVec (hread : c.ReadsItems) (hc : c.ReadsValues) (hcap : c.CapturesRaw)
    (hn : c.ReadsNonces) (h : ctx.toVec c = .ok b)
    (hdata : WithinDefaults b)
    (hsize : ∀ r, encodeProtected c ctx.suppPubInfo.protectedHeader = .ok r →
      r.length < usizeBound)
    (hraw : ∀ r, serializedProtected c ctx.suppPubInfo.protectedHeader
      ctx.suppPubInfo.protectedRaw = .ok r → r ≠ [] → WithinDefaults r)
    (hdefined : CoseMap.Defined ctx.suppPubInfo.protectedHeader) :
    ∃ ctx', fromSlice c b = .ok ctx' ∧ Same ctx ctx' := by
  obtain ⟨pu, pv, raw, hwrites, rfl⟩ := toVec_ok hw h
  have hdenotes := denotes_of_serializedProtected hwrites.protectedRaw
  have ⟨current, hcurrent, _⟩ := hdenotes
  obtain ⟨p, hp, hreadAs⟩ := decodeProtected_of_denotes hw hr hrecursion hread hc hdenotes hsize
    (hraw raw hwrites.protectedRaw) (hdefined.apart_of_encodeProtected hr hcurrent)
  obtain ⟨hwritable, hlimits⟩ := hdata.of_encode
  have hregular := (plain_contextValue hwrites).regular hwritable
  have hdepth := hlimits.depth.trans_lt hrecursion
  refine ⟨{ ctx with
    suppPubInfo := { ctx.suppPubInfo with protectedHeader := p, protectedRaw := some raw } }, ?_,
    ⟨rfl, rfl, rfl, rfl, hreadAs.sameHeader hdefined, rfl, rfl⟩⟩
  rw [fromSlice, Except.seq_eq_ok, Except.mapError_eq_ok]
  constructor
  · refine Except.bind_eq_ok.mpr ⟨_, root_regular hr hregular hlimits hrecursion, ?_⟩
    rw [Except.failIf_eq_ok, not_not, Strict.itemAt_kind]
    rfl
  · exact Except.bind_eq_ok.mpr ⟨_, hr.item hregular hdepth,
      deserialize_value hr hcap hrecursion hn hwrites hp hwritable⟩

/-- Contexts with the same encoding are the same, when there is no undefined in their
protected headers. -/
theorem same_of_toVec (hsize : b.length < usizeBound)
    (hprotected : ∀ r, encodeProtected c ctx.suppPubInfo.protectedHeader = .ok r →
      r.length < usizeBound)
    (hprotected' : ∀ r, encodeProtected c ctx'.suppPubInfo.protectedHeader = .ok r →
      r.length < usizeBound)
    (hdefined : CoseMap.Defined ctx.suppPubInfo.protectedHeader)
    (hdefined' : CoseMap.Defined ctx'.suppPubInfo.protectedHeader)
    (h : ctx.toVec c = .ok b) (h' : ctx'.toVec c = .ok b) : Same ctx ctx' := by
  obtain ⟨pu, pv, raw, hwrites, rfl⟩ := toVec_ok hw h
  obtain ⟨pu', pv', raw', hwrites', heq⟩ := toVec_ok hw h'
  have hsize' := hsize
  rw [heq] at hsize'
  -- equal encodings are encodings of one value, from which the fields are read off
  have hvalue := Value.encode_inj (Tree.value_writable hsize (Value.value_toTree _))
    (Tree.value_writable hsize' (Value.value_toTree _)) heq
  simp only [contextValue, suppPubValue, Value.array.injEq, List.cons.injEq] at hvalue
  obtain ⟨halg, rfl, rfl, ⟨hlength, hraw, hother⟩, hpriv⟩ := hvalue
  obtain rfl := Value.bytes.inj hraw
  exact {
    algorithmId := (Label.toValue_injective halg).symm
    partyUInfo := PartyInfo.serialize_inj hwrites'.partyU hwrites.partyU
    partyVInfo := PartyInfo.serialize_inj hwrites'.partyV hwrites.partyV
    keyDataLength := (u64Value_injective hlength).symm
    protectedHeader := sameHeader_of_denotes hw hr hrecursion hprotected hprotected' hdefined
      hdefined' (denotes_of_serializedProtected hwrites.protectedRaw)
      (denotes_of_serializedProtected hwrites'.protectedRaw)
    other := (lastItem_injective hother).symm
    suppPrivInfo := (lastItem_injective hpriv).symm }

end Encoding
end KdfContext

/-! ### What was read is written again -/

/-- An item in a slice that Rust can have. -/
structure InMemory (t : Tree) : Prop where
  wellFormed : t.WellFormed
  size : t.bytes.length < usizeBound

theorem InMemory.child {t s : Tree} (h : InMemory t) (hs : s ∈ t.children) : InMemory s :=
  ⟨h.wellFormed.child hs, (Tree.length_lt_of_mem hs).trans h.size⟩

/-- The content of the protected bytes in the item of a context. -/
def HoldsProtected (t : Tree) (raw : Bytes) : Prop :=
  ∃ w a u v w' k p rest' rest,
    t = .array w (a :: u :: v :: .array w' (k :: p :: rest') :: rest) ∧
      p.value = some (.bytes raw)

/-- The content of the protected bytes in an encoded context. -/
def EncodesProtected (data raw : Bytes) : Prop :=
  ∃ t : Tree, data = t.bytes ∧ t.Fits ∧ HoldsProtected t raw

theorem encodesProtected_iff {t : Tree} {raw : Bytes} (ht : t.Fits) (h : HoldsProtected t raw)
    (r : Bytes) : EncodesProtected t.bytes r ↔ r = raw := by
  constructor
  · rintro ⟨t', hbytes, hfits, h'⟩
    obtain rfl := bytes_inj ht hfits hbytes
    obtain ⟨w, a, u, v, w', k, p, rest', rest, rfl, hp⟩ := h
    obtain ⟨_, _, _, _, _, _, _, _, _, heq, hp'⟩ := h'
    cases heq
    rw [hp] at hp'
    exact (Value.bytes.inj (Option.some.inj hp')).symm
  · rintro rfl
    exact ⟨t, rfl, ht, h⟩

theorem holdsProtected_contextValue {ctx : KdfContext} (pu pv : Value) (raw : Bytes) :
    HoldsProtected (ctx.contextValue pu pv raw).toTree raw :=
  ⟨_, _, _, _, _, _, _, _, _, rfl, rfl⟩

section Writing

variable {c : Cbor2} (hcap : c.CapturesRaw) (hd : c.Describes) {t : Tree} (ht : InMemory t)

include hcap ht in
theorem value_of_strictBytes {b : Bytes} (h : strictBytes c t = .ok b) :
    t.value = some (.bytes b) := by
  rw [strictBytes, hcap.raw ht.wellFormed, Except.ok_bind, Except.mapError_eq_ok] at h
  obtain ⟨t', hbytes, hfits, -, -, hv⟩ := Strict.decodeBytes_ok.mp h
  rwa [bytes_inj ht.wellFormed.fits hfits hbytes]

include hcap ht in
theorem writable_of_strictOptionalBytes {o : Option Bytes}
    (h : strictOptionalBytes c t = .ok o) : (serializeOptionalBytes o).Writable := by
  rw [strictOptionalBytes, hcap.raw ht.wellFormed, Except.ok_bind, Except.mapError_eq_ok] at h
  obtain ⟨t', hbytes, hfits, -, -, ⟨-, rfl⟩ | ⟨b, hv, rfl⟩⟩ := Strict.decodeOptionalBytes_ok.mp h
  · exact Value.writable_null
  · rw [← bytes_inj ht.wellFormed.fits hfits hbytes] at hv
    exact Tree.value_writable ht.size hv

include hcap in
theorem writable_of_readsLast {rest : List Tree} {o : Option Bytes} (h : ReadsLast c rest o)
    (hrest : ∀ t ∈ rest, InMemory t) : ∀ v ∈ KdfContext.lastItem o, v.Writable := by
  cases rest with
  | nil =>
    obtain rfl : none = o := Except.pure_eq_ok.mp h.1
    rintro v ⟨⟩
  | cons t rest =>
    obtain ⟨b, hb, ho⟩ := Except.map_eq_ok.mp h.1
    rw [← ho, KdfContext.lastItem]
    have ht := hrest t List.mem_cons_self
    exact List.forall_mem_singleton.mpr
      (Tree.value_writable ht.size (value_of_strictBytes hcap ht hb))

include hd ht in
theorem PartyNonce.serialize_of_deserialize {n : PartyNonce}
    (h : PartyNonce.deserialize c t = .ok n) : ∃ v, n.serialize = .ok v ∧ v.Writable := by
  obtain ⟨u, hu, hvisit⟩ := Except.bind_eq_ok.mp h
  have hint (i : Integer) : ∃ v, (PartyNonce.int i.val).serialize = .ok v ∧ v.Writable :=
    ⟨_, serialize_ok.mpr (.inr ⟨i, rfl, rfl⟩), Value.writable_integer i⟩
  cases u with
  | str | other => cases hvisit
  | bytes b =>
    cases hvisit
    obtain ⟨d, hvalue, hnorm⟩ := hd.of_visit hu
    have hw := (Tree.value_writable ht.size hvalue).norm
    rw [show d.norm = .bytes b from hnorm] at hw
    exact ⟨_, rfl, hw⟩
  | i64 v =>
    cases hvisit
    have := v.le_toInt
    have := v.toInt_lt
    exact hint ⟨v.toInt, by omega, by omega⟩
  | u64 v =>
    cases hvisit
    have := v.toNat_lt
    exact hint ⟨v.toNat, by omega, by omega⟩
  | i128 v =>
    obtain ⟨_, hvalid, hvisit⟩ := Except.bind_eq_ok.mp hvisit
    cases hvisit
    obtain ⟨j, rfl⟩ := validatePartyNonceInteger_ok.mp (Except.mapError_eq_ok.mp hvalid)
    exact hint j
  | u128 v =>
    obtain ⟨_, -, hvisit⟩ := Except.bind_eq_ok.mp hvisit
    obtain ⟨_, hvalid, hvisit⟩ := Except.bind_eq_ok.mp hvisit
    cases hvisit
    obtain ⟨j, hj⟩ := validatePartyNonceInteger_ok.mp (Except.mapError_eq_ok.mp hvalid)
    rw [← hj]
    exact hint j

include hd ht in
theorem PartyNonce.value_of_deserializeOption {nonce : Option PartyNonce}
    (h : PartyNonce.deserializeOption c t = .ok nonce) : ∃ v, NonceValue nonce v ∧ v.Writable := by
  rw [deserializeOption] at h
  split_ifs at h
  · cases h
    exact ⟨.null, .inl ⟨rfl, rfl⟩, Value.writable_null⟩
  · obtain ⟨n, hn, rfl⟩ := Except.map_eq_ok.mp h
    obtain ⟨v, hv, hw⟩ := serialize_of_deserialize hd ht hn
    exact ⟨v, .inr ⟨n, rfl, hv⟩, hw⟩

include hcap hd ht in
theorem PartyInfo.serialize_of_deserialize {info : PartyInfo}
    (h : PartyInfo.deserialize c t = .ok info) : ∃ v, info.serialize = .ok v ∧ v.Writable := by
  obtain ⟨w, identity, nonce, other, rfl, hidentity, hnonce, hother⟩ := deserialize_ok.mp h
  have hparts : ∀ s ∈ [identity, nonce, other], InMemory s := fun s hs => ht.child hs
  rw [List.forall_mem_cons, List.forall_mem_cons, List.forall_mem_singleton] at hparts
  obtain ⟨hidentity', hnonce', hother'⟩ := hparts
  obtain ⟨v, hv, hw⟩ := PartyNonce.value_of_deserializeOption hd hnonce' hnonce
  refine ⟨_, serialize_ok.mpr ⟨v, hv, rfl⟩, Value.writable_array.mpr ⟨by simp, ?_⟩⟩
  rw [List.forall_mem_cons, List.forall_mem_cons, List.forall_mem_singleton]
  exact ⟨writable_of_strictOptionalBytes hcap hidentity' hidentity, hw,
    writable_of_strictOptionalBytes hcap hother' hother⟩

include hcap hd ht in
/-- A context that was decoded is written, with the protected bytes of its item. -/
theorem KdfContext.writes_of_deserialize (hread : c.ReadsItems) (hw : c.WritesValues)
    (hc : c.ReadsValues) (he : c.EncodesCanonically)
    (hrecursion : defaultMaxDepth < c.recursionLimit) {ctx : KdfContext}
    (h : KdfContext.deserialize c t = .ok ctx) :
    ∃ pu pv raw, ctx.Writes c pu pv raw ∧ (ctx.contextValue pu pv raw).Writable ∧
      HoldsProtected t raw := by
  obtain ⟨w, a, u, v, s, rest, rfl, ha, hu, hv, hs, hlast⟩ := deserialize_ok.mp h
  obtain ⟨w', k, p, rest', raw, rfl, hk, hp, hother, hdecoded, hstored⟩ :=
    SuppPubInfo.deserialize_ok.mp hs
  have hparts : ∀ s ∈ a :: u :: v :: .array w' (k :: p :: rest') :: rest, InMemory s :=
    fun s hs => ht.child hs
  rw [List.forall_mem_cons, List.forall_mem_cons, List.forall_mem_cons, List.forall_mem_cons]
    at hparts
  obtain ⟨ha', hu', hv', hs', hrest⟩ := hparts
  have hinside : ∀ s ∈ k :: p :: rest', InMemory s := fun s hs => hs'.child hs
  rw [List.forall_mem_cons, List.forall_mem_cons] at hinside
  obtain ⟨-, hp', hrest'⟩ := hinside
  obtain ⟨pu, hpu, hpuw⟩ := PartyInfo.serialize_of_deserialize hcap hd hu' hu
  obtain ⟨pv, hpv, hpvw⟩ := PartyInfo.serialize_of_deserialize hcap hd hv' hv
  have hvalue := value_of_strictBytes hcap hp' hp
  have hsize := (Tree.length_lt_of_bytes hvalue).trans hp'.size
  obtain ⟨current, hcurrent⟩ :=
    encodeProtected_of_decodeProtected hread hw hc he hrecursion hsize hdecoded
  -- the bytes that were decoded pass the check against the header they gave
  have hraw : serializedProtected c ctx.suppPubInfo.protectedHeader
      ctx.suppPubInfo.protectedRaw = .ok raw := by
    rw [hstored, serializedProtected, Except.seq_eq_ok, Except.pure_eq_ok]
    exact ⟨validateProtectedState_ok.mpr ⟨current, hcurrent, .inr ⟨_, hdecoded, hcurrent⟩⟩, rfl⟩
  have hlength (o : Option Bytes) : (lastItem o).length ≤ 1 := by
    cases o <;> simp [lastItem]
  have hlabel : ctx.algorithmId.toValue.Writable := by
    obtain ⟨d, hd', hnorm⟩ := Label.deserialize_ok hd ha
    rw [← hnorm]
    exact (Tree.value_writable ha'.size hd').norm
  have hsupp : (suppPubValue ctx.suppPubInfo raw).Writable := by
    refine Value.writable_array.mpr ⟨?_, ?_⟩
    · have := hlength ctx.suppPubInfo.other
      simp only [List.length_cons]
      omega
    · rw [List.forall_mem_cons, List.forall_mem_cons]
      exact ⟨Value.writable_integer _, Tree.value_writable hp'.size hvalue,
        writable_of_readsLast hcap hother hrest'⟩
  refine ⟨pu, pv, raw, ⟨hpu, hpv, hraw⟩, Value.writable_array.mpr ⟨?_, ?_⟩, ?_⟩
  · have := hlength ctx.suppPrivInfo
    simp only [List.length_cons]
    omega
  · rw [List.forall_mem_cons, List.forall_mem_cons, List.forall_mem_cons, List.forall_mem_cons]
    exact ⟨hlabel, hpuw, hpvw, hsupp, writable_of_readsLast hcap hlast hrest⟩
  · exact ⟨w, a, u, v, w', k, p, rest', rest, rfl, hvalue⟩

end Writing

namespace KdfContext

variable {c : Cbor2}

/-- **Encodings of contexts are faithful and injective.**  What `to_vec` writes,
`from_slice` reads, when there is no undefined in the protected header and the limits of the
decoder admit it; such contexts with one encoding are the same; and a context that was
decoded is written with its protected bytes, whatever their spelling. -/
theorem encodes_faithfully (hread : c.ReadsItems) (hcap : c.CapturesRaw) (hd : c.Describes)
    (hc : c.ReadsValues) (hw : c.WritesValues) (hr : c.ReadsBack) (hn : c.ReadsNonces)
    (hrecursion : defaultMaxDepth < c.recursionLimit) :
    (∀ ctx b, ctx.toVec c = .ok b → WithinDefaults b →
        (∀ r, encodeProtected c ctx.suppPubInfo.protectedHeader = .ok r →
          r.length < usizeBound) →
        (∀ r, serializedProtected c ctx.suppPubInfo.protectedHeader
          ctx.suppPubInfo.protectedRaw = .ok r → r ≠ [] → WithinDefaults r) →
        CoseMap.Defined ctx.suppPubInfo.protectedHeader →
          ∃ ctx', fromSlice c b = .ok ctx' ∧ Same ctx ctx') ∧
      (∀ ctx ctx' b, b.length < usizeBound →
        (∀ r, encodeProtected c ctx.suppPubInfo.protectedHeader = .ok r →
          r.length < usizeBound) →
        (∀ r, encodeProtected c ctx'.suppPubInfo.protectedHeader = .ok r →
          r.length < usizeBound) →
        CoseMap.Defined ctx.suppPubInfo.protectedHeader →
        CoseMap.Defined ctx'.suppPubInfo.protectedHeader →
        ctx.toVec c = .ok b → ctx'.toVec c = .ok b → Same ctx ctx') ∧
      ∀ data ctx, data.length < usizeBound → fromSlice c data = .ok ctx →
        ∃ raw b, ctx.toVec c = .ok b ∧ (∀ r, EncodesProtected data r ↔ r = raw) ∧
          ∀ r, EncodesProtected b r ↔ r = raw := by
  have he := hr.toEncodesCanonically
  refine ⟨?_, ?_, ?_⟩
  · intro ctx b h hdata hsize hraw hdefined
    exact fromSlice_toVec hw hr hrecursion hread hc hcap hn h hdata hsize hraw hdefined
  · intro ctx ctx' b hsize hprotected hprotected' hdefined hdefined' h h'
    exact same_of_toVec hw hr hrecursion hsize hprotected hprotected' hdefined hdefined' h h'
  · intro data ctx hsize h
    rw [fromSlice, Except.seq_eq_ok, Except.mapError_eq_ok, Except.bind_eq_ok] at h
    obtain ⟨-, t, hitem, hctx⟩ := h
    obtain ⟨hwf, rfl⟩ := hread.sound hitem
    obtain ⟨pu, pv, raw, hwrites, hwritable, hholds⟩ :=
      writes_of_deserialize hcap hd ⟨hwf, hsize⟩ hread hw hc he hrecursion hctx
    have hplain := plain_contextValue hwrites
    have hshallow : (ctx.contextValue pu pv raw).toTree.depth ≤ defaultMaxDepth :=
      (depth_contextValue hwrites).trans (by decide)
    have hvec := he.canonical hwritable hplain.duplicateFree (hshallow.trans_lt hrecursion)
    rw [Value.canonical, hplain.norm] at hvec
    refine ⟨raw, _, ?_, encodesProtected_iff hwf.fits hholds,
      encodesProtected_iff hwritable (holdsProtected_contextValue pu pv raw)⟩
    rw [toVec, Except.mapError_eq_ok, Except.bind_eq_ok]
    exact ⟨_, serialize_ok.mpr ⟨pu, pv, raw, hwrites, rfl⟩, hvec⟩

/-- A context with the largest integer nonce on one side and bytes on the other. -/
def derived : KdfContext where
  algorithmId := .int 3
  partyUInfo := { nonce := some (.int 18446744073709551615) }
  partyVInfo := { identity := some [1], nonce := some (.bytes [2]) }
  suppPubInfo :=
    { keyDataLength := 128
      protectedHeader := BTreeMap.ofList [(.int 1, (Label.int (-6)).toValue)]
      other := some [] }
  suppPrivInfo := none

/-- The encoding of `derived`. -/
def derivedBytes : Bytes :=
  [0x84, 0x03, 0x83, 0xf6, 0x1b, 0xff, 0xff, 0xff, 0xff, 0xff, 0xff, 0xff, 0xff, 0xf6,
    0x83, 0x41, 0x01, 0x41, 0x02, 0xf6, 0x83, 0x18, 0x80, 0x43, 0xa1, 0x01, 0x25, 0x40]

theorem encodes_faithfully_derived :
    (∃ ctx', fromSlice Cbor2.reference derivedBytes = .ok ctx' ∧ Same derived ctx') ∧
      Same derived derived ∧
      ∃ ctx raw b, fromSlice Cbor2.reference derivedBytes = .ok ctx ∧
        ctx.toVec Cbor2.reference = .ok b ∧ (∀ r, EncodesProtected derivedBytes r ↔ r = raw) ∧
        ∀ r, EncodesProtected b r ↔ r = raw := by
  obtain ⟨hback, hsame, hverbatim⟩ := encodes_faithfully Cbor2.reference_readsItems
    Cbor2.reference_capturesRaw Cbor2.reference_describes Cbor2.reference_readsValues
    Cbor2.reference_writesValues Cbor2.reference_readsBack Cbor2.reference_readsNonces (by decide)
  have hvec : derived.toVec Cbor2.reference = .ok derivedBytes := rfl
  have hencoded : encodeProtected Cbor2.reference derived.suppPubInfo.protectedHeader =
    .ok [0xa1, 0x01, 0x25] := rfl
  have hsize (r : Bytes) (h : encodeProtected Cbor2.reference
      derived.suppPubInfo.protectedHeader = .ok r) : r.length < usizeBound := by
    cases hencoded.symm.trans h
    decide
  have hlimits (r : Bytes) (h : encodeProtected Cbor2.reference
      derived.suppPubInfo.protectedHeader = .ok r) : WithinDefaults r := by
    cases hencoded.symm.trans h
    exact withinDefaults_of_root (c := Cbor2.reference) (by decide) rfl
  have hdefined : CoseMap.Defined derived.suppPubInfo.protectedHeader :=
    CoseMap.forall_mem_ofList (List.forall_mem_singleton.mpr rfl)
  obtain ⟨ctx, hctx, hkept⟩ := hback derived derivedBytes hvec
    (withinDefaults_of_root (c := Cbor2.reference) (by decide) rfl) hsize
    (fun r hr _ => hlimits r hr) hdefined
  obtain ⟨raw, b, h⟩ := hverbatim _ ctx (by decide) hctx
  exact ⟨⟨ctx, hctx, hkept⟩,
    hsame derived derived _ (by decide) hsize hsize hdefined hdefined hvec hvec, ctx, raw, b, hctx,
    h⟩

/-- A context with the protected header `{"a": undefined}`. -/
def undefinedNote : KdfContext where
  algorithmId := .int 3
  partyUInfo := {}
  partyVInfo := {}
  suppPubInfo :=
    { keyDataLength := 128
      protectedHeader := BTreeMap.ofList [(.text "a", .undefined)] }
  suppPrivInfo := none

/-- The encoding of `undefinedNote`. -/
def undefinedNoteBytes : Bytes :=
  [0x84, 0x03, 0x83, 0xf6, 0xf6, 0xf6, 0x83, 0xf6, 0xf6, 0xf6, 0x82, 0x18, 0x80, 0x44, 0xa1,
    0x61, 0x61, 0xf7]

/-- Undefined in the protected header is read back as null, and the context that is read is
written as the same bytes. -/
theorem not_encodes_faithfully :
    (¬ ∀ (ctx : KdfContext) (b : Bytes), ctx.toVec Cbor2.reference = .ok b → WithinDefaults b →
      (∀ r, serializedProtected Cbor2.reference ctx.suppPubInfo.protectedHeader
        ctx.suppPubInfo.protectedRaw = .ok r → r ≠ [] → WithinDefaults r) →
        ∃ ctx', fromSlice Cbor2.reference b = .ok ctx' ∧ Same ctx ctx') ∧
      ¬ ∀ (ctx ctx' : KdfContext) (b : Bytes), b.length < usizeBound →
        ctx.toVec Cbor2.reference = .ok b → ctx'.toVec Cbor2.reference = .ok b → Same ctx ctx' := by
  have hvec : undefinedNote.toVec Cbor2.reference = .ok undefinedNoteBytes := rfl
  obtain ⟨noted, hnoted⟩ : ∃ noted : KdfContext, noted = { undefinedNote with
      suppPubInfo := { undefinedNote.suppPubInfo with
        protectedHeader := BTreeMap.ofList [(.text "a", .null)]
        protectedRaw := some [0xa1, 0x61, 0x61, 0xf7] } } := ⟨_, rfl⟩
  have hread : fromSlice Cbor2.reference undefinedNoteBytes = .ok noted := by
    rw [hnoted]
    rfl
  have hdiffer : ¬ Same undefinedNote noted := by
    intro hsame
    have hnote := hsame.protectedHeader (.text "a")
    rw [hnoted] at hnote
    exact absurd hnote (by decide)
  constructor
  · intro h
    have hencoded : encodeProtected Cbor2.reference undefinedNote.suppPubInfo.protectedHeader =
      .ok [0xa1, 0x61, 0x61, 0xf7] := rfl
    have hlimits (r : Bytes) (h : encodeProtected Cbor2.reference
        undefinedNote.suppPubInfo.protectedHeader = .ok r) : WithinDefaults r := by
      cases hencoded.symm.trans h
      exact withinDefaults_of_root (c := Cbor2.reference) (by decide) rfl
    obtain ⟨ctx', hctx, hsame⟩ := h undefinedNote _ hvec
      (withinDefaults_of_root (c := Cbor2.reference) (by decide) rfl) fun r hr _ => hlimits r hr
    cases hctx.symm.trans hread
    exact hdiffer hsame
  · intro h
    refine hdiffer (h undefinedNote noted _ (by decide) hvec ?_)
    rw [hnoted]
    rfl

end KdfContext
end Cose2
