import Cose2.Context
import Cose2.HeaderRoundTrip

/-! # The encoding of a context of key derivation

A context is written as an array of values that are in normal form already, so its
encoding determines them all (`KdfContext.toVec_ok`).  What is written and what is read
are stated once for each structure; reading back and writing again start from there.
-/
namespace Cose2

open Cbor Cbor2 Recipient

/-! ### What is written -/

/-- The integers that may be nonces are those of CBOR. -/
theorem validatePartyNonceInteger_ok {i : Int} :
    validatePartyNonceInteger i = .ok () ↔ ∃ j : Integer, j.val = i := by
  rw [validatePartyNonceInteger, Except.failIf_eq_ok]
  constructor
  · intro h
    exact ⟨⟨i, by omega, by omega⟩, rfl⟩
  · rintro ⟨⟨j, hlow, hhigh⟩, rfl⟩
    dsimp only
    omega

theorem PartyNonce.serialize_ok {n : PartyNonce} {v : Value} : n.serialize = .ok v ↔
    (∃ b, n = .bytes b ∧ v = .bytes b) ∨ ∃ i : Integer, n = .int i.val ∧ v = .integer i := by
  cases n with
  | bytes b => simp [serialize, eq_comm]
  | int i =>
    rw [serialize, Except.seq_eq_ok, Except.mapError_eq_ok, validatePartyNonceInteger_ok,
      Except.ofOption_eq_ok, Value.ofInt]
    constructor
    · rintro ⟨⟨j, rfl⟩, h⟩
      rw [dif_pos ⟨j.lower, j.upper⟩] at h
      exact .inr ⟨j, rfl, (Option.some.inj h).symm⟩
    · rintro (⟨_, ⟨⟩, -⟩ | ⟨j, h, rfl⟩)
      cases h
      exact ⟨⟨j, rfl⟩, dif_pos ⟨j.lower, j.upper⟩⟩

/-- The value of an optional nonce. -/
def NonceValue (nonce : Option PartyNonce) (v : Value) : Prop :=
  (nonce = none ∧ v = .null) ∨ ∃ n, nonce = some n ∧ n.serialize = .ok v

theorem PartyInfo.serialize_ok {info : PartyInfo} {v : Value} : info.serialize = .ok v ↔
    ∃ nonce, NonceValue info.nonce nonce ∧ v = .array
      [serializeOptionalBytes info.identity, nonce, serializeOptionalBytes info.other] := by
  obtain ⟨identity, nonce, other⟩ := info
  cases nonce with
  | none =>
    constructor
    · rintro ⟨⟩
      exact ⟨.null, .inl ⟨rfl, rfl⟩, rfl⟩
    · rintro ⟨_, ⟨-, rfl⟩ | ⟨_, ⟨⟩, -⟩, rfl⟩
      rfl
  | some n =>
    rw [serialize, Except.bind_eq_ok]
    constructor
    · rintro ⟨w, hw, h⟩
      exact ⟨w, .inr ⟨n, rfl, hw⟩, (Except.pure_eq_ok.mp h).symm⟩
    · rintro ⟨w, ⟨⟨⟩, -⟩ | ⟨_, ⟨⟩, hw⟩, rfl⟩
      exact ⟨w, hw, rfl⟩

theorem PartyNonce.serialize_inj {n n' : PartyNonce} {v : Value} (h : n.serialize = .ok v)
    (h' : n'.serialize = .ok v) : n = n' := by
  obtain ⟨b, rfl, rfl⟩ | ⟨i, rfl, rfl⟩ := serialize_ok.mp h
  · obtain ⟨_, rfl, ⟨⟩⟩ | ⟨_, -, ⟨⟩⟩ := serialize_ok.mp h'
    rfl
  · obtain ⟨_, -, ⟨⟩⟩ | ⟨_, rfl, ⟨⟩⟩ := serialize_ok.mp h'
    rfl

theorem NonceValue.inj {nonce nonce' : Option PartyNonce} {v : Value} (h : NonceValue nonce v)
    (h' : NonceValue nonce' v) : nonce = nonce' := by
  -- null is not the value of any nonce
  have hnull {n : PartyNonce} (hn : n.serialize = .ok .null) : False := by
    obtain ⟨_, -, ⟨⟩⟩ | ⟨_, -, ⟨⟩⟩ := PartyNonce.serialize_ok.mp hn
  obtain ⟨rfl, rfl⟩ | ⟨n, rfl, h⟩ := h
  · obtain ⟨rfl, -⟩ | ⟨n', rfl, h'⟩ := h'
    · rfl
    · exact (hnull h').elim
  · obtain ⟨-, rfl⟩ | ⟨n', rfl, h'⟩ := h'
    · exact (hnull h).elim
    · rw [PartyNonce.serialize_inj h h']

theorem serializeOptionalBytes_injective : Function.Injective serializeOptionalBytes := by
  intro o o' h
  cases o with
  | none =>
    cases o' with
    | none => rfl
    | some => cases h
  | some b =>
    cases o' with
    | none => cases h
    | some =>
      cases h
      rfl

theorem PartyInfo.serialize_inj {info info' : PartyInfo} {v : Value} (h : info.serialize = .ok v)
    (h' : info'.serialize = .ok v) : info = info' := by
  obtain ⟨nonce, hnonce, rfl⟩ := serialize_ok.mp h
  obtain ⟨nonce', hnonce', heq⟩ := serialize_ok.mp h'
  simp only [Value.array.injEq, List.cons.injEq, and_true] at heq
  obtain ⟨hidentity, rfl, hother⟩ := heq
  obtain ⟨identity, n, other⟩ := info
  rw [PartyInfo.mk.injEq]
  exact ⟨serializeOptionalBytes_injective hidentity, hnonce.inj hnonce',
    serializeOptionalBytes_injective hother⟩

theorem u64Value_injective : Function.Injective u64Value := by
  intro n n' h
  have hval : (n.toNat : Int) = n'.toNat := congrArg Integer.val (Value.integer.inj h)
  exact UInt64.toNat_inj.mp (Int.ofNat_inj.mp hval)

theorem plain_label (l : Label) : l.toValue.Plain := by
  cases l with
  | int => exact .integer _
  | text s => exact .text s

theorem plain_optionalBytes (o : Option Bytes) : (serializeOptionalBytes o).Plain := by
  cases o with
  | none => exact .null
  | some b => exact .bytes b

theorem plain_nonce {nonce : Option PartyNonce} {v : Value} (h : NonceValue nonce v) :
    v.Plain := by
  obtain ⟨-, rfl⟩ | ⟨n, -, h⟩ := h
  · exact .null
  · obtain ⟨b, -, rfl⟩ | ⟨i, -, rfl⟩ := PartyNonce.serialize_ok.mp h
    · exact .bytes b
    · exact .integer i

theorem plain_partyInfo {info : PartyInfo} {v : Value} (h : info.serialize = .ok v) :
    v.Plain := by
  obtain ⟨nonce, hnonce, rfl⟩ := PartyInfo.serialize_ok.mp h
  refine .array ?_
  rw [List.forall_mem_cons, List.forall_mem_cons, List.forall_mem_singleton]
  exact ⟨plain_optionalBytes _, plain_nonce hnonce, plain_optionalBytes _⟩

/-- There are only scalars in it. -/
theorem depth_partyInfo {info : PartyInfo} {v : Value} (h : info.serialize = .ok v) :
    v.toTree.depth ≤ 1 := by
  have hoptional (o : Option Bytes) : (serializeOptionalBytes o).toTree.depth = 0 := by
    cases o <;> rfl
  obtain ⟨nonce, hnonce, rfl⟩ := PartyInfo.serialize_ok.mp h
  have hscalar : nonce.toTree.depth = 0 := by
    obtain ⟨-, rfl⟩ | ⟨n, -, hn⟩ := hnonce
    · rfl
    · obtain ⟨b, -, rfl⟩ | ⟨i, -, rfl⟩ := PartyNonce.serialize_ok.mp hn <;> rfl
  refine Value.depth_array_le ?_
  rw [List.forall_mem_cons, List.forall_mem_cons, List.forall_mem_singleton]
  exact ⟨(hoptional _).le, hscalar.le, (hoptional _).le⟩

namespace KdfContext

variable {c : Cbor2} {ctx ctx' : KdfContext} {pu pv pu' pv' : Value} {raw raw' b : Bytes}

/-- An optional byte string at the end of an array. -/
def lastItem (o : Option Bytes) : List Value := o.toList.map .bytes

/-- The value of the public information. -/
def suppPubValue (info : SuppPubInfo) (raw : Bytes) : Value :=
  .array (u64Value info.keyDataLength :: .bytes raw :: lastItem info.other)

/-- The value of a context. -/
def contextValue (ctx : KdfContext) (pu pv : Value) (raw : Bytes) : Value :=
  .array (ctx.algorithmId.toValue :: pu :: pv :: suppPubValue ctx.suppPubInfo raw ::
    lastItem ctx.suppPrivInfo)

/-- What the parts of a context that can be refused are written as. -/
structure Writes (c : Cbor2) (ctx : KdfContext) (pu pv : Value) (raw : Bytes) : Prop where
  partyU : ctx.partyUInfo.serialize = .ok pu
  partyV : ctx.partyVInfo.serialize = .ok pv
  protectedRaw : serializedProtected c ctx.suppPubInfo.protectedHeader
    ctx.suppPubInfo.protectedRaw = .ok raw

theorem lastItem_injective : Function.Injective lastItem := by
  intro o o' h
  have hbytes : Function.Injective Value.bytes := fun _ _ => Value.bytes.inj
  have hlist : o.toList = o'.toList := hbytes.list_map h
  rw [← Option.head?_toList (o := o), hlist, Option.head?_toList]

theorem suppPub_serialize_ok {info : SuppPubInfo} {v : Value} : info.serialize c = .ok v ↔
    ∃ raw, serializedProtected c info.protectedHeader info.protectedRaw = .ok raw ∧
      v = suppPubValue info raw := by
  simp only [SuppPubInfo.serialize, Except.bind_eq_ok, Except.mapError_eq_ok, Except.pure_eq_ok,
    suppPubValue, lastItem]
  refine exists_congr fun raw => and_congr_right fun _ => ?_
  cases info.other <;> simp [eq_comm]

theorem serialize_ok {v : Value} : ctx.serialize c = .ok v ↔
    ∃ pu pv raw, ctx.Writes c pu pv raw ∧ v = ctx.contextValue pu pv raw := by
  simp only [serialize, Except.bind_eq_ok, Except.pure_eq_ok, suppPub_serialize_ok,
    contextValue, lastItem]
  constructor
  · rintro ⟨pu, hu, pv, hv, s, ⟨raw, hraw, rfl⟩, rfl⟩
    refine ⟨pu, pv, raw, ⟨hu, hv, hraw⟩, ?_⟩
    cases ctx.suppPrivInfo <;> rfl
  · rintro ⟨pu, pv, raw, ⟨hu, hv, hraw⟩, rfl⟩
    refine ⟨pu, hu, pv, hv, _, ⟨raw, hraw, rfl⟩, ?_⟩
    cases ctx.suppPrivInfo <;> rfl

theorem plain_contextValue (h : ctx.Writes c pu pv raw) :
    (ctx.contextValue pu pv raw).Plain := by
  have hlast (o : Option Bytes) : ∀ v ∈ lastItem o, v.Plain := by
    rw [lastItem, List.forall_mem_map]
    exact fun b _ => .bytes b
  have hsupp : (suppPubValue ctx.suppPubInfo raw).Plain := by
    refine .array ?_
    rw [List.forall_mem_cons, List.forall_mem_cons]
    exact ⟨.integer _, .bytes raw, hlast _⟩
  refine .array ?_
  rw [List.forall_mem_cons, List.forall_mem_cons, List.forall_mem_cons, List.forall_mem_cons]
  exact ⟨plain_label _, plain_partyInfo h.partyU, plain_partyInfo h.partyV, hsupp, hlast _⟩

/-- Its arrays are two deep. -/
theorem depth_contextValue (h : ctx.Writes c pu pv raw) :
    (ctx.contextValue pu pv raw).toTree.depth ≤ 2 := by
  have hlast (o : Option Bytes) (n : Nat) : ∀ v ∈ lastItem o, v.toTree.depth ≤ n := by
    rw [lastItem, List.forall_mem_map]
    exact fun b _ => Nat.zero_le _
  have hlabel : ctx.algorithmId.toValue.toTree.depth ≤ 1 := by
    cases ctx.algorithmId <;> exact Nat.zero_le _
  have hsupp : (suppPubValue ctx.suppPubInfo raw).toTree.depth ≤ 1 := by
    refine Value.depth_array_le ?_
    rw [List.forall_mem_cons, List.forall_mem_cons]
    exact ⟨Nat.zero_le _, Nat.zero_le _, hlast _ _⟩
  refine Value.depth_array_le ?_
  rw [List.forall_mem_cons, List.forall_mem_cons, List.forall_mem_cons, List.forall_mem_cons]
  exact ⟨hlabel, depth_partyInfo h.partyU, depth_partyInfo h.partyV, hsupp, hlast _ _⟩

/-- The encoding of a context is the encoding of its value. -/
theorem toVec_ok (hw : c.WritesValues) (h : ctx.toVec c = .ok b) :
    ∃ pu pv raw, ctx.Writes c pu pv raw ∧ b = (ctx.contextValue pu pv raw).encode := by
  rw [toVec, Except.mapError_eq_ok, Except.bind_eq_ok] at h
  obtain ⟨v, hv, hvec⟩ := h
  obtain ⟨pu, pv, raw, hwrites, rfl⟩ := serialize_ok.mp hv
  refine ⟨pu, pv, raw, hwrites, ?_⟩
  rw [hw.canonical hvec, Value.canonical, (plain_contextValue hwrites).norm]

end KdfContext

/-! ### What is read -/

theorem PartyInfo.deserialize_ok {c : Cbor2} {t : Tree} {info : PartyInfo} :
    PartyInfo.deserialize c t = .ok info ↔ ∃ w identity nonce other,
      t = .array w [identity, nonce, other] ∧
        strictOptionalBytes c identity = .ok info.identity ∧
        PartyNonce.deserializeOption c nonce = .ok info.nonce ∧
        strictOptionalBytes c other = .ok info.other := by
  constructor
  · intro h
    unfold PartyInfo.deserialize at h
    split at h
    · simp only [Except.bind_eq_ok, Except.pure_eq_ok] at h
      obtain ⟨_, hidentity, _, hnonce, _, hother, rfl⟩ := h
      exact ⟨_, _, _, _, rfl, hidentity, hnonce, hother⟩
    · cases h
  · rintro ⟨w, identity, nonce, other, rfl, hidentity, hnonce, hother⟩
    rw [PartyInfo.deserialize, hidentity, hnonce, hother]
    rfl

/-- The last element of an array, when there is one, holds the optional bytes. -/
def ReadsLast (c : Cbor2) (rest : List Tree) (o : Option Bytes) : Prop :=
  rest.head?.mapM (strictBytes c) = .ok o ∧ rest.length ≤ 1

theorem SuppPubInfo.deserialize_ok {c : Cbor2} {t : Tree} {info : SuppPubInfo} :
    SuppPubInfo.deserialize c t = .ok info ↔ ∃ w k p rest raw, t = .array w (k :: p :: rest) ∧
      c.u64 k = .ok info.keyDataLength ∧ strictBytes c p = .ok raw ∧
      ReadsLast c rest info.other ∧ decodeProtected c raw = .ok info.protectedHeader ∧
      info.protectedRaw = some raw := by
  constructor
  · intro h
    unfold SuppPubInfo.deserialize at h
    split at h
    · rename_i w items
      unfold SuppPubInfo.deserializeElements at h
      split at h
      · cases h
      · obtain ⟨_, -, h⟩ := Except.bind_eq_ok.mp h
        cases h
      · rename_i k p rest
        simp only [Except.bind_eq_ok, Except.pure_eq_ok, Except.failIf_eq_ok,
          Except.mapError_eq_ok, not_lt] at h
        obtain ⟨_, hk, raw, hraw, _, hother, _, hlen, _, hdecoded, rfl⟩ := h
        exact ⟨w, k, p, rest, raw, rfl, hk, hraw, ⟨hother, hlen⟩, hdecoded, rfl⟩
    · cases h
  · rintro ⟨w, k, p, rest, raw, rfl, hk, hraw, ⟨hother, hlen⟩, hdecoded, hstored⟩
    obtain ⟨keyDataLength, protectedHeader, other, protectedRaw⟩ := info
    subst hstored
    simp only [SuppPubInfo.deserialize, SuppPubInfo.deserializeElements, Except.bind_eq_ok,
      Except.pure_eq_ok, Except.failIf_eq_ok, Except.mapError_eq_ok, not_lt]
    exact ⟨_, hk, _, hraw, _, hother, (), hlen, _, hdecoded, rfl⟩

theorem KdfContext.deserialize_ok {c : Cbor2} {t : Tree} {ctx : KdfContext} :
    KdfContext.deserialize c t = .ok ctx ↔ ∃ w a u v s rest,
      t = .array w (a :: u :: v :: s :: rest) ∧
      Label.deserialize c a = .ok ctx.algorithmId ∧
      PartyInfo.deserialize c u = .ok ctx.partyUInfo ∧
      PartyInfo.deserialize c v = .ok ctx.partyVInfo ∧
      SuppPubInfo.deserialize c s = .ok ctx.suppPubInfo ∧
      ReadsLast c rest ctx.suppPrivInfo := by
  constructor
  · intro h
    unfold KdfContext.deserialize at h
    split at h
    · rename_i w items
      unfold KdfContext.deserializeElements at h
      split at h
      · cases h
      · obtain ⟨_, -, h⟩ := Except.bind_eq_ok.mp h
        cases h
      · simp only [Except.bind_eq_ok, reduceCtorEq, and_false, exists_false] at h
      · simp only [Except.bind_eq_ok, reduceCtorEq, and_false, exists_false] at h
      · rename_i a u v s rest
        simp only [Except.bind_eq_ok, Except.pure_eq_ok, Except.failIf_eq_ok, not_lt] at h
        obtain ⟨_, ha, _, hu, _, hv, _, hs, _, hlast, _, hlen, rfl⟩ := h
        exact ⟨w, a, u, v, s, rest, rfl, ha, hu, hv, hs, hlast, hlen⟩
    · cases h
  · rintro ⟨w, a, u, v, s, rest, rfl, ha, hu, hv, hs, hlast, hlen⟩
    simp only [KdfContext.deserialize, KdfContext.deserializeElements, Except.bind_eq_ok,
      Except.pure_eq_ok, Except.failIf_eq_ok, not_lt]
    exact ⟨_, ha, _, hu, _, hv, _, hs, _, hlast, (), hlen, rfl⟩

end Cose2
