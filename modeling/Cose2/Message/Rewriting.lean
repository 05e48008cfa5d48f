import Cose2.Message.RecipientReencode
import Cose2.Message.RoundTrip

/-! # Writing what was read

A message that was read has a body whose layers and recipients were read from accepted items.
Each of its parts is written in no more space than its item has, so the whole message can be
written, and stays within the limits unless more tags are put in front of it.
-/
namespace Cose2

open Cbor Cbor2 Recipient

/-! ### The encoder -/

/-- `to_vec` and `serialized_size` do not fail for a tuple whose parts can be written, nor
`RawValue::new` for an encoding, when it is not nested too deep. -/
structure Cbor2.WritesEvery (c : Cbor2) : Prop where
  tuple : ∀ {parts vs}, List.Forall₂ Part.Spells parts vs → (Value.array vs).Writable →
    (Value.array vs).toTree.depth < c.recursionLimit → c.writeTuple parts = .ok (tupleBytes parts)
  size : ∀ {parts vs}, List.Forall₂ Part.Spells parts vs → (Value.array vs).Writable →
    (Value.array vs).toTree.depth < c.recursionLimit →
      c.serializedSize parts = .ok (tupleBytes parts).length
  raw : ∀ {v : Value}, v.Regular → v.toTree.depth < c.recursionLimit →
    c.newRawValue v.encode = .ok v.encode

theorem Cbor2.reference_writesEvery : Cbor2.reference.WritesEvery where
  tuple _ _ _ := rfl
  size _ _ _ := rfl
  raw hregular hdepth := by
    show (readAll 256 _).map _ = _
    have hread : readAll 256 _ = .ok _ := Cbor2.reference_readsBack.item hregular hdepth
    rw [hread]
    rfl

section Writing

variable {c : Cbor2} (hall : c.WritesEvery)
include hall

/-- A tuple is written behind its tags when both fit in memory. -/
theorem encodePrefixed_of_spells {tags : List UInt64} {parts : List Part} {vs : List Value}
    (hparts : List.Forall₂ Part.Spells parts vs) (hwritable : (Value.array vs).Writable)
    (hdepth : (Value.array vs).toTree.depth < c.recursionLimit)
    (hsize : (tagBytes tags).length + (Value.array vs).encode.length < usizeBound) :
    encodePrefixed c (tagBytes tags) parts = .ok (withTags tags (.array vs)).encode := by
  have htuple := tupleBytes_eq hparts
  rw [encodePrefixed, hall.size hparts hwritable hdepth, hall.tuple hparts hwritable hdepth,
    htuple, encode_withTags]
  simp only [Except.mapError, Except.ok_bind]
  rw [Except.seq_eq_ok, Except.seq_eq_ok, Except.failIf_eq_ok, Except.failIf_eq_ok]
  exact ⟨by omega, by omega, rfl⟩

/-- A header is written when its values are. -/
theorem headerRaw_of_admitted (hw : c.WritesValues)
    (hrecursion : defaultMaxDepth < c.recursionLimit) {u : Header}
    (hvalid : u.validateCommon = .ok ()) (hencodable : Encodable c u)
    (h : Admitted u.toValue.norm) : headerRaw c u = .ok u.toValue.norm.encode := by
  obtain ⟨b, hb⟩ := CoseMap.toVec_of_values hw hencodable
  obtain ⟨rfl, -⟩ := (CoseMap.toVec_deterministic hw u).2 b hb
  rw [headerRaw, Except.bind_eq_ok]
  refine ⟨u.toValue.canonical, Except.seq_eq_ok.mpr ⟨hvalid, hb⟩, ?_⟩
  rw [Except.mapError_eq_ok, Value.canonical]
  exact hall.raw h.regular (h.limits.depth.trans_lt hrecursion)

/-- The layers inside a message are written when the array of their values is admitted. -/
theorem canonicalRaw_of_admitted (he : c.EncodesCanonically)
    (hrecursion : defaultMaxDepth < c.recursionLimit) {values : Except String (List Value)}
    {vs : List Value} (hvalues : values = .ok vs) (hwritable : (Value.array vs).Writable)
    (hdepth : (Value.array vs).toTree.depth < c.recursionLimit)
    (h : Admitted (Value.array vs).norm) :
    canonicalRaw c (.array <$> values) = .ok (Value.array vs).norm.encode := by
  subst hvalues
  have hdistinct := Value.duplicateFree_norm.mp h.regular.duplicateFree
  rw [canonicalRaw, Except.bind_eq_ok]
  refine ⟨(Value.array vs).canonical,
    Except.mapError_eq_ok.mpr (he.canonical hwritable hdistinct hdepth), ?_⟩
  rw [Except.mapError_eq_ok, Value.canonical]
  exact hall.raw h.regular (h.limits.depth.trans_lt hrecursion)

end Writing

/-! ### Tags -/

/-- The input has so many tags, or more, around its content. -/
def HasTags (n : Nat) (data : Bytes) : Prop :=
  ∃ t : Tree, t.bytes = data ∧ t.Fits ∧ n ≤ t.tags

theorem depth_withTags (tags : List UInt64) (v : Value) :
    (withTags tags v).toTree.depth = v.toTree.depth + tags.length := by
  induction tags with
  | nil => rfl
  | cons n tags ih =>
    show (withTags tags v).toTree.depth + 1 = _
    rw [ih, List.length_cons, Nat.add_assoc]

theorem writable_withTags (tags : List UInt64) {v : Value} (h : v.Writable) :
    (withTags tags v).Writable := by
  induction tags with
  | nil => exact h
  | cons n tags ih => exact Value.writable_tag.mpr ih

theorem count_withTags (tags : List UInt64) (v : Value) :
    (withTags tags v).toTree.count = v.toTree.count + tags.length := by
  induction tags with
  | nil => rfl
  | cons n tags ih =>
    show (withTags tags v).toTree.count + 1 = _
    rw [ih, List.length_cons, Nat.add_assoc]

/-- What is inside the tags of an array is smaller by as many levels and items. -/
theorem Strict.Wrapped.tags {tag : Nat} {w : Option Width} {items : List Tree} {t : Tree}
    (h : Strict.Wrapped tag (.array w items) t) :
    t.depth = (Tree.array w items).depth + t.tags ∧
      t.count = (Tree.array w items).count + t.tags := by
  cases h with
  | plain h => cases h <;> exact ⟨rfl, rfl⟩
  | selfDescribed w h => cases h <;> exact ⟨rfl, rfl⟩

theorem tagBytes_length_le {n : UInt64} (htag : Strict.IsMessageTag n.toNat) {tags : List UInt64}
    (h : tags ∈ writtenTags n) : (tagBytes tags).length ≤ 4 := by
  obtain ⟨m, hm, rfl⟩ : ∃ m ∈ [16, 17, 18, 96, 97, 98], n = m := by
    simp only [Strict.IsMessageTag, ← UInt64.toNat_inj] at htag ⊢
    simpa using htag
  revert tags
  rw [List.mem_cons, List.mem_cons, List.mem_cons, List.mem_cons, List.mem_cons,
    List.mem_singleton] at hm
  rcases hm with rfl | rfl | rfl | rfl | rfl | rfl <;> decide

/-! ### Layers -/

/-- A header that was read is admitted when it is written. -/
theorem CoseMap.HeldBy.admitted {c : Cbor2} {m : CoseMap} {t : Tree} (h : m.HeldBy t)
    (ht : Accepted c t) : Admitted m.toValue.norm where
  regular := Value.regular_norm h.writable.norm (CoseMap.apart_toValue h.apart)
  limits := ht.limits.of_noLarger h.noLarger

/-- A layer that was read from the items `tp` and `tu`. -/
structure LayerHeld (c : Cbor2) (tp tu : Tree) (p u : Header) (raw : Bytes) : Prop where
  protectedRaw : tp.value = some (.bytes raw)
  unprotected : CoseMap.HeldBy u tu
  encodable : Encodable c u
  decoded : decodeProtected c raw = .ok p
  reduced : CoseMap.Reduced p
  sound : SoundLayer c p u raw
  layer : LayerOk c p u raw

/-- There is no undefined in a layer that was read. -/
theorem LayerHeld.defined {c : Cbor2} {tp tu : Tree} {p u : Header} {raw : Bytes}
    (h : LayerHeld c tp tu p u raw) : LayerDefined p u :=
  ⟨h.reduced.defined, h.unprotected.reduced.defined⟩

section Reading

variable {c : Cbor2} (hread : c.ReadsItems) (hw : c.WritesValues) (hc : c.ReadsValues)
  (hd : c.Describes) (he : c.EncodesCanonically) (htake : c.TakesByteStrings)
  (hall : c.WritesEvery) (hrecursion : defaultMaxDepth < c.recursionLimit)

include hread hw hc hd he htake hrecursion in
theorem layerHeld {tp tu : Tree} {p u : Header} {raw : Bytes} (hp : Accepted c tp)
    (hlength : tp.bytes.length < sliceBound) (hu : Accepted c tu) (hbytes : Strict.IsBytes tp)
    (hraw : c.byteBuf tp = .ok raw) (hmap : Header.deserializeChecked c tu = .ok u)
    (hdecoded : decodeProtected c raw = .ok p) (hbuckets : validateHeaderBuckets p u = .ok ()) :
    LayerHeld c tp tu p u raw := by
  obtain ⟨hmap, -⟩ := Header.deserializeChecked_eq_ok.mp hmap
  have hvalue := value_of_byteBuf htake hbytes hraw
  have hheld := CoseMap.heldBy_of_deserializeChecked hread hw hc hd hu hmap
  have hsize := (Tree.length_lt_of_bytes hvalue).trans hp.length
  exact {
    protectedRaw := hvalue
    unprotected := hheld
    encodable := encodable_of_deserializeChecked hread hw hc he hrecursion hu hmap
    decoded := hdecoded
    reduced := reduced_of_decodeProtected hread hw hc hsize hdecoded
    sound := soundLayer_of_decodeProtected hread hw hc hd
      ((Tree.length_lt_of_bytes hvalue).trans hlength) hdecoded hheld.apart
    layer := ⟨validateHeaderBuckets_ok.mp hbuckets,
      denotes_of_decodeProtected hread hw hc he hrecursion hsize hdecoded⟩ }

include hw hall hrecursion in
/-- The unprotected header of a layer that was read is written. -/
theorem LayerHeld.headerRaw_ok {tp tu : Tree} {p u : Header} {raw : Bytes}
    (h : LayerHeld c tp tu p u raw) (hu : Accepted c tu) :
    headerRaw c u = .ok u.toValue.norm.encode :=
  headerRaw_of_admitted hall hw hrecursion h.layer.buckets.unprotectedOk h.encodable
    (h.unprotected.admitted hu)

/-! ### The body of a message -/

/-- The item of a message, inside the tags of the input. -/
structure MessageItem (c : Cbor2) (tag : Nat) (data : Bytes) (t : Tree) : Prop where
  accepted : Accepted c t
  length : t.bytes.length < sliceBound
  message : Strict.IsMessage Strict.TakenForNull tag t
  wrapped : ∃ s : Tree, s.bytes = data ∧ s.Fits ∧ Strict.WithinLimits {} s ∧
    Strict.Wrapped tag t s

include hread in
theorem messageItem {tag : Nat} {data body : Bytes} {t : Tree} (htag : Strict.IsMessageTag tag)
    (hlength : data.length < sliceBound) (hbody : Strict.messageBody c data tag {} = .ok body)
    (hitem : c.item body = .ok t) : MessageItem c tag data t := by
  obtain ⟨it, hroot, -⟩ := Except.bind_eq_ok.mp hbody
  obtain ⟨s, rfl, hfits, hlimits, hkeys, rfl⟩ := (Strict.rootWithDuplicatePolicy_ok c).mp hroot
  obtain ⟨message, hwrapped, hmessage, hbytes⟩ :=
    (Strict.messageBody_iff c hroot rfl htag body).mp hbody
  obtain ⟨hwf, hbytes'⟩ := hread.sound hitem
  have hoccurs := hwrapped.occurs
  have hsound : message.Fits := Tree.All.of_occurs hfits hoccurs
  obtain rfl : message = t := bytes_inj hsound hwf.fits (hbytes.symm.trans hbytes')
  obtain ⟨pre, hpre⟩ := hwrapped.suffix
  rw [hpre, List.length_append] at hlength
  have hshort : message.bytes.length < sliceBound := (Nat.le_add_left _ _).trans_lt hlength
  exact {
    accepted := ⟨hwf, hlimits.of_occurs hoccurs, (hkeys rfl).of_occurs hoccurs,
      hshort.trans (by decide)⟩
    length := hshort
    message := hmessage
    wrapped := ⟨s, rfl, hfits, hlimits, hwrapped⟩ }

end Reading

/-- A body that is no larger than the item is within the limits, behind no more tags. -/
theorem MessageItem.withinDefaults {c : Cbor2} {n : UInt64} {data : Bytes} {t : Tree}
    (h : MessageItem c n.toNat data t) (htag : Strict.IsMessageTag n.toNat) {tags : List UInt64}
    (htags : tags ∈ writtenTags n) {vs : List Value} (hwritable : (Value.array vs).Writable)
    (hle : (Value.array vs).toTree.NoLarger t) (hdata : HasTags tags.length data) :
    WithinDefaults (withTags tags (.array vs)).encode := by
  obtain ⟨s, rfl, hfits, hlimits, hwrapped⟩ := h.wrapped
  obtain ⟨s', hbytes, hfits', hmany⟩ := hdata
  obtain rfl := bytes_inj hfits' hfits hbytes
  obtain ⟨w, items, rfl⟩ := Strict.kindOf_eq_array.mp h.message.kind
  obtain ⟨hdepth, hcount⟩ := hwrapped.tags
  refine ⟨?_, (withTags tags (.array vs)).toTree, rfl, writable_withTags tags hwritable, ?_, ?_,
    by rintro ⟨⟩⟩
  · have hlength := hle.length
    have hroom := h.accepted.room_lt h.length
    have hprefix := tagBytes_length_le htag htags
    rw [encode_withTags, List.length_append]
    rw [← Value.encode] at hlength
    omega
  · have hle := hle.depth
    have hlimit := hlimits.depth
    rw [depth_withTags]
    omega
  · have hle := hle.count
    have hlimit := hlimits.items
    rw [count_withTags]
    omega

section Body

variable {c : Cbor2} (hw : c.WritesValues) (hall : c.WritesEvery)
  (hrecursion : defaultMaxDepth < c.recursionLimit)
include hw hall hrecursion

/-- **A body that was read is written**, and within the limits behind no more tags. -/
theorem LayerHeld.encodes {n : UInt64} {data : Bytes} {w : Option Width} {tp tu : Tree}
    {ts : List Tree} {p u : Header} {raw : Bytes} {parts : List Part} {content : List Value}
    (h : LayerHeld c tp tu p u raw) (htag : Strict.IsMessageTag n.toNat)
    (hitem : MessageItem c n.toNat data (.array w (tp :: tu :: ts)))
    (hparts : List.Forall₂ Part.Spells parts content)
    (hle : Tree.NoLargerAll (content.map Value.toTree) ts) {tags : List UInt64}
    (htags : tags ∈ writtenTags n) :
    ∃ unprotected b, headerRaw c u = .ok unprotected ∧
      encodePrefixed c (tagBytes tags)
        (.value (.bytes raw) :: .raw unprotected :: parts) = .ok b ∧
      (HasTags tags.length data → WithinDefaults b) := by
  have hbody : (bodyValue raw u content).toTree.NoLarger (.array w (tp :: tu :: ts)) := by
    refine .array (.cons ?_ (.cons h.unprotected.noLarger hle))
    exact .str (Tree.length_lt_of_bytes h.protectedRaw)
  have hlength := hbody.length
  have hroom := hitem.accepted.room_lt hitem.length
  have hprefix := tagBytes_length_le htag htags
  rw [← Value.encode] at hlength
  have hsize : (bodyValue raw u content).encode.length < usizeBound := by omega
  have hwritable : (bodyValue raw u content).Writable :=
    Tree.value_writable hsize (Value.value_toTree _)
  have hu : Accepted c tu := hitem.accepted.child (by simp [Tree.children])
  refine ⟨_, _, h.headerRaw_ok hw hall hrecursion hu, ?_,
    hitem.withinDefaults htag htags hwritable hbody⟩
  have hdepth := hbody.depth.trans_lt (hitem.accepted.limits.depth.trans_lt hrecursion)
  refine encodePrefixed_of_spells hall (.cons rfl (.cons rfl hparts)) hwritable hdepth ?_
  rw [← bodyValue]
  omega

end Body

/-! ### The last elements of a message -/

/-- The recipients of a type of messages: those that were read and checked are checked and
written in no more space, and what is read from there is what was read before. -/
structure TailRewrites (c : Cbor2) {ρ : Type} (validate validateDecoded : ρ → Except Error Unit)
    (write : ρ → Except Error (List Part)) (read : List Tree → Except String ρ)
    (sound defined : ρ → Prop) (same unchanged : ρ → ρ → Prop) : Prop where
  written : ∀ {ts rs}, (∀ t ∈ ts, Accepted c t ∧ t.bytes.length < sliceBound) →
    read ts = .ok rs → validateDecoded rs = .ok () →
      validate rs = .ok () ∧ sound rs ∧ defined rs ∧
        ∃ parts vs, write rs = .ok parts ∧ List.Forall₂ Part.Spells parts vs ∧
          Tree.NoLargerAll (vs.map Value.toTree) ts
  kept : ∀ {ts ts' rs rs'}, read ts = .ok rs → read ts' = .ok rs' → defined rs → same rs rs' →
    unchanged rs rs'

theorem noTail_rewrites (c : Cbor2) : TailRewrites c (fun _ : Unit => .ok ()) (fun _ => .ok ())
    (fun _ => .ok []) readNoRecipients (fun _ => True) (fun _ => True) (fun _ _ => True)
    (fun _ _ => True) where
  written _ _ _ := ⟨rfl, trivial, trivial, [], [], rfl, .nil, .nil _⟩
  kept _ _ _ _ := trivial

/-- The recipient `r'` is `r`, up to the spelling of its unprotected values. -/
inductive Recipient.Unchanged : Recipient → Recipient → Prop
  | mk {r r' : Recipient}
      (hraw : r'.protectedRaw = r.protectedRaw)
      (hprotected : r'.protectedHeader = r.protectedHeader)
      (hunprotected : SameHeader r.unprotectedHeader r'.unprotectedHeader)
      (hciphertext : r'.ciphertext = r.ciphertext)
      (hnested : List.Forall₂ Unchanged r.recipients r'.recipients) : Unchanged r r'

section Recipients

variable {c : Cbor2}

/-- A recipient that was read keeps the bytes that its protected header was read from. -/
theorem Recipient.layer_of_spells {r : Recipient} {t : Tree} (h : Spells c t r) :
    (∃ raw, r.protectedRaw = some raw ∧ decodeProtected c raw = .ok r.protectedHeader) ∧
      ∃ items, List.Forall₂ (Spells c) items r.recipients := by
  cases h with
  | flat hfields => exact ⟨⟨_, rfl, hfields.protectedHeader⟩, [], .nil⟩
  | nested hfields hne hall => exact ⟨⟨_, rfl, hfields.protectedHeader⟩, _, hall⟩

/-- Recipients that were both read, and hold the same tree, are unchanged. -/
theorem Recipient.unchanged_of_spells (r : Recipient) {r' : Recipient} {t t' : Tree}
    (h : Spells c t r) (h' : Spells c t' r') (hsame : SameTree c SameHeader r r') :
    Unchanged r r' := by
  induction r using induction generalizing r' t t' with
  | h r ih =>
    obtain ⟨⟨raw, hraw, hdecoded⟩, items, hall⟩ := layer_of_spells h
    obtain ⟨⟨raw', hraw', hdecoded'⟩, items', hall'⟩ := layer_of_spells h'
    cases hsame with
    | mk hwritten hstored hprotected hunprotected hciphertext hnested =>
      rw [hraw, serializedProtected, Except.seq_eq_ok, Except.pure_eq_ok] at hwritten
      obtain ⟨-, rfl⟩ := hwritten
      obtain rfl := Option.some.inj (hraw'.symm.trans hstored)
      refine .mk (hraw'.trans hraw.symm) (Except.ok.inj (hdecoded'.symm.trans hdecoded))
        hunprotected hciphertext ?_
      rw [List.forall₂_iff_get] at hnested ⊢
      refine ⟨hnested.1, fun i hi hi' => ?_⟩
      obtain ⟨s, -, hone⟩ := Tree.forall₂_mem_right hall (List.getElem_mem hi)
      obtain ⟨s', -, hone'⟩ := Tree.forall₂_mem_right hall' (List.getElem_mem hi')
      exact ih _ (List.getElem_mem hi) hone hone' (hnested.2 i hi hi')

theorem readRecipientList_ok {ts : List Tree} {rs : List Recipient} :
    readRecipientList c ts = .ok rs ↔
      ∃ w items, ts = [.array w items] ∧ deserializeAll c items = .ok rs := by
  constructor
  · intro h
    unfold readRecipientList at h
    split at h
    · exact ⟨_, _, rfl, h⟩
    · cases h
  · rintro ⟨w, items, rfl, h⟩
    exact h

/-- The array of recipients that are written again is admitted. -/
theorem Recipient.WrittenAgain.admitted {w : Option Width} {ts : List Tree} {rs : List Recipient}
    {vs : List Value} (h : WrittenAgain c ts rs vs) (ht : Accepted c (.array w ts))
    (hlength : vs.length < usizeBound) (hsound : AllSound c rs) :
    Admitted (Value.array vs).norm where
  regular := by
    refine Value.regular_norm (Value.writable_array.mpr ⟨hlength, h.writable⟩).norm ?_
    refine Value.duplicateFree_asRead_array fun v hv => ?_
    obtain ⟨r, hr, hwritten⟩ := Tree.forall₂_mem_right (serializeAll_ok.mp h.written) hv
    obtain ⟨hone, hbelow⟩ := allSound_iff.mp hsound r hr
    exact apart_of_serialize hwritten hone hbelow
  limits := by
    refine ht.limits.of_noLarger ?_
    rw [Value.norm, Value.normItems_eq]
    refine .array ?_
    rw [List.map_map]
    exact h.noLarger

variable (hread : c.ReadsItems) (hw : c.WritesValues) (hc : c.ReadsValues) (hd : c.Describes)
  (hcap : c.CapturesRaw) (he : c.EncodesCanonically) (hall : c.WritesEvery)
  (hrecursion : defaultMaxDepth < c.recursionLimit)
include hread hw hc hd hcap he hall hrecursion

theorem recipientTail_rewrites (name : String) :
    TailRewrites c (validateMessageRecipients c · name) (validateDecodedRecipients · name)
      (writeRecipientList c) (readRecipientList c) (AllSound c) AllDefined
      (List.Forall₂ (SameTree c HeaderRead)) (List.Forall₂ Unchanged) where
  written := by
    intro ts rs haccepted hrs hdecoded
    obtain ⟨w, items, rfl, hitems⟩ := readRecipientList_ok.mp hrs
    obtain ⟨ht, hshort⟩ := haccepted _ (List.mem_singleton_self _)
    obtain ⟨hspells, hvalid⟩ := deserializeAll_ok.mp hitems
    obtain ⟨⟨vs, hvs, hlength⟩, hsound, hdefined⟩ :=
      rewrites_all hread hw hc hd hcap he hrecursion ht hshort hitems
    have hwritable : (Value.array vs).Writable := Value.writable_array.mpr ⟨hlength, hvs.writable⟩
    have hadmitted := hvs.admitted ht hlength hsound
    have hdepth := (hvs.depth_le (w := w)).trans_lt (ht.limits.depth.trans_lt hrecursion)
    refine ⟨validateMessageRecipients_ok.mpr
        ⟨⟨hvalid, hdecoded⟩, nestedWithin_of_spells ht hspells⟩, hsound, hdefined,
      [.raw (Value.array vs).norm.encode], [(Value.array vs).norm], ?_, .cons rfl .nil, ?_⟩
    · refine Except.bind_eq_ok.mpr ⟨_, ?_, rfl⟩
      exact canonicalRaw_of_admitted hall he hrecursion hvs.written hwritable hdepth hadmitted
    · refine .cons ?_ (.nil _)
      rw [Value.norm, Value.normItems_eq]
      refine .array ?_
      rw [List.map_map]
      exact hvs.noLarger
  kept := by
    intro ts ts' rs rs' hrs hrs' hdefined hread
    obtain ⟨w, items, rfl, hitems⟩ := readRecipientList_ok.mp hrs
    obtain ⟨w', items', rfl, hitems'⟩ := readRecipientList_ok.mp hrs'
    have hspells := (deserializeAll_ok.mp hitems).1
    have hspells' := (deserializeAll_ok.mp hitems').1
    have hsame := sameTrees_of_defined hdefined hread
    rw [List.forall₂_iff_get] at hsame ⊢
    refine ⟨hsame.1, fun i hi hi' => ?_⟩
    obtain ⟨t, -, hone⟩ := Tree.forall₂_mem_right hspells (List.getElem_mem hi)
    obtain ⟨t', -, hone'⟩ := Tree.forall₂_mem_right hspells' (List.getElem_mem hi')
    exact unchanged_of_spells _ hone hone' (hsame.2 i hi hi')

end Recipients

end Cose2
