import Cose2.Message.Reencode
import Cose2.Message.SignEndToEnd

/-! # Encoding what was decoded, for every type

The slots of a `COSE_Sign` message are layers of their own, so they are kept like its body.
With it, all six types of messages are encoded again as they were decoded.
-/
namespace Cose2

open Cbor Cbor2 Iana Recipient

variable {c : Cbor2}

/-! ### Slots -/

namespace Signature

/-- The slot `s'` is `s`, up to the spelling of unprotected values. -/
structure Unchanged (s s' : Signature) : Prop where
  protectedRaw : s'.protectedRaw = s.protectedRaw
  protectedHeader : s'.protectedHeader = s.protectedHeader
  unprotectedHeader : SameHeader s.unprotectedHeader s'.unprotectedHeader
  signature : s'.signature = s.signature

/-- A slot is read from the items of an array, and has passed its checks. -/
structure ReadsFields (c : Cbor2) (tp tu tsignature : Tree) (s : Signature) : Prop where
  protectedRaw : c.byteBuf tp = .ok s.protectedRaw
  unprotectedHeader : Header.deserializeChecked c tu = .ok s.unprotectedHeader
  signature : c.byteBuf tsignature = .ok s.signature
  protectedHeader : decodeProtected c s.protectedRaw = .ok s.protectedHeader
  buckets : validateHeaderBuckets s.protectedHeader s.unprotectedHeader = .ok ()

/-- The item has the form of the slot. -/
def Spells (c : Cbor2) (t : Tree) (s : Signature) : Prop :=
  ∃ w tp tu tsignature, t = .array w [tp, tu, tsignature] ∧ ReadsFields c tp tu tsignature s

theorem spells_of_readWire {t : Tree} {w s : Signature} (hwire : readWire c t = .ok w)
    (hdecoded : decoded c w = .ok s) : Spells c t s := by
  unfold readWire at hwire
  split at hwire
  · simp only [Except.bind_eq_ok, Except.pure_eq_ok] at hwire
    obtain ⟨raw, hraw, u, hu, signature, hsignature, rfl⟩ := hwire
    simp only [decoded, Except.bind_eq_ok, Except.pure_eq_ok] at hdecoded
    obtain ⟨p, hp, _, hbuckets, rfl⟩ := hdecoded
    exact ⟨_, _, _, _, rfl, hraw, hu, hsignature, hp, hbuckets⟩
  · cases hwire

/-- The slots of a message are read one by one. -/
theorem spells_of_mapM {ts : List Tree} {ws ss : List Signature}
    (hwires : ts.mapM (readWire c) = .ok ws) (hdecoded : ws.mapM (decoded c) = .ok ss) :
    List.Forall₂ (Spells c) ts ss := by
  rw [Except.mapM_eq_ok] at hwires hdecoded
  induction hwires generalizing ss with
  | nil =>
    cases hdecoded
    exact .nil
  | cons hone _ ih =>
    obtain ⟨s, ss, hs, hss, rfl⟩ := List.forall₂_cons_left_iff.mp hdecoded
    exact .cons (spells_of_readWire hone hs) (ih hss)

/-- A slot that was read, and can be written in no more space. -/
structure Rewrites (c : Cbor2) (t : Tree) (s : Signature) : Prop where
  checked : s.LayerChecked c
  sound : s.Sound c
  reduced : CoseMap.Reduced s.protectedHeader
  defined : s.Defined
  decoded : decodeProtected c s.protectedRaw = .ok s.protectedHeader
  noLarger : s.value.norm.toTree.NoLarger t
  writable : s.value.Writable
  depth : s.value.toTree.depth ≤ t.depth

section Reading

variable (hread : c.ReadsItems) (hw : c.WritesValues) (hr : c.ReadsBack) (hc : c.ReadsValues)
  (hd : c.Describes) (htake : c.TakesByteStrings) (hrecursion : defaultMaxDepth < c.recursionLimit)
include hread hw hr hc hd htake hrecursion

theorem rewrites_of_spells {t : Tree} {s : Signature} (ht : Accepted c t)
    (hlength : t.bytes.length < sliceBound) (hshape : Strict.IsSignature t) (h : Spells c t s) :
    Rewrites c t s := by
  obtain ⟨w, tp, tu, tsignature, rfl, hfields⟩ := h
  obtain ⟨_, _, _, _, heq, hp, hu, hsignature⟩ := hshape
  cases heq
  have hchild {s : Tree} (hs : s ∈ [tp, tu, tsignature]) : Accepted c s := ht.child hs
  have hshort : tp.bytes.length < sliceBound :=
    (Tree.length_lt_of_mem (by simp [Tree.children])).trans hlength
  have hlayer := layerHeld hread hw hc hd hr.toEncodesCanonically htake hrecursion
    (hchild (by simp)) hshort (hchild (by simp)) hp hfields.protectedRaw
    hfields.unprotectedHeader hfields.protectedHeader hfields.buckets
  have hvalue := value_of_byteBuf htake hsignature hfields.signature
  refine ⟨hlayer.layer, hlayer.sound, hlayer.reduced, hlayer.defined, hlayer.decoded, ?_, ?_, ?_⟩
  · rw [norm_value]
    refine .array (.cons ?_ (.cons hlayer.unprotected.noLarger (.cons ?_ (.nil _))))
    · exact .str (Tree.length_lt_of_bytes hlayer.protectedRaw)
    · exact .str (Tree.length_lt_of_bytes hvalue)
  · rw [value, Value.writable_array, List.forall_mem_cons, List.forall_mem_cons,
      List.forall_mem_singleton]
    exact ⟨by simp, Tree.value_writable (hchild (by simp)).length hlayer.protectedRaw,
      hlayer.unprotected.writable, Tree.value_writable (hchild (by simp)).length hvalue⟩
  · refine Tree.depth_le_of_children ?_
    rw [Value.children_toTree, value, Value.children, List.forall_mem_map, List.forall_mem_cons,
      List.forall_mem_cons, List.forall_mem_singleton]
    exact ⟨⟨tp, by simp [Tree.children], Nat.zero_le _⟩,
      ⟨tu, by simp [Tree.children], hlayer.unprotected.depth⟩,
      ⟨tsignature, by simp [Tree.children], Nat.zero_le _⟩⟩

end Reading

/-- The slot that is read is the slot that was written from. -/
theorem ReadFrom.kept {t : Tree} {s s' : Signature} (h : ReadFrom c s s') (hs : Rewrites c t s) :
    s.Unchanged s' ∧
      LayerKept c s.protectedHeader s.unprotectedHeader s'.unprotectedHeader s.protectedRaw := by
  have hprotected := Except.ok.inj (h.layer.decoded.symm.trans hs.decoded)
  have hlayer := h.layer.layer
  rw [hprotected] at hlayer
  exact ⟨⟨h.same.protectedRaw, hprotected,
      h.same.unprotectedHeader.sameHeader hs.defined.unprotectedHeader, h.same.signature⟩,
    hs.checked, hlayer, hs.reduced, h.layer.unprotectedRead⟩

end Signature

/-! ### Messages with several signatures -/

namespace SignMessage

/-- The message `m'` is `m`, up to the spelling of unprotected values. -/
structure Unchanged (m m' : SignMessage) : Prop where
  protectedRaw : m'.protectedRaw = m.protectedRaw
  protectedHeader : m'.protectedHeader = m.protectedHeader
  unprotectedHeader : SameHeader m.unprotectedHeader m'.unprotectedHeader
  payload : m'.payload = m.payload
  signatures : List.Forall₂ Signature.Unchanged m.signatures m'.signatures

/-- No verification tells the messages apart. -/
structure Agree (c : Cbor2) (m m' : SignMessage) : Prop where
  verify : ∀ verifiers externalAad,
    m'.verify c verifiers externalAad = m.verify c verifiers externalAad
  verifyDetached : ∀ verifiers detachedPayload externalAad,
    m'.verifyDetached c verifiers detachedPayload externalAad =
      m.verifyDetached c verifiers detachedPayload externalAad

/-- The fields of a message are read from these items, and have passed their checks. -/
structure ReadsFields (c : Cbor2) (tp tu tpayload : Tree) (slots : List Tree) (m : SignMessage) :
    Prop where
  protectedRaw : c.byteBuf tp = .ok m.protectedRaw
  unprotectedHeader : Header.deserializeChecked c tu = .ok m.unprotectedHeader
  payload : c.optionByteBuf tpayload = .ok m.payload
  signatures : List.Forall₂ (Signature.Spells c) slots m.signatures
  protectedHeader : decodeProtected c m.protectedRaw = .ok m.protectedHeader
  buckets : validateHeaderBuckets m.protectedHeader m.unprotectedHeader = .ok ()
  state : m.state = .complete

theorem fromSlice_ok {data : Bytes} {m : SignMessage} (h : fromSlice c data = .ok m) :
    ∃ body w w' tp tu tpayload slots, Strict.messageBody c data 98 {} = .ok body ∧
      c.item body = .ok (.array w [tp, tu, tpayload, .array w' slots]) ∧
      ReadsFields c tp tu tpayload slots m := by
  simp only [fromSlice, Except.bind_eq_ok, Except.mapError_eq_ok, Except.pure_eq_ok] at h
  obtain ⟨body, hbody, wire, ⟨t, hitem, hwire⟩, _, -, p, hp, _, hbuckets, ss, hss, rfl⟩ := h
  unfold readWire at hwire
  split at hwire
  · simp only [Except.bind_eq_ok, Except.pure_eq_ok] at hwire
    obtain ⟨raw, hraw, u, hu, payload, hpayload, ws, hws, rfl⟩ := hwire
    exact ⟨body, _, _, _, _, _, _, hbody, hitem, hraw, hu, hpayload,
      Signature.spells_of_mapM hws hss, hp, hbuckets, rfl⟩
  · cases hwire

/-- A slot is verified as before in the message that is left unchanged. -/
theorem verifySlot_of_kept {m m' : SignMessage} (h : m.Unchanged m') {s s' : Signature}
    (hs : s.Unchanged s') (hkept : LayerKept c s.protectedHeader s.unprotectedHeader
      s'.unprotectedHeader s.protectedRaw) (verifiers : List Verifier)
    (payload externalAad : Bytes) :
    m'.verifySlot c verifiers payload externalAad s' =
      m.verifySlot c verifiers payload externalAad s := by
  have htry (structured : Bytes) (verifier : Verifier) :
      m'.tryVerifier c s' structured verifier = m.tryVerifier c s structured verifier := by
    rw [tryVerifier, tryVerifier, h.protectedHeader, hs.protectedHeader, hs.signature,
      hkept.checkProtectedAlg]
  have hall (structured : Bytes) (candidates : List Verifier) (last : Except Error Unit) :
      m'.tryVerifiers c s' structured candidates last =
        m.tryVerifiers c s structured candidates last := by
    induction candidates generalizing last with
    | nil => rfl
    | cons verifier candidates ih =>
      rw [tryVerifiers, tryVerifiers, htry]
      cases m.tryVerifier c s structured verifier with
      | ok _ => rfl
      | error e => exact ih (.error e)
  have hkid : s'.kid = s.kid := by
    show headerBytes s'.protectedHeader s'.unprotectedHeader headerParameterKid =
      headerBytes s.protectedHeader s.unprotectedHeader headerParameterKid
    rw [hs.protectedHeader, hkept.headerBytes (.inl rfl)]
  rw [verifySlot, verifySlot, h.protectedRaw, hs.protectedRaw, hs.protectedHeader, hkid,
    validateLayer_ok.mpr hkept.layer, validateLayer_ok.mpr hkept.layer']
  simp only [hall]

/-- The slots are left unchanged, and their layers with them. -/
def SlotsKept (c : Cbor2) (ss ss' : List Signature) : Prop :=
  List.Forall₂ (fun s s' => s.Unchanged s' ∧
    LayerKept c s.protectedHeader s.unprotectedHeader s'.unprotectedHeader s.protectedRaw) ss ss'

/-- A message that was decoded agrees with what is left unchanged of it. -/
theorem agree_of_kept {m m' : SignMessage} (h : m.Unchanged m') (hstate : m'.state = m.state)
    (hkept : LayerKept c m.protectedHeader m.unprotectedHeader m'.unprotectedHeader
      m.protectedRaw) (hslots : SlotsKept c m.signatures m'.signatures) : Agree c m m' := by
  have hpayload (verifiers : List Verifier) (payload externalAad : Bytes) :
      m'.verifyPayload c verifiers payload externalAad =
        m.verifyPayload c verifiers payload externalAad := by
    have hall : m'.signatures.forM (m'.verifySlot c verifiers payload externalAad) =
        m.signatures.forM (m.verifySlot c verifiers payload externalAad) :=
      Except.forM_congr hslots.flip fun s' s hs =>
        verifySlot_of_kept h hs.1 hs.2 verifiers payload externalAad
    rw [verifyPayload, verifyPayload, hstate, h.protectedRaw, h.protectedHeader, hall,
      forall₂_isEmpty h.signatures, validateLayer_ok.mpr hkept.layer,
      validateLayer_ok.mpr hkept.layer']
  constructor
  · intro verifiers externalAad
    rw [verify, verify, h.payload]
    simp only [hpayload]
  · intro verifiers detachedPayload externalAad
    rw [verifyDetached, verifyDetached, h.payload]
    simp only [hpayload]

/-- The encoders, with the number of tags that each writes. -/
def tagged (c : Cbor2) : List (Nat × (SignMessage → Except Error Bytes)) :=
  [(1, toVec c), (2, toCwtVec c), (0, toUntaggedVec c)]

/-- The same for messages with several signatures. -/
def Reencodes (c : Cbor2) : Prop :=
  ∀ data m, data.length < sliceBound → fromSlice c data = .ok m → ∀ e ∈ tagged c,
    ∃ b, e.2 m = .ok b ∧ (HasTags e.1 data → WithinDefaults b) ∧
      (WithinDefaults b → ∃ m', fromSlice c b = .ok m' ∧ m.Unchanged m' ∧ Agree c m m')

theorem encode_of_tagged {e : Nat × (SignMessage → Except Error Bytes)} (hmem : e ∈ tagged c) :
    ∃ tags ∈ writtenTags 98, tags.length = e.1 ∧ ∀ m, e.2 m = encode c m (tagBytes tags) := by
  rw [tagged, List.mem_cons, List.mem_cons, List.mem_singleton] at hmem
  rcases hmem with rfl | rfl | rfl
  · exact ⟨[98], by simp [writtenTags], rfl, fun m => rfl⟩
  · exact ⟨[61, 98], by simp [writtenTags], rfl, fun m => rfl⟩
  · exact ⟨[], by simp [writtenTags], rfl, fun m => rfl⟩

section Laws

variable (hread : c.ReadsItems) (hw : c.WritesValues) (hr : c.ReadsBack) (hc : c.ReadsValues)
  (hd : c.Describes) (ht : c.WritesTuples) (hb : c.ReadsByteStrings)
  (htake : c.TakesByteStrings) (hall : c.WritesEvery)
  (hrecursion : defaultMaxDepth < c.recursionLimit)

/-- The array of slots that were read is no larger. -/
theorem noLarger_slotsValue {w : Option Width} {ts : List Tree} {ss : List Signature}
    (h : List.Forall₂ (Signature.Rewrites c) ts ss) :
    (slotsValue ss).toTree.NoLarger (.array w ts) := by
  refine .array (.of_forall₂ ?_)
  rw [List.map_map, List.forall₂_map_left_iff]
  exact h.flip.imp fun s t hs => hs.noLarger

theorem admitted_slotsValue {w : Option Width} {ts : List Tree} {ss : List Signature}
    (ht : Accepted c (.array w ts)) (h : List.Forall₂ (Signature.Rewrites c) ts ss)
    (hwritable : (Value.array (ss.map Signature.value)).Writable) : Admitted (slotsValue ss) where
  regular := by
    refine ⟨norm_slotsValue ss, ?_, ?_⟩
    · rw [← norm_array_value]
      exact hwritable.norm
    · have hapart : (slotsValue ss).asRead.DuplicateFree := apart_slotsValue fun s hs => by
        obtain ⟨t, -, hone⟩ := Tree.forall₂_mem_right h hs
        exact hone.sound
      rwa [Value.asRead, norm_slotsValue] at hapart
  limits := ht.limits.of_noLarger (noLarger_slotsValue h)

include hread hw hr hc hd htake hrecursion in
theorem rewrites_of_slots {w : Option Width} {ts : List Tree} {ss : List Signature}
    (ht : Accepted c (.array w ts)) (hlength : (Tree.array w ts).bytes.length < sliceBound)
    (hshape : Strict.AreSignatures (.array w ts)) (h : List.Forall₂ (Signature.Spells c) ts ss) :
    List.Forall₂ (Signature.Rewrites c) ts ss ∧ ss ≠ [] ∧
      (Value.array (ss.map Signature.value)).Writable ∧
      (Value.array (ss.map Signature.value)).toTree.depth ≤ (Tree.array w ts).depth := by
  obtain ⟨_, _, heq, hne, hslot⟩ := hshape
  cases heq
  have hrewrites : List.Forall₂ (Signature.Rewrites c) ts ss := by
    refine ((List.forall₂_and_left _ _).mpr ⟨fun t hts => hts, h⟩).imp fun t s hs => ?_
    have hshort := (Tree.length_lt_of_mem (t := .array w ts) hs.1).trans hlength
    exact Signature.rewrites_of_spells hread hw hr hc hd htake hrecursion (ht.child hs.1) hshort
      (hslot t hs.1) hs.2
  refine ⟨hrewrites, ?_, ?_, ?_⟩
  · rintro rfl
    exact hne (List.forall₂_nil_right_iff.mp h)
  · rw [Value.writable_array, List.length_map, List.forall_mem_map, ← h.length_eq]
    refine ⟨Tree.children_length_lt.trans ht.length, fun s hs => ?_⟩
    obtain ⟨t, -, hone⟩ := Tree.forall₂_mem_right hrewrites hs
    exact hone.writable
  · refine Tree.depth_le_of_children ?_
    rw [Value.children_toTree, Value.children, List.map_map, List.forall_mem_map]
    intro s hs
    obtain ⟨t, ht, hone⟩ := Tree.forall₂_mem_right hrewrites hs
    exact ⟨t, ht, hone.depth⟩

include hread hw hr hc hd htake hall hrecursion in
/-- **What was decoded can be encoded.** -/
theorem encode_of_fromSlice {data : Bytes} {m : SignMessage} (hlength : data.length < sliceBound)
    (h : fromSlice c data = .ok m) :
    (∃ tp tu, LayerHeld c tp tu m.protectedHeader m.unprotectedHeader m.protectedRaw) ∧
      (∃ ts, List.Forall₂ (Signature.Rewrites c) ts m.signatures) ∧
      ∀ tags ∈ writtenTags 98, ∃ b, m.encode c (tagBytes tags) = .ok b ∧
        (HasTags tags.length data → WithinDefaults b) := by
  have htag : Strict.IsMessageTag (UInt64.toNat 98) := by unfold Strict.IsMessageTag; decide
  obtain ⟨body, w, w', tp, tu, tpayload, slots, hbody, hitem, hfields⟩ := fromSlice_ok h
  have hmessage := messageItem hread htag hlength hbody hitem
  obtain ⟨_, _, _, content, heq, hp, hu, hshape⟩ := hmessage.message
  cases heq
  obtain ⟨hpayload, hsignatures⟩ := hshape
  have hchild {s : Tree} (hs : s ∈ [tp, tu, tpayload, .array w' slots]) :
      Accepted c s ∧ s.bytes.length < sliceBound :=
    ⟨hmessage.accepted.child hs, (Tree.length_lt_of_mem hs).trans hmessage.length⟩
  obtain ⟨htp, hshort⟩ := hchild (s := tp) (by simp)
  obtain ⟨htu, -⟩ := hchild (s := tu) (by simp)
  obtain ⟨harray, hshorts⟩ := hchild (s := .array w' slots) (by simp)
  have hlayer := layerHeld hread hw hc hd hr.toEncodesCanonically htake hrecursion htp hshort htu hp
    hfields.protectedRaw hfields.unprotectedHeader hfields.protectedHeader hfields.buckets
  have hpayload := holdsBytes_of_optionByteBuf htake hpayload (hchild (by simp)).1.wellFormed
    hfields.payload
  obtain ⟨hslots, hne, hwritable, hdepth⟩ := rewrites_of_slots hread hw hr hc hd htake hrecursion
    harray hshorts hsignatures hfields.signatures
  have hchecked : ∀ s ∈ m.signatures, s.LayerChecked c := by
    intro s hs
    obtain ⟨t, -, hone⟩ := Tree.forall₂_mem_right hslots hs
    exact hone.checked
  have hadmitted := admitted_slotsValue harray hslots hwritable
  rw [← norm_array_value] at hadmitted
  have hraw := canonicalRaw_of_admitted hall hr.toEncodesCanonically hrecursion
    (mapM_serialize hchecked) hwritable
    (hdepth.trans_lt (harray.limits.depth.trans_lt hrecursion)) hadmitted
  rw [norm_array_value] at hraw
  have hspelled : List.Forall₂ Part.Spells
      [payloadPart m.payload, .raw (slotsValue m.signatures).encode]
      [serializedCiphertext m.payload, slotsValue m.signatures] :=
    .cons (payloadPart_spells m.payload) (.cons rfl .nil)
  refine ⟨⟨tp, tu, hlayer⟩, ⟨slots, hslots⟩, fun tags htags => ?_⟩
  obtain ⟨unprotected, b, hunprotected, hencoded, hwithin⟩ :=
    hlayer.encodes hw hall hrecursion htag hmessage hspelled
      (.cons hpayload.noLarger (.cons (noLarger_slotsValue hslots) (.nil _))) htags
  exact ⟨b, encode_ok.mpr ⟨hfields.state, hne, hlayer.layer, hchecked, unprotected, hunprotected, _,
    hraw, hencoded⟩, hwithin⟩

include hread hw hr hc hd ht hb htake hall hrecursion in
/-- **What was decoded is encoded, and decoded as what it was.** -/
theorem reencodes : Reencodes c := by
  intro data m hlength h e hmem
  obtain ⟨tags, htags, hcount, hwrite⟩ := encode_of_tagged hmem
  obtain ⟨⟨tp, tu, hlayer⟩, ⟨ts, hslots⟩, hencodes⟩ :=
    encode_of_fromSlice hread hw hr hc hd htake hall hrecursion hlength h
  obtain ⟨b, hencoded, hwithin⟩ := hencodes tags htags
  rw [hcount] at hwithin
  refine ⟨b, (hwrite m).trans hencoded, hwithin, fun hdata => ?_⟩
  have hsound : ∀ s ∈ m.signatures, s.Sound c := by
    intro s hs
    obtain ⟨t, -, hone⟩ := Tree.forall₂_mem_right hslots hs
    exact hone.sound
  obtain ⟨m', hslice, hsame, -, hlayer', hread'⟩ := decode_encode hread hw hr hc ht hb hrecursion
    htags hencoded hlayer.sound hsound hdata
  obtain ⟨hprotected, hkept⟩ := hlayer.kept hlayer'
  have hslots' : SlotsKept c m.signatures m'.signatures := by
    refine ((List.forall₂_and_left _ _).mpr ⟨fun s hs => hs, hread'⟩).imp fun s s' hs => ?_
    obtain ⟨t, -, hone⟩ := Tree.forall₂_mem_right hslots hs.1
    exact hs.2.kept hone
  have hunchanged : m.Unchanged m' := {
    protectedRaw := hsame.protectedRaw
    protectedHeader := hprotected
    unprotectedHeader := hsame.unprotectedHeader.sameHeader hlayer.defined.unprotectedHeader
    payload := hsame.payload
    signatures := hslots'.imp fun _ _ hs => hs.1 }
  have hstate := (encode_ok.mp hencoded).1
  exact ⟨m', hslice, hunchanged,
    agree_of_kept hunchanged (hsame.state.trans hstate.symm) hkept hslots'⟩

end Laws
end SignMessage

/-! ### All types -/

/-- What the strict parser has checked behind the headers of a signed or authenticated message
without recipients. -/
theorem content_of_isContent {n : UInt64} (hn : n = 17 ∨ n = 18) {payload result : Tree}
    {rest : List Tree}
    (h : Strict.IsContent Strict.TakenForNull n.toNat (payload :: result :: rest)) :
    Strict.IsBytesOrNull Strict.TakenForNull payload ∧ Strict.IsBytes result := by
  rcases hn with rfl | rfl
  all_goals
    cases rest with
    | nil => exact h
    | cons => exact h.elim

section Types

variable (hread : c.ReadsItems) (hw : c.WritesValues) (hr : c.ReadsBack) (hc : c.ReadsValues)
  (hd : c.Describes) (hcap : c.CapturesRaw) (ht : c.WritesTuples) (hb : c.ReadsByteStrings)
  (htake : c.TakesByteStrings) (hall : c.WritesEvery)
  (hrecursion : defaultMaxDepth < c.recursionLimit)
include hread hw hr hc hd hcap ht hb htake hall hrecursion

/-- **What was decoded is encoded and decoded as what it was, for all six types.** -/
theorem reencodesWhatWasDecoded :
    sign1.Reencodes c (fun _ _ => True) ∧ mac0.Reencodes c (fun _ _ => True) ∧
      (mac c).Reencodes c (List.Forall₂ Recipient.Unchanged) ∧
      encrypt0.Reencodes c (fun _ _ => True) ∧
      (encrypt c).Reencodes c (List.Forall₂ Recipient.Unchanged) ∧ SignMessage.Reencodes c := by
  refine ⟨?_, ?_, ?_, ?_, ?_, ?_⟩
  · exact AuthType.reencodes hread hw hr hc hd ht hb htake hall hrecursion onWire_sign1
      (content_of_isContent (.inr rfl)) noTail (noTail_rewrites c)
  · exact AuthType.reencodes hread hw hr hc hd ht hb htake hall hrecursion onWire_mac0
      (content_of_isContent (.inl rfl)) noTail (noTail_rewrites c)
  · refine AuthType.reencodes hread hw hr hc hd ht hb htake hall hrecursion (onWire_mac c) ?_
      (recipientTail hread hw hr hc hd hcap ht hrecursion _)
      (recipientTail_rewrites hread hw hc hd hcap hr.toEncodesCanonically hall hrecursion _)
    intro payload result rest h
    match rest, h with
    | [recipients], h => exact ⟨h.1, h.2.1⟩
  · refine EncType.reencodes hread hw hr hc hd ht hb htake hall hrecursion onWire_encrypt0 ?_
      noTail (noTail_rewrites c)
    intro ciphertext rest h
    match rest, h with
    | [], h => exact h
  · refine EncType.reencodes hread hw hr hc hd ht hb htake hall hrecursion (onWire_encrypt c) ?_
      (recipientTail hread hw hr hc hd hcap ht hrecursion _)
      (recipientTail_rewrites hread hw hc hd hcap hr.toEncodesCanonically hall hrecursion _)
    intro ciphertext rest h
    match rest, h with
    | [recipients], h => exact h.1
  · exact SignMessage.reencodes hread hw hr hc hd ht hb htake hall hrecursion

end Types

/-- The header `{"a": 5}`. -/
def five : Header := BTreeMap.ofList [(.text "a", .integer ⟨5, by decide, by decide⟩)]

/-- A bare `COSE_Sign1` with a long head, and a bignum in an unprotected map of indefinite
length: it is read as the integer 5, and written as that. -/
theorem reencodesWhatWasDecoded_bignum : ∃ m m',
    sign1.fromSlice Cbor2.reference
      [0x98, 0x04, 0x40, 0xbf, 0x61, 0x61, 0xc2, 0x41, 0x05, 0xff, 0xf6, 0x40] = .ok m ∧
    sign1.toUntaggedVec Cbor2.reference m =
      .ok [0x84, 0x40, 0xa1, 0x61, 0x61, 0x05, 0xf6, 0x40] ∧
    sign1.fromSlice Cbor2.reference [0x84, 0x40, 0xa1, 0x61, 0x61, 0x05, 0xf6, 0x40] = .ok m' ∧
    m.Unchanged (fun _ _ => True) m' ∧ sign1.Agree Cbor2.reference m m' := by
  obtain ⟨hsign1, -⟩ := reencodesWhatWasDecoded Cbor2.reference_readsItems
    Cbor2.reference_writesValues Cbor2.reference_readsBack Cbor2.reference_readsValues
    Cbor2.reference_describes Cbor2.reference_capturesRaw Cbor2.reference_writesTuples
    Cbor2.reference_readsByteStrings Cbor2.reference_takesByteStrings Cbor2.reference_writesEvery
    (by decide)
  have hread : sign1.fromSlice Cbor2.reference
      [0x98, 0x04, 0x40, 0xbf, 0x61, 0x61, 0xc2, 0x41, 0x05, 0xff, 0xf6, 0x40] =
        .ok { unprotectedHeader := five
              recipients := (), state := .complete } := rfl
  obtain ⟨b, hwrite, -, hback⟩ := hsign1 _ _ (by decide) hread
    (0, sign1.toUntaggedVec Cbor2.reference) (by simp [AuthType.tagged])
  have hb : sign1.toUntaggedVec Cbor2.reference
      { unprotectedHeader := five
        recipients := (), state := .complete } =
      .ok [0x84, 0x40, 0xa1, 0x61, 0x61, 0x05, 0xf6, 0x40] := rfl
  cases hb.symm.trans hwrite
  obtain ⟨m', hslice, hunchanged, hagree⟩ :=
    hback (withinDefaults_of_root (c := Cbor2.reference) (by decide) rfl)
  exact ⟨_, m', hread, hb, hslice, hunchanged, hagree⟩

/-- A bare `COSE_Sign1` with a value that is nested as deep as the decoder goes. -/
def deeplyNested : Bytes :=
  [0x84, 0x40, 0xa1, 0x61, 0x61] ++ List.replicate 126 0x81 ++ [0xf6, 0xf6, 0x40]

set_option maxRecDepth 10000 in
/-- `to_vec` puts it under a tag, where it is nested too deep for the decoder. -/
theorem not_reencodesWhatWasDecoded :
    ¬ ∀ data m, sign1.fromSlice Cbor2.reference data = .ok m →
      ∃ b m', sign1.toVec Cbor2.reference m = .ok b ∧
        sign1.fromSlice Cbor2.reference b = .ok m' := by
  intro h
  have hwritten : (sign1.fromSlice Cbor2.reference deeplyNested >>=
      sign1.toVec Cbor2.reference).toOption = some (0xd2 :: deeplyNested) := by decide +kernel
  have hrefused : (sign1.fromSlice Cbor2.reference (0xd2 :: deeplyNested)).isOk = false := by
    decide +kernel
  cases hread : sign1.fromSlice Cbor2.reference deeplyNested with
  | error e =>
    rw [hread] at hwritten
    cases hwritten
  | ok m =>
    obtain ⟨b, m', hb, hback⟩ := h _ _ hread
    rw [hread, Except.ok_bind, hb] at hwritten
    obtain rfl : b = 0xd2 :: deeplyNested := Option.some.inj hwritten
    rw [hback] at hrefused
    cases hrefused

end Cose2
