import Cose2.Message.EndToEnd
import Cose2.Message.SignRoundTrip

/-! # From creation to verification, for every type

A signer prepares its slot with nothing but its algorithm and its key id, and every slot is
verified by a verifier that goes with its signer.
-/
namespace Cose2

open Cbor Cbor2 Iana Forest

variable {c : Cbor2}

/-! ### Slots -/

/-- The verifier goes with the signer: the same algorithm, a key id that is not another, and
it accepts what the signer signs. -/
structure Signer.Pair (signer : Signer) (verifier : Verifier) : Prop where
  alg : verifier.alg = signer.alg
  kid : KidMatches signer.kid verifier.kid
  accepting : Accepting signer.sign verifier.verify

namespace Signature

/-- The slot was signed by the signer, in a message with the protected bytes `bodyRaw`. -/
structure SignedBy (c : Cbor2) (bodyRaw externalAad payload : Bytes) (signer : Signer)
    (s : Signature) : Prop where
  protectedHeader : s.protectedHeader = (withAlgKid signer.alg signer.kid).protectedHeader
  unprotectedHeader : s.unprotectedHeader = (withAlgKid signer.alg signer.kid).unprotectedHeader
  encoded : encodeProtected c s.protectedHeader = .ok s.protectedRaw
  signed : ∃ structured,
    SignMessage.toBeSigned c bodyRaw s.protectedRaw externalAad payload = .ok structured ∧
      signer.sign structured = .ok s.signature

variable {alg : Option Label} {kid : Option Bytes}

theorem get_withAlgKid {label : Label} (h : label ≠ headerParameterAlg) :
    (withAlgKid alg kid).protectedHeader.get label = none := by
  cases alg with
  | none => rfl
  | some a =>
    show (Header.setAlg ∅ a).get label = none
    rw [Header.setAlg, BTreeMap.get_insert, if_neg h]
    rfl

theorem alg_withAlgKid (a : Label) (h : alg = some a) :
    (withAlgKid alg kid).protectedHeader.alg = .ok (some a) := by
  subst h
  show (Header.setAlg ∅ a).alg = .ok (some a)
  rw [alg_eq_some, Header.setAlg, BTreeMap.get_insert, if_pos rfl]

/-- A signer names no critical labels. -/
theorem critUnderstood_withAlgKid (understood : List Label) :
    CritUnderstood c (withAlgKid alg kid).protectedHeader understood := by
  refine ⟨none, ?_, by rintro _ ⟨⟩⟩
  rw [Header.crit, get_withAlgKid (by decide)]
  rfl

/-- The key id of a signer is that of its slot. -/
theorem kid_withAlgKid : layerValue (withAlgKid alg kid).protectedHeader
    (withAlgKid alg kid).unprotectedHeader headerParameterKid = kid.map Value.bytes := by
  rw [layerValue, get_withAlgKid (by decide), Option.none_or]
  cases kid with
  | none => rfl
  | some k =>
    show (Header.setKid ∅ k).get headerParameterKid = some (.bytes k)
    rw [Header.setKid, BTreeMap.get_insert, if_pos rfl]

theorem prepared_ok {s : Signature} {signer : Signer}
    (h : prepared c (withAlgKid signer.alg signer.kid) = .ok s) :
    ∃ raw, encodeProtected c (withAlgKid signer.alg signer.kid).protectedHeader = .ok raw ∧
      s = { withAlgKid signer.alg signer.kid with
            protectedRaw := raw, state := .prepared, signature := [] } := by
  simp only [prepared, Except.bind_eq_ok, Except.pure_eq_ok] at h
  obtain ⟨_, -, raw, hraw, rfl⟩ := h
  exact ⟨raw, hraw, rfl⟩

section Reading

variable (hread : c.ReadsItems) (hw : c.WritesValues) (hr : c.ReadsBack) (hc : c.ReadsValues)
  (hd : c.Describes) (hrecursion : defaultMaxDepth < c.recursionLimit) {s s' : Signature}
  {signer : Signer} {verifier : Verifier} {m' : SignMessage} {bodyRaw payload : Bytes}
  {externalAad : Option Bytes}
include hread hw hr hc hd hrecursion

/-- The verifier that goes with the signer of a slot accepts the slot where it is read. -/
theorem SignedBy.accepts
    (h : s.SignedBy c bodyRaw (externalAad.getD []) payload signer) (hsound : s.Sound c)
    (hfrom : s.ReadFrom c s') (hbody : m'.protectedRaw = bodyRaw)
    (hcrit : CritUnderstood c m'.protectedHeader verifier.understoodCriticalHeaders)
    (hpair : signer.Pair verifier) :
    SignMessage.Accepts c (CritUnderstood c) m' payload externalAad s' verifier := by
  have hprepared : Prepared c signer.alg s.protectedHeader s.protectedRaw := by
    refine ⟨h.encoded, fun a ha => ?_⟩
    rw [h.protectedHeader]
    exact alg_withAlgKid a ha
  have hunderstood : CritUnderstood c s.protectedHeader verifier.understoodCriticalHeaders := by
    rw [h.protectedHeader]
    exact critUnderstood_withAlgKid _
  have hslot :=
    hprepared.critUnderstood hread hw hr hc hd hrecursion hsound hfrom.layer hunderstood
  have halg := hprepared.algMatches hw hr hrecursion hsound hfrom.layer
  have hkid : s'.kid = .ok signer.kid := by
    refine headerBytes_eq_ok.mpr
      (layerValue_same hfrom.layer.protectedRead hfrom.layer.unprotectedRead ?_)
    rw [h.protectedHeader, h.unprotectedHeader]
    exact kid_withAlgKid
  obtain ⟨structured, hstructured, hsigned⟩ := h.signed
  refine ⟨⟨signer.kid, hkid, hpair.kid⟩, hcrit, (ensureCritUnderstood_iff.mp hslot).2, ?_,
    structured, ?_, ?_⟩
  · rw [hpair.alg]
    exact checkProtectedAlg_ok.mp halg
  · rw [hbody, hfrom.same.protectedRaw]
    exact hstructured
  · rw [hfrom.same.signature]
    exact hpair.accepting structured s.signature hsigned

end Reading
end Signature

/-! ### Messages with several signatures -/

namespace SignMessage

/-- Every slot was signed by its signer. -/
structure Created (c : Cbor2) (signers : List Signer) (externalAad : Option Bytes)
    (payload : Bytes) (m : SignMessage) : Prop where
  prepared : Prepared c none m.protectedHeader m.protectedRaw
  slots : List.Forall₂
    (fun signer s => s.SignedBy c m.protectedRaw (externalAad.getD []) payload signer)
    signers m.signatures

theorem prepareSignatureHeaders_ok {m₀ m : SignMessage} {signatures : List Signature}
    (h : (prepareSignatureHeaders c signatures).run m₀ = (.ok (), m)) :
    encodeProtected c m.protectedHeader = .ok m.protectedRaw ∧ m.payload = m₀.payload ∧
      signatures.mapM (Signature.prepared c) = .ok m.signatures := by
  simp only [prepareSignatureHeaders, Op.run_bind_eq_ok, Op.run_get_eq_ok, Op.run_lift_eq_ok,
    Op.run_modify_eq_ok] at h
  obtain ⟨_, _, ⟨rfl, rfl⟩, _, _, ⟨-, rfl⟩, _, _, ⟨-, rfl⟩, raw, _, ⟨hraw, rfl⟩, slots, _,
    ⟨hslots, rfl⟩, rfl⟩ := h
  exact ⟨hraw, rfl, hslots⟩

/-- The slots are prepared and signed one by one. -/
theorem signedBy_zipWith {bodyRaw externalAad payload : Bytes} {signers : List Signer}
    {ss : List Signature} {signatures : List Bytes}
    (hprepared : (signers.map fun signer => .withAlgKid signer.alg signer.kid).mapM
      (Signature.prepared c) = .ok ss)
    (hsigned : (signers.zip ss).mapM (fun (signer, s) => do
      signer.sign (← toBeSigned c bodyRaw s.protectedRaw externalAad payload)) = .ok signatures) :
    List.Forall₂ (fun signer s => s.SignedBy c bodyRaw externalAad payload signer) signers
      (ss.zipWith (fun s signature => { s with signature, state := .complete }) signatures) := by
  rw [Except.mapM_eq_ok, List.forall₂_map_left_iff] at hprepared
  rw [Except.mapM_eq_ok] at hsigned
  induction hprepared generalizing signatures with
  | nil => exact .nil
  | @cons signer s signers ss hone _ ih =>
    rw [List.zip_cons_cons] at hsigned
    obtain ⟨signature, signatures, hsign, hrest, rfl⟩ := List.forall₂_cons_left_iff.mp hsigned
    obtain ⟨raw, hraw, rfl⟩ := Signature.prepared_ok hone
    obtain ⟨structured, hstructured, hsign⟩ := Except.bind_eq_ok.mp hsign
    exact .cons ⟨rfl, rfl, hraw, structured, hstructured, hsign⟩ (ih hrest)

theorem signWithPayload_ok {m₀ m : SignMessage} {signers : List Signer}
    {detachedPayload : Option Bytes} {externalAad : Option Bytes}
    (h : (signWithPayload c signers detachedPayload (externalAad.getD [])).run m₀ =
      (.ok (), m)) : signers ≠ [] ∧ m.payload = m₀.payload ∧
      ∃ payload, (detachedPayload = some payload ∨ detachedPayload = none ∧
        m₀.payload = some payload) ∧ m.Created c signers externalAad payload := by
  rw [signWithPayload] at h
  obtain ⟨_, _, hsigners, h⟩ := Op.run_bind_eq_ok.mp h
  obtain ⟨hne, rfl⟩ := Op.run_lift_eq_ok.mp hsigners
  obtain ⟨_, m₁, hprepare, h⟩ := Op.run_bind_eq_ok.mp h
  obtain ⟨hraw, hkept, hprepared⟩ := prepareSignatureHeaders_ok hprepare
  obtain ⟨_, _, hget, h⟩ := Op.run_bind_eq_ok.mp h
  obtain ⟨rfl, rfl⟩ := Op.run_get_eq_ok.mp hget
  obtain ⟨payload, _, hrequired, h⟩ := Op.run_bind_eq_ok.mp h
  obtain ⟨hpayload, rfl⟩ := Op.run_lift_eq_ok.mp hrequired
  obtain ⟨signatures, _, hsign, h⟩ := Op.run_bind_eq_ok.mp h
  obtain ⟨hsigned, rfl⟩ := Op.run_lift_eq_ok.mp hsign
  obtain rfl := Op.run_modify_eq_ok.mp h
  rw [Except.failIf_eq_ok, List.isEmpty_iff] at hne
  refine ⟨hne, hkept, payload, ?_, ⟨hraw, by rintro _ ⟨⟩⟩, signedBy_zipWith hprepared hsigned⟩
  cases detachedPayload with
  | some detached =>
    cases hpayload
    exact .inl rfl
  | none => exact .inr ⟨rfl, hkept.symm.trans (Except.ofOption_eq_ok.mp hpayload)⟩

/-- The verifiers go with the signers: every signer has one, which understands the critical
labels of the message. -/
def Pairs (c : Cbor2) (signers : List Signer) (verifiers : List Verifier) (p : Header) : Prop :=
  ∀ signer ∈ signers, ∃ verifier ∈ verifiers, signer.Pair verifier ∧
    CritUnderstood c p verifier.understoodCriticalHeaders

section Reading

variable (hread : c.ReadsItems) (hw : c.WritesValues) (hr : c.ReadsBack) (hc : c.ReadsValues)
  (hd : c.Describes) (hrecursion : defaultMaxDepth < c.recursionLimit) {m m' : SignMessage}
  {signers : List Signer} {verifiers : List Verifier} {externalAad : Option Bytes}
  {payload : Bytes}
include hread hw hr hc hd hrecursion

/-- The verifiers decide for what was created, where it is read. -/
theorem Created.decides (h : m.Created c signers externalAad payload)
    (hsound : SoundLayer c m.protectedHeader m.unprotectedHeader m.protectedRaw)
    (hslots : ∀ s ∈ m.signatures, s.Sound c) (hne : signers ≠ [])
    (hlayer : LayerRead c m.protectedHeader m.unprotectedHeader m'.protectedHeader
      m'.unprotectedHeader m.protectedRaw)
    (hall : List.Forall₂ (Signature.ReadFrom c) m.signatures m'.signatures)
    (hstate : m'.state = .complete) (hraw : m'.protectedRaw = m.protectedRaw)
    (hpairs : Pairs c signers verifiers m.protectedHeader) :
    Decides c (CritUnderstood c) m' payload externalAad verifiers where
  complete := hstate
  verifier := by
    rintro rfl
    obtain ⟨signer, hsigner⟩ := List.exists_mem_of_ne_nil signers hne
    obtain ⟨verifier, hverifier, -⟩ := hpairs signer hsigner
    exact List.not_mem_nil hverifier
  signed := by
    intro hnil
    rw [hnil, List.forall₂_nil_right_iff] at hall
    have hslots' := h.slots
    rw [hall, List.forall₂_nil_right_iff] at hslots'
    exact hne hslots'
  layer := hraw ▸ hlayer.layer
  slotLayers s' hs' := by
    obtain ⟨s, -, hfrom⟩ := Tree.forall₂_mem_right hall hs'
    exact hfrom.checked
  slots s' hs' := by
    obtain ⟨s, hs, hfrom⟩ := Tree.forall₂_mem_right hall hs'
    obtain ⟨signer, hsigner, hsigned⟩ := Tree.forall₂_mem_right h.slots hs
    obtain ⟨verifier, hverifier, hpair, hcrit⟩ := hpairs signer hsigner
    have hbody := h.prepared.critUnderstood hread hw hr hc hd hrecursion hsound hlayer hcrit
    exact ⟨verifier, hverifier, hsigned.accepts hread hw hr hc hd hrecursion (hslots s hs) hfrom
      hraw (ensureCritUnderstood_iff.mp hbody).2 hpair⟩

end Reading

/-- A message that was signed and encoded by signers is decoded and verified by the verifiers
that go with them. -/
structure EndToEnd (c : Cbor2) : Prop where
  embedded : ∀ signers verifiers externalAad m₀ m b,
    (signAndEncode c signers externalAad).run m₀ = (.ok b, m) →
      SoundLayer c m.protectedHeader m.unprotectedHeader m.protectedRaw →
      (∀ s ∈ m.signatures, s.Sound c) → WithinDefaults b →
      Pairs c signers verifiers m.protectedHeader →
        ∃ m', verifyAndDecode c verifiers b externalAad = .ok m' ∧ m'.payload = m₀.payload
  detached : ∀ signers verifiers payload externalAad m₀ m b,
    (signDetachedAndEncode c signers payload externalAad).run m₀ = (.ok b, m) →
      SoundLayer c m.protectedHeader m.unprotectedHeader m.protectedRaw →
      (∀ s ∈ m.signatures, s.Sound c) → WithinDefaults b →
      Pairs c signers verifiers m.protectedHeader →
        ∃ m', verifyDetachedAndDecode c verifiers b payload externalAad = .ok m' ∧
          m'.payload = none

section Laws

variable (hread : c.ReadsItems) (hw : c.WritesValues) (hr : c.ReadsBack) (hc : c.ReadsValues)
  (hd : c.Describes) (ht : c.WritesTuples) (hb : c.ReadsByteStrings)
  (hrecursion : defaultMaxDepth < c.recursionLimit)
include hread hw hr hc hd ht hb hrecursion

theorem endToEnd : EndToEnd c where
  embedded := by
    intro signers verifiers externalAad m₀ m b h hsound hslots hdata hpairs
    simp only [signAndEncode, sign, Op.run_bind_eq_ok, Op.run_get_eq_ok, Op.run_lift_eq_ok] at h
    obtain ⟨_, m₁, hsign, _, _, ⟨rfl, rfl⟩, hvec, rfl⟩ := h
    obtain ⟨hne, hkept, payload, hpayload, hcreated⟩ := signWithPayload_ok hsign
    obtain ⟨⟨⟩⟩ | ⟨-, hpayload⟩ := hpayload
    obtain ⟨m', hslice, hsame, -, hlayer, hall⟩ := decode_encode hread hw hr hc ht hb hrecursion
      (show [98] ∈ writtenTags 98 by simp [writtenTags]) hvec hsound hslots hdata
    have hdecides := hcreated.decides hread hw hr hc hd hrecursion hsound hslots hne hlayer hall
      hsame.state hsame.protectedRaw hpairs
    refine ⟨m', ?_, hsame.payload.trans hkept⟩
    rw [verifyAndDecode, hslice, Except.ok_bind, Except.seq_eq_ok, verify_iff]
    exact ⟨⟨payload, hsame.payload.trans (hkept.trans hpayload), hdecides⟩, rfl⟩
  detached := by
    intro signers verifiers payload externalAad m₀ m b h hsound hslots hdata hpairs
    simp only [signDetachedAndEncode, signDetached, Op.run_bind_eq_ok, Op.run_get_eq_ok,
      Op.run_lift_eq_ok, Op.run_modify_eq_ok] at h
    obtain ⟨_, _, ⟨_, m₁, hsign, rfl⟩, _, _, ⟨rfl, rfl⟩, hvec, rfl⟩ := h
    obtain ⟨hne, -, _, hpayload, hcreated⟩ := signWithPayload_ok hsign
    obtain ⟨⟨⟩⟩ | ⟨⟨⟩, -⟩ := hpayload
    obtain ⟨m', hslice, hsame, -, hlayer, hall⟩ := decode_encode hread hw hr hc ht hb hrecursion
      (show [98] ∈ writtenTags 98 by simp [writtenTags]) hvec hsound hslots hdata
    have hdecides := Created.decides hread hw hr hc hd hrecursion
      ⟨hcreated.prepared, hcreated.slots⟩ hsound hslots hne hlayer hall hsame.state
      hsame.protectedRaw hpairs
    refine ⟨m', ?_, hsame.payload⟩
    rw [verifyDetachedAndDecode, hslice, Except.ok_bind, Except.seq_eq_ok, verifyDetached_iff]
    exact ⟨⟨hsame.payload, hdecides⟩, rfl⟩

end Laws
end SignMessage

/-! ### All types -/

section Types

variable (hread : c.ReadsItems) (hw : c.WritesValues) (hr : c.ReadsBack) (hc : c.ReadsValues)
  (hd : c.Describes) (hcap : c.CapturesRaw) (ht : c.WritesTuples) (hb : c.ReadsByteStrings)
  (hrecursion : defaultMaxDepth < c.recursionLimit)
include hread hw hr hc hd hcap ht hb hrecursion

/-- **What is created and encoded is decoded and verified, for all six types.** -/
theorem verifiesWhatWasCreated :
    sign1.EndToEnd c (fun _ => True) ∧ mac0.EndToEnd c (fun _ => True) ∧
      (mac c).EndToEnd c (Recipient.AllSound c) ∧ encrypt0.EndToEnd c (fun _ => True) ∧
      (encrypt c).EndToEnd c (Recipient.AllSound c) ∧ SignMessage.EndToEnd c := by
  have htail (name : String) := recipientTail hread hw hr hc hd hcap ht hrecursion name
  refine ⟨?_, ?_, ?_, ?_, ?_, ?_⟩
  · exact AuthType.endToEnd hread hw hr hc hd ht hb hrecursion onWire_sign1 noTail
  · exact AuthType.endToEnd hread hw hr hc hd ht hb hrecursion onWire_mac0 noTail
  · exact AuthType.endToEnd hread hw hr hc hd ht hb hrecursion (onWire_mac c) (htail _)
  · exact EncType.endToEnd hread hw hr hc hd ht hb hrecursion onWire_encrypt0 noTail
  · exact EncType.endToEnd hread hw hr hc hd ht hb hrecursion (onWire_encrypt c) (htail _)
  · exact SignMessage.endToEnd hread hw hr hc hd ht hb hrecursion

end Types

/-- A cipher that turns the plaintext around, with a Base IV. -/
def turning : Encryptor where
  alg := some (.int 1)
  nonceSize := 2
  baseIv := some [1, 2]
  encrypt _ plaintext _ := .ok plaintext.reverse
  decrypt _ ciphertext _ := .ok ciphertext.reverse

theorem pair_turning : turning.Pair turning where
  alg := rfl
  nonceSize := rfl
  baseIv := rfl
  decrypts _ plaintext _ _ h := by
    cases h
    exact congrArg Except.ok plaintext.reverse_reverse

/-- A message with a Partial IV. -/
def counted : EncMessage Unit where
  unprotectedHeader := BTreeMap.ofList [(headerParameterPartialIV, .bytes [5])]
  payload := some [7, 8]
  recipients := ()

theorem verifiesWhatWasCreated_counted : ∃ m', encrypt0.decryptAndDecode Cbor2.reference turning
    [0xd0, 0x83, 0x43, 0xa1, 0x01, 0x01, 0xa1, 0x06, 0x41, 0x05, 0x42, 0x08, 0x07] none = .ok m' ∧
    m'.payload = some [7, 8] := by
  obtain ⟨-, -, -, hencrypt0, -⟩ := verifiesWhatWasCreated Cbor2.reference_readsItems
    Cbor2.reference_writesValues Cbor2.reference_readsBack Cbor2.reference_readsValues
    Cbor2.reference_describes Cbor2.reference_capturesRaw Cbor2.reference_writesTuples
    Cbor2.reference_readsByteStrings (by decide)
  have hrun : (encrypt0.encryptAndEncode Cbor2.reference turning none).run counted =
      (.ok [0xd0, 0x83, 0x43, 0xa1, 0x01, 0x01, 0xa1, 0x06, 0x41, 0x05, 0x42, 0x08, 0x07],
        { counted with
          protectedHeader := BTreeMap.ofList [(headerParameterAlg, (Label.int 1).toValue)]
          ciphertext := [8, 7], protectedRaw := [0xa1, 0x01, 0x01], state := .complete }) := rfl
  have hencoded : encodeProtected Cbor2.reference
    (BTreeMap.ofList [(headerParameterAlg, (Label.int 1).toValue)]) = .ok [0xa1, 0x01, 0x01] := rfl
  obtain ⟨m', hread, hrestores⟩ := hencrypt0.embedded turning turning none counted _ _ hrun
    { protectedSize := fun b h => by
        cases hencoded.symm.trans h
        decide
      protectedLimits := fun _ => withinDefaults_of_root (c := Cbor2.reference) (by decide) rfl
      protectedApart := apart_singleton (Value.Plain.integer _).duplicateFree
      unprotectedApart := apart_singleton (Value.Plain.bytes _).duplicateFree }
    trivial (withinDefaults_of_root (c := Cbor2.reference) (by decide) rfl) pair_turning
    ⟨none, rfl, by rintro _ ⟨⟩⟩
  exact ⟨m', hread, hrestores.payload⟩

/-- A message with one value in its protected header. -/
def noting (v : Value) : AuthMessage Unit where
  protectedHeader := BTreeMap.ofList [(.text "a", v)]
  payload := some [0]
  recipients := ()

/-- The map `{null: 1, undefined: 2}`. -/
def nullTwice : Value := .map [(.null, (Label.int 1).toValue),
  (.undefined, (Label.int 2).toValue)]

set_option maxRecDepth 20000 in
/-- Protected bytes that the decoder's limits refuse are signed and encoded, and so is a map
with null and undefined as keys, which are the same key when they are read. -/
theorem not_verifiesWhatWasCreated :
    (¬ ∀ alg kid create check understood externalAad (m₀ m : AuthMessage Unit) b,
      (sign1.completeAndEncode Cbor2.reference alg kid create externalAad).run m₀ = (.ok b, m) →
        WithinDefaults b → Accepting create check →
        CritUnderstood Cbor2.reference m.protectedHeader understood →
          ∃ m', sign1.verifyAndDecode Cbor2.reference understood alg check b externalAad =
            .ok m') ∧
    ¬ ∀ alg kid create check understood externalAad (m₀ m : AuthMessage Unit) b,
      (sign1.completeAndEncode Cbor2.reference alg kid create externalAad).run m₀ = (.ok b, m) →
        WithinDefaults m.protectedRaw → WithinDefaults b → Accepting create check →
        CritUnderstood Cbor2.reference m.protectedHeader understood →
          ∃ m', sign1.verifyAndDecode Cbor2.reference understood alg check b externalAad =
            .ok m' := by
  constructor
  · intro h
    have hrun : (sign1.completeAndEncode Cbor2.reference none none (fun _ => .ok [1]) none).run
        (noting (Value.nested 130)) =
          (.ok ([0xd2, 0x84, 0x58, 0x86, 0xa1, 0x61, 0x61] ++ List.replicate 130 0x81 ++
            [0xf6, 0xa0, 0x41, 0x00, 0x41, 0x01]),
            { noting (Value.nested 130) with
              result := [1], state := .complete
              protectedRaw := [0xa1, 0x61, 0x61] ++ List.replicate 130 0x81 ++ [0xf6] }) := rfl
    obtain ⟨m', hread⟩ := h none none (fun _ => .ok [1]) (fun _ _ => .ok ()) [] none _ _ _ hrun
      (withinDefaults_of_root (c := Cbor2.reference) (by decide) rfl) (fun _ _ _ => rfl)
      ⟨none, rfl, by rintro _ ⟨⟩⟩
    obtain ⟨m, hslice, -⟩ := Except.bind_eq_ok.mp hread
    have hrefused : (sign1.fromSlice Cbor2.reference ([0xd2, 0x84, 0x58, 0x86, 0xa1, 0x61, 0x61] ++
      List.replicate 130 0x81 ++ [0xf6, 0xa0, 0x41, 0x00, 0x41, 0x01])).isOk = false := rfl
    cases hrefused.symm.trans (Except.isOk_iff.mpr ⟨m, hslice⟩)
  · intro h
    have hrun : (sign1.completeAndEncode Cbor2.reference none none (fun _ => .ok [1]) none).run
        (noting nullTwice) =
          (.ok [0xd2, 0x84, 0x48, 0xa1, 0x61, 0x61, 0xa2, 0xf6, 0x01, 0xf7, 0x02, 0xa0, 0x41, 0x00,
            0x41, 0x01],
            { noting nullTwice with
              result := [1], state := .complete
              protectedRaw := [0xa1, 0x61, 0x61, 0xa2, 0xf6, 0x01, 0xf7, 0x02] }) := rfl
    have hprotected : WithinDefaults [0xa1, 0x61, 0x61, 0xa2, 0xf6, 0x01, 0xf7, 0x02] :=
      withinDefaults_of_root (c := Cbor2.reference) (by decide) rfl
    obtain ⟨m', hread⟩ := h none none (fun _ => .ok [1]) (fun _ _ => .ok ()) [] none _ _ _ hrun
      hprotected
      (withinDefaults_of_root (c := Cbor2.reference) (by decide) rfl) (fun _ _ _ => rfl)
      ⟨none, rfl, by rintro _ ⟨⟩⟩
    obtain ⟨m, hslice, -⟩ := Except.bind_eq_ok.mp hread
    have hrefused : (sign1.fromSlice Cbor2.reference [0xd2, 0x84, 0x48, 0xa1, 0x61, 0x61, 0xa2,
        0xf6, 0x01, 0xf7, 0x02, 0xa0, 0x41, 0x00, 0x41, 0x01]).isOk = false := by decide +kernel
    cases hrefused.symm.trans (Except.isOk_iff.mpr ⟨m, hslice⟩)

end Cose2
