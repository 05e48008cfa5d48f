import Cose2.Message.EndToEnd
import Cose2.Message.SignRoundTrip

/-! # Messages that are sent on

A signature or a tag covers the protected bytes and the payload.  Whoever has decoded a
message may replace its unprotected header and its recipients and encode it again, and so may
the next one: over any number of relays the created message stays what it was, and whoever
receives it accepts it.
-/
namespace Cose2

open Cbor Cbor2 Iana

variable {c : Cbor2}

/-! ### Protected headers that are read more than once -/

/-- The protected header is the one that was created, or that one as it is read. -/
def ReadAgain (p p' : Header) : Prop := p' = p ∨ p' = p.asRead

/-- Reading once more makes no difference. -/
theorem ReadAgain.readAs {p p' p'' : Header} (h : ReadAgain p p') (hread : HeaderRead p' p'') :
    HeaderRead p p'' := by
  rcases h with rfl | rfl
  · exact hread
  · exact ⟨fun label => (hread.settled label).trans ((readAs_asRead p).settled label),
      hread.reduced⟩

/-- What was read of a header is encoded in as many bytes. -/
theorem length_encodeProtected_asRead (hw : c.WritesValues) {p : Header} {raw raw' : Bytes}
    (h : encodeProtected c p = .ok raw) (h' : encodeProtected c p.asRead = .ok raw') :
    raw'.length = raw.length := by
  by_cases hempty : p.entries = []
  · obtain rfl : p = ∅ := BTreeMap.ext hempty
    cases h.symm.trans h'
    rfl
  · have hne : raw ≠ [] := by
      rintro rfl
      exact hempty (encodeProtected_nil.mp h)
    have hne' : raw' ≠ [] := by
      rintro rfl
      exact hempty (List.map_eq_nil_iff.mp (encodeProtected_nil.mp h'))
    rw [canonical_of_encodeProtected hw hne h, canonical_of_encodeProtected hw hne' h',
      Value.canonical, Value.canonical, ← CoseMap.settle_toValue, Value.settle, Value.asRead]
    exact Value.length_encode_nullify (Value.norm_norm _)

/-- A sound layer stays sound when its protected header has been read. -/
theorem SoundLayer.readAgain (hw : c.WritesValues) {alg : Option Label} {p p' u : Header}
    {raw : Bytes} (hprepared : Prepared c alg p raw) (h : SoundLayer c p u raw)
    (hagain : ReadAgain p p') : SoundLayer c p' u raw := by
  rcases hagain with rfl | rfl
  · exact h
  · refine { h with protectedSize := fun b hb => ?_, protectedApart := ?_ }
    · rw [length_encodeProtected_asRead hw hprepared.encoded hb]
      exact h.protectedSize raw hprepared.encoded
    · rw [CoseMap.asRead, CoseMap.mapValues, List.forall_mem_map]
      exact fun e he => e.2.defined_asRead.duplicateFree_asRead.mpr (h.protectedApart e he)

namespace AuthMessage

variable {ρ : Type}

/-- The message `m'` is the message `m`, apart from what a relay may replace. -/
structure Keeps (m m' : AuthMessage ρ) : Prop where
  protectedRaw : m'.protectedRaw = m.protectedRaw
  result : m'.result = m.result
  payload : m'.payload = m.payload
  protectedHeader : ReadAgain m.protectedHeader m'.protectedHeader

theorem Keeps.refl (m : AuthMessage ρ) : Keeps m m := ⟨rfl, rfl, rfl, .inl rfl⟩

end AuthMessage

namespace AuthType

open AuthMessage

variable {ρ : Type} {shape : List Tree → Prop} {sound defined : ρ → Prop}
  {same : ρ → ρ → Prop}

/-! ### Relays -/

/-- A relay that has `m` sends `b`, with another unprotected header and other recipients. -/
structure Sends (k : AuthType ρ) (c : Cbor2) (sound : ρ → Prop) (m : AuthMessage ρ) (u : Header)
    (rs : ρ) (b : Bytes) : Prop where
  encoded : ∃ write ∈ k.encoders c,
    write { m with unprotectedHeader := u, recipients := rs } = .ok b
  apart : ∀ e ∈ u.entries, e.2.asRead.DuplicateFree
  sound : sound rs
  limits : WithinDefaults b

/-- The message `m` reached someone as `m'`, over any number of relays. -/
inductive Relayed (k : AuthType ρ) (c : Cbor2) (sound : ρ → Prop) (m : AuthMessage ρ) :
    AuthMessage ρ → Prop
  | created : Relayed k c sound m m
  | sent {m₁ m₂ : AuthMessage ρ} {u : Header} {rs : ρ} {b : Bytes} : Relayed k c sound m m₁ →
    k.Sends c sound m₁ u rs b → k.fromSlice c b = .ok m₂ → Relayed k c sound m m₂

/-- What arrives: the created message with the unprotected header and the recipients that were
sent, as they are read, and headers that go together. -/
structure Arrives (c : Cbor2) (same : ρ → ρ → Prop) (m : AuthMessage ρ) (u : Header) (rs : ρ)
    (m' : AuthMessage ρ) : Prop where
  keeps : Keeps m m'
  unprotectedHeader : HeaderRead u m'.unprotectedHeader
  recipients : same rs m'.recipients
  layer : LayerOk c m'.protectedHeader m'.unprotectedHeader m'.protectedRaw

section Laws

variable {k : AuthType ρ} (hread : c.ReadsItems) (hw : c.WritesValues) (hr : c.ReadsBack)
  (hc : c.ReadsValues) (hd : c.Describes) (ht : c.WritesTuples) (hb : c.ReadsByteStrings)
  (hrecursion : defaultMaxDepth < c.recursionLimit) {n : UInt64} (htype : k.OnWire n shape)
  (htail : TailTravels k.validateRecipients k.validateDecoded k.writeRecipients
    k.readRecipients shape sound defined same)
  {alg : Option Label} {create : Bytes → Except Error Bytes} {externalAad : Option Bytes}
  {payload : Bytes} {m m₁ : AuthMessage ρ} {u : Header} {rs : ρ} {b : Bytes}
  (hcreated : k.Created c alg create externalAad payload m)
  (hsound : SoundLayer c m.protectedHeader m.unprotectedHeader m.protectedRaw)
include hread hw hr hc hd ht hb hrecursion htype htail hcreated hsound

/-- **What is sent arrives**, and the signature or tag is accepted with it. -/
theorem arrives_of_keeps (hkeeps : Keeps m m₁) (hsends : k.Sends c sound m₁ u rs b) :
    ∃ m₂, k.fromSlice c b = .ok m₂ ∧ Arrives c same m u rs m₂ ∧ m₂.state = .complete ∧
      ∀ understood check, Accepting create check → CritUnderstood c m.protectedHeader understood →
        k.verifyPayload c m₂ understood alg check payload (externalAad.getD []) = .ok () := by
  obtain ⟨⟨write, hmem, hwrite⟩, hapart, hrecipients, hdata⟩ := hsends
  obtain ⟨tags, htags, hencode⟩ := encode_of_mem htype hmem
  rw [hencode] at hwrite
  have hlayer : SoundLayer c m.protectedHeader u m.protectedRaw :=
    { hsound with unprotectedApart := hapart }
  have hagain : SoundLayer c m₁.protectedHeader u m₁.protectedRaw := by
    rw [hkeeps.protectedRaw]
    exact hlayer.readAgain hw hcreated.prepared hkeeps.protectedHeader
  obtain ⟨m₂, hslice, hsame, -, hlayerRead⟩ := decode_encode hread hw hr hc ht hb hrecursion
    htype htail htags hwrite hagain hrecipients hdata
  have hraw : m₂.protectedRaw = m.protectedRaw := hsame.protectedRaw.trans hkeeps.protectedRaw
  have hresult : m₂.result = m.result := hsame.result.trans hkeeps.result
  -- the layer that was read is one of the created message
  have horigin : LayerRead c m.protectedHeader u m₂.protectedHeader m₂.unprotectedHeader
      m.protectedRaw := by
    rw [← hkeeps.protectedRaw]
    exact { hlayerRead with
      protectedRead := hkeeps.protectedHeader.readAs hlayerRead.protectedRead }
  refine ⟨m₂, hslice, ⟨⟨hraw, hresult, hsame.payload.trans hkeeps.payload, .inr ?_⟩,
    hlayerRead.unprotectedRead, hsame.recipients, ?_⟩, hsame.state, ?_⟩
  · exact hcreated.prepared.decoded hw hr hrecursion hlayer horigin
  · rw [hraw]
    exact horigin.layer
  · intro understood check haccepting hcrit
    have hreplaced : k.Created c alg create externalAad payload { m with unprotectedHeader := u } :=
      ⟨hcreated.prepared, hcreated.created⟩
    exact hreplaced.verifyPayload hread hw hr hc hd hrecursion hlayer horigin hraw hresult hcrit
      haccepting

/-- Over any number of relays, the created message is kept. -/
theorem Relayed.keeps (h : k.Relayed c sound m m₁) : Keeps m m₁ := by
  induction h with
  | created => exact .refl m
  | sent _ hsends hslice ih =>
    obtain ⟨m₂, hslice', harrives, -⟩ := arrives_of_keeps hread hw hr hc hd ht hb hrecursion
      htype htail hcreated hsound ih hsends
    obtain rfl := Except.ok.inj (hslice.symm.trans hslice')
    exact harrives.keeps

end Laws

section Laws

variable {k : AuthType ρ} (hread : c.ReadsItems) (hw : c.WritesValues) (hr : c.ReadsBack)
  (hc : c.ReadsValues) (hd : c.Describes) (ht : c.WritesTuples) (hb : c.ReadsByteStrings)
  (hrecursion : defaultMaxDepth < c.recursionLimit) {n : UInt64} (htype : k.OnWire n shape)
  (htail : TailTravels k.validateRecipients k.validateDecoded k.writeRecipients
    k.readRecipients shape sound defined same)
include hread hw hr hc hd ht hb hrecursion htype htail

end Laws

end AuthType

section Types

variable (hread : c.ReadsItems) (hw : c.WritesValues) (hr : c.ReadsBack) (hc : c.ReadsValues)
  (hd : c.Describes) (hcap : c.CapturesRaw) (ht : c.WritesTuples) (hb : c.ReadsByteStrings)
  (hrecursion : defaultMaxDepth < c.recursionLimit)
include hread hw hr hc hd hcap ht hb hrecursion

end Types

/-- A message that was signed. -/
def signed : AuthMessage Unit where
  protectedHeader := BTreeMap.ofList [(headerParameterAlg, (Label.int (-8)).toValue)]
  payload := some [0]
  recipients := ()
  result := [1]
  protectedRaw := [0xa1, 0x01, 0x27]
  state := .complete

end Cose2
