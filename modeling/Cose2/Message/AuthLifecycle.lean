import Cose2.Layer
import Cose2.Message.Authenticated

/-! # The life of an authenticated message

The protected bytes of a message and its signature or tag are stored together by
the operation that completes it.  Here the calls of a program are run
one after the other, with the pair of the latest completion kept beside the message.
The pair is taken of the call: its arguments, what its provider returns for them, or the
bytes that it reads.  A message in the complete state still holds that pair (`Holds`),
and only such a message can be encoded.
-/
namespace Cose2

open Cbor

variable {ρ : Type} {c : Cbor2}

/-! ### Calls -/

/-- A call, or an edit of the public fields. -/
inductive AuthCall (ρ : Type) where
  | new (payload : Option Bytes)
  | fromSlice (data : Bytes) (limits : CborLimits)
  | edit (p u : Header) (payload : Option Bytes) (recipients : ρ)
  | prepare (alg : Option Label) (kid externalAad : Option Bytes)
  | prepareDetached (alg : Option Label) (kid : Option Bytes) (detachedPayload : Bytes)
    (externalAad : Option Bytes)
  | setResult (result : Bytes)
  | complete (alg : Option Label) (kid : Option Bytes) (create : Bytes → Except Error Bytes)
    (externalAad : Option Bytes)
  | completeDetached (alg : Option Label) (kid : Option Bytes)
    (create : Bytes → Except Error Bytes) (detachedPayload : Bytes) (externalAad : Option Bytes)
  | completeAndEncode (alg : Option Label) (kid : Option Bytes)
    (create : Bytes → Except Error Bytes) (externalAad : Option Bytes)
  | completeDetachedAndEncode (alg : Option Label) (kid : Option Bytes)
    (create : Bytes → Except Error Bytes) (detachedPayload : Bytes) (externalAad : Option Bytes)
  /-- `verify`, `to_vec` and the accessors take the message by shared reference. -/
  | read

namespace AuthCall

variable (k : AuthType ρ) (c : Cbor2)

/-- The message after a call. -/
def run (call : AuthCall ρ) (m : AuthMessage ρ) : AuthMessage ρ :=
  match call with
  | .new payload => k.new payload
  | .fromSlice data limits => (k.fromSliceWithLimits c data limits).toOption.getD m
  | .edit p u payload recipients =>
    { m with protectedHeader := p, unprotectedHeader := u, payload, recipients }
  | .prepare alg kid externalAad => ((k.prepare c alg kid externalAad).run m).2
  | .prepareDetached alg kid detachedPayload externalAad =>
    ((k.prepareDetached c alg kid detachedPayload externalAad).run m).2
  | .setResult result => ((k.setResult c result).run m).2
  | .complete alg kid create externalAad => ((k.complete c alg kid create externalAad).run m).2
  | .completeDetached alg kid create detachedPayload externalAad =>
    ((k.completeDetached c alg kid create detachedPayload externalAad).run m).2
  | .completeAndEncode alg kid create externalAad =>
    ((k.completeAndEncode c alg kid create externalAad).run m).2
  | .completeDetachedAndEncode alg kid create detachedPayload externalAad =>
    ((k.completeDetachedAndEncode c alg kid create detachedPayload externalAad).run m).2
  | .read => m

/-- The call succeeds in storing protected bytes and a result. -/
def stores (call : AuthCall ρ) (m : AuthMessage ρ) : Bool :=
  match call with
  | .fromSlice data limits => (k.fromSliceWithLimits c data limits).isOk
  | .setResult result => ((k.setResult c result).run m).1.isOk
  | .complete alg kid create externalAad
  | .completeAndEncode alg kid create externalAad =>
    ((k.complete c alg kid create externalAad).run m).1.isOk
  | .completeDetached alg kid create detachedPayload externalAad
  | .completeDetachedAndEncode alg kid create detachedPayload externalAad =>
    ((k.completeDetached c alg kid create detachedPayload externalAad).run m).1.isOk
  | .new _ | .edit .. | .prepare .. | .prepareDetached .. | .read => false

/-- The protected bytes and the signature or tag in the bytes of a message. -/
def wirePair (data : Bytes) (limits : CborLimits) : Except Error (Bytes × Bytes) := do
  let body ← Strict.messageBody c data k.tag limits
  match ← (c.item body).mapError .cbor with
  | .array _ (protectedItem :: _ :: _ :: resultItem :: _) =>
    let protectedRaw ← (c.byteBuf protectedItem).mapError .cbor
    let result ← (c.byteBuf resultItem).mapError .cbor
    return (protectedRaw, result)
  | _ => .error (.cbor "invalid length")

/-- The protected bytes that are prepared, and what the provider returns for the
structure that they are part of. -/
def madePair (alg : Option Label) (kid : Option Bytes) (create : Bytes → Except Error Bytes)
    (payload : Bytes) (externalAad : Option Bytes) (m : AuthMessage ρ) :
    Except Error (Bytes × Bytes) := do
  let protectedRaw ← ((prepareHeaders c alg kid).run m.buckets).1
  let structured ← k.toBeAuthenticated c protectedRaw (externalAad.getD []) payload
  let result ← create structured
  return (protectedRaw, result)

/-- The protected bytes and the result that the call brings together. -/
def pair (call : AuthCall ρ) (m : AuthMessage ρ) : Option (Bytes × Bytes) :=
  match call with
  | .fromSlice data limits => (wirePair k c data limits).toOption
  | .setResult result =>
    (syncProtectedRaw c m.protectedHeader m.unprotectedHeader m.protectedRaw m.state).toOption.map
      fun protectedRaw => (protectedRaw, result)
  | .complete alg kid create externalAad
  | .completeAndEncode alg kid create externalAad =>
    m.payload.bind fun payload => (madePair k c alg kid create payload externalAad m).toOption
  | .completeDetached alg kid create detachedPayload externalAad
  | .completeDetachedAndEncode alg kid create detachedPayload externalAad =>
    (madePair k c alg kid create detachedPayload externalAad m).toOption
  | .new _ | .edit .. | .prepare .. | .prepareDetached .. | .read => none

/-- The call makes a new message, or gets past the preparation of the headers. -/
def drops (call : AuthCall ρ) (m : AuthMessage ρ) : Bool :=
  match call with
  | .new _ => true
  | .prepare alg kid _ | .prepareDetached alg kid _ _ | .complete alg kid _ _
  | .completeDetached alg kid _ _ _ | .completeAndEncode alg kid _ _
  | .completeDetachedAndEncode alg kid _ _ _ => ((k.prepareOwnHeaders c alg kid).run m).1.isOk
  | .fromSlice .. | .edit .. | .setResult _ | .read => false

end AuthCall

namespace AuthType

variable (k : AuthType ρ) (c : Cbor2)

/-- One call, and the pair of the latest completion. -/
def step (h : AuthMessage ρ × Option (Bytes × Bytes)) (call : AuthCall ρ) :
    AuthMessage ρ × Option (Bytes × Bytes) :=
  (call.run k c h.1,
    if call.stores k c h.1 then call.pair k c h.1
    else if call.drops k c h.1 then none
    else h.2)

/-- A run from a new message. -/
def history (calls : List (AuthCall ρ)) : AuthMessage ρ × Option (Bytes × Bytes) :=
  calls.foldl (k.step c) (k.new none, none)

/-- What is encoded is the pair that the latest completion stored, and its protected
bytes denote the protected header. -/
def EmitsStored (h : AuthMessage ρ × Option (Bytes × Bytes)) : Prop :=
  ∀ tagPrefix b, k.encode c h.1 tagPrefix = .ok b →
    ∃ raw result, h.2 = some (raw, result) ∧ DenotesHeader c raw h.1.protectedHeader ∧
      ∃ unprotected recipients out,
        c.writeTuple ([.value (.bytes raw), .raw unprotected, payloadPart h.1.payload,
          .value (.bytes result)] ++ recipients) = .ok out ∧ b = tagPrefix ++ out

/-- None of the calls stores anything. -/
def StoresNothing (m : AuthMessage ρ) : List (AuthCall ρ) → Prop
  | [] => True
  | call :: calls => call.stores k c m = false ∧ StoresNothing (call.run k c m) calls

/-- Only what was stored together is encoded, in every run. -/
structure EncodesOnlyStored : Prop where
  emits : ∀ calls, k.EmitsStored c (k.history c calls)
  /-- A message that was prepared but not completed, also in a call that was to complete it,
  is not encoded until something is stored. -/
  unfinished : ∀ calls call later, call.stores k c (k.history c calls).1 = false →
    call.drops k c (k.history c calls).1 = true →
    k.StoresNothing c (call.run k c (k.history c calls).1) later →
    ∀ tagPrefix b, k.encode c (k.history c (calls ++ call :: later)).1 tagPrefix ≠ .ok b
  /-- A message is not encoded while its protected header was edited to one that the stored
  bytes do not denote. -/
  edited : ∀ calls raw result, (k.history c calls).2 = some (raw, result) →
    ¬ DenotesHeader c raw (k.history c calls).1.protectedHeader →
    ∀ tagPrefix b, k.encode c (k.history c calls).1 tagPrefix ≠ .ok b

end AuthType

/-! ### What is read -/

namespace AuthType

/-- The fields of a message are read from these items, and have passed their checks. -/
structure ReadsFields (k : AuthType ρ) (c : Cbor2) (tp tu tpayload tresult : Tree)
    (rest : List Tree) (m : AuthMessage ρ) : Prop where
  protectedRaw : c.byteBuf tp = .ok m.protectedRaw
  unprotectedHeader : Header.deserializeChecked c tu = .ok m.unprotectedHeader
  payload : c.optionByteBuf tpayload = .ok m.payload
  result : c.byteBuf tresult = .ok m.result
  recipients : k.readRecipients rest = .ok m.recipients
  checked : k.validateDecoded m.recipients = .ok ()
  protectedHeader : decodeProtected c m.protectedRaw = .ok m.protectedHeader
  buckets : validateHeaderBuckets m.protectedHeader m.unprotectedHeader = .ok ()
  state : m.state = .complete

theorem fromSlice_reads {k : AuthType ρ} {data : Bytes} {limits : CborLimits} {m : AuthMessage ρ}
    (h : k.fromSliceWithLimits c data limits = .ok m) : ∃ body w tp tu tpayload tresult rest,
      Strict.messageBody c data k.tag limits = .ok body ∧
      c.item body = .ok (.array w (tp :: tu :: tpayload :: tresult :: rest)) ∧
      k.ReadsFields c tp tu tpayload tresult rest m := by
  simp only [fromSliceWithLimits, Except.bind_eq_ok, Except.mapError_eq_ok,
    Except.pure_eq_ok] at h
  obtain ⟨body, hbody, wire, ⟨t, hitem, hwire⟩, _, hchecked, p, hp, _, hbuckets, rfl⟩ := h
  unfold readWire at hwire
  split at hwire
  · simp only [Except.bind_eq_ok, Except.pure_eq_ok] at hwire
    obtain ⟨raw, hraw, u, hu, payload, hpayload, result, hresult, rs, hrs, rfl⟩ := hwire
    exact ⟨body, _, _, _, _, _, _, hbody, hitem,
      ⟨hraw, hu, hpayload, hresult, hrs, hchecked, hp, hbuckets, rfl⟩⟩
  · cases hwire

end AuthType

/-! ### What one call leaves behind -/

namespace AuthMessage

/-- A complete message still holds the pair that was stored. -/
def Holds (h : AuthMessage ρ × Option (Bytes × Bytes)) : Prop :=
  h.1.state = .complete → h.2 = some (h.1.protectedRaw, h.1.result)

/-- The state and the stored pair are the same. -/
def SameCore (m m' : AuthMessage ρ) : Prop :=
  m'.state = m.state ∧ m'.protectedRaw = m.protectedRaw ∧ m'.result = m.result

theorem SameCore.refl (m : AuthMessage ρ) : SameCore m m := ⟨rfl, rfl, rfl⟩

end AuthMessage

namespace AuthType

open AuthMessage

variable {k : AuthType ρ}

/-- Preparing the headers changes nothing but the buckets, or leaves a prepared message
with the bytes that were made. -/
theorem prepareOwnHeaders_leaves (alg : Option Label) (kid : Option Bytes)
    (m : AuthMessage ρ) : (k.prepareOwnHeaders c alg kid).Leaves m fun r m' =>
      (r.isOk = true → m'.state = .prepared ∧ m'.payload = m.payload ∧
        ((prepareHeaders c alg kid).run m.buckets).1 = .ok m'.protectedRaw) ∧
      (r.isOk = false → SameCore m m') := by
  rw [prepareOwnHeaders, Op.leaves_bind, Op.leaves_get]
  refine Op.leaves_lift_bind.mpr ⟨fun _ _ => ?_, fun _ _ => ⟨by rintro ⟨⟩, fun _ => .refl m⟩⟩
  rw [Op.leaves_bind, Op.leaves_on]
  generalize prepareHeaders c alg kid = x
  rw [Op.Leaves]
  generalize x.run m.buckets = outcome
  obtain ⟨r, b⟩ := outcome
  cases r with
  | ok raw => exact ⟨fun _ => ⟨rfl, rfl, rfl⟩, by rintro ⟨⟩⟩
  | error e => exact ⟨by rintro ⟨⟩, fun _ => ⟨rfl, rfl, rfl⟩⟩

/-- What an operation that prepares the headers first leaves behind. -/
theorem prepareFirst_leaves {α : Type} {alg : Option Label} {kid : Option Bytes}
    {f : Unit → Op Error (AuthMessage ρ) α} {Q : Except Error α → AuthMessage ρ → Prop}
    {m : AuthMessage ρ}
    (hf : ∀ m', m'.state = .prepared → m'.payload = m.payload →
      ((prepareHeaders c alg kid).run m.buckets).1 = .ok m'.protectedRaw → (f ()).Leaves m' Q) :
    (k.prepareOwnHeaders c alg kid >>= f).Leaves m fun r m' =>
      (((k.prepareOwnHeaders c alg kid).run m).1.isOk = true → Q r m') ∧
      (((k.prepareOwnHeaders c alg kid).run m).1.isOk = false →
        r.isOk = false ∧ SameCore m m') := by
  rw [Op.leaves_bind]
  have h := prepareOwnHeaders_leaves (k := k) (c := c) alg kid m
  rw [Op.Leaves] at h ⊢
  generalize (k.prepareOwnHeaders c alg kid).run m = outcome at h ⊢
  obtain ⟨r, m'⟩ := outcome
  cases r with
  | ok _ =>
    obtain ⟨hstate, hpayload, hraw⟩ := h.1 rfl
    exact (hf m' hstate hpayload hraw).mono fun r m'' hr => ⟨fun _ => hr, by rintro ⟨⟩⟩
  | error e => exact ⟨by rintro ⟨⟩, fun _ => ⟨rfl, h.2 rfl⟩⟩

/-- A call that stored holds its pair; one that did not left the message incomplete when it
drops, and as it was when it does not. -/
structure Outcome (drops : Bool) (pair : Option (Bytes × Bytes)) (m : AuthMessage ρ)
    (stores : Bool) (m' : AuthMessage ρ) : Prop where
  stored : stores = true → pair = some (m'.protectedRaw, m'.result)
  dropped : stores = false → drops = true → m'.state ≠ .complete
  kept : stores = false → drops = false → SameCore m m'

/-- A call that does not store leaves the pair alone. -/
theorem Outcome.of_sameCore {pair : Option (Bytes × Bytes)} {m m' : AuthMessage ρ}
    (h : SameCore m m') : Outcome false pair m false m' :=
  ⟨by rintro ⟨⟩, by rintro - ⟨⟩, fun _ _ => h⟩

/-- A message that has been prepared and is only looked at stays prepared. -/
theorem looked_leaves {α : Type} {alg : Option Label} {kid : Option Bytes}
    {f : Unit → Op Error (AuthMessage ρ) α} {m : AuthMessage ρ}
    (hf : ∀ m', m'.state = .prepared → (f ()).Leaves m' fun _ m'' => m''.state = .prepared) :
    (k.prepareOwnHeaders c alg kid >>= f).Leaves m fun _ m' =>
      Outcome ((k.prepareOwnHeaders c alg kid).run m).1.isOk none m false m' := by
  refine (prepareFirst_leaves fun m' hm _ _ => hf m' hm).mono fun r m' h =>
    ⟨by rintro ⟨⟩, fun _ hpast => ?_, fun _ hfailed => (h.2 hfailed).2⟩
  rw [h.1 hpast]
  rintro ⟨⟩

theorem prepare_leaves (alg : Option Label) (kid externalAad : Option Bytes)
    (m : AuthMessage ρ) : (k.prepare c alg kid externalAad).Leaves m fun _ m' =>
      Outcome ((k.prepareOwnHeaders c alg kid).run m).1.isOk none m false m' := by
  refine looked_leaves fun m hm => ?_
  rw [Op.leaves_bind, Op.leaves_get]
  exact Op.leaves_lift_bind.mpr ⟨fun payload _ => hm, fun _ _ => hm⟩

theorem prepareDetached_leaves (alg : Option Label) (kid : Option Bytes)
    (detachedPayload : Bytes) (externalAad : Option Bytes) (m : AuthMessage ρ) :
    (k.prepareDetached c alg kid detachedPayload externalAad).Leaves m fun _ m' =>
      Outcome ((k.prepareOwnHeaders c alg kid).run m).1.isOk none m false m' := by
  refine looked_leaves fun m hm => ?_
  rw [Op.leaves_bind, Op.leaves_get]
  exact Op.leaves_lift_bind.mpr ⟨fun structured _ => hm, fun _ _ => hm⟩

/-- A message that has been prepared is completed with its pair, or stays prepared. -/
theorem completed_leaves {α : Type} {alg : Option Label} {kid : Option Bytes}
    {f : Unit → Op Error (AuthMessage ρ) α} {pair : Option (Bytes × Bytes)} {m : AuthMessage ρ}
    (hf : ∀ m', m'.state = .prepared → m'.payload = m.payload →
      ((prepareHeaders c alg kid).run m.buckets).1 = .ok m'.protectedRaw →
      (f ()).Leaves m' fun r m'' =>
        (r.isOk = true → pair = some (m''.protectedRaw, m''.result)) ∧
        (r.isOk = false → m''.state = .prepared)) :
    (k.prepareOwnHeaders c alg kid >>= f).Leaves m fun r m' =>
      Outcome ((k.prepareOwnHeaders c alg kid).run m).1.isOk pair m r.isOk m' := by
  refine (prepareFirst_leaves hf).mono fun r m' h => ⟨fun hok => ?_, fun hfailed hpast => ?_,
    fun _ hpast => (h.2 hpast).2⟩
  · by_cases hpast : ((k.prepareOwnHeaders c alg kid).run m).1.isOk = true
    · exact (h.1 hpast).1 hok
    · rw [(h.2 (Bool.not_eq_true _ ▸ hpast)).1] at hok
      cases hok
  · rw [(h.1 hpast).2 hfailed]
    rintro ⟨⟩

theorem complete_leaves (alg : Option Label) (kid : Option Bytes)
    (create : Bytes → Except Error Bytes) (externalAad : Option Bytes) (m : AuthMessage ρ) :
    (k.complete c alg kid create externalAad).Leaves m fun r m' =>
      Outcome ((k.prepareOwnHeaders c alg kid).run m).1.isOk
        (AuthCall.pair k c (.complete alg kid create externalAad) m) m r.isOk m' := by
  refine completed_leaves fun m' hm hpayload hraw => ?_
  rw [Op.leaves_bind, Op.leaves_get]
  refine Op.leaves_lift_bind.mpr ⟨fun payload hp => ?_, fun _ _ => ⟨by rintro ⟨⟩, fun _ => hm⟩⟩
  refine Op.leaves_lift_bind.mpr ⟨fun structured hstructured => ?_,
    fun _ _ => ⟨by rintro ⟨⟩, fun _ => hm⟩⟩
  refine Op.leaves_lift_bind.mpr ⟨fun result hresult => ⟨fun _ => ?_, by rintro ⟨⟩⟩,
    fun _ _ => ⟨by rintro ⟨⟩, fun _ => hm⟩⟩
  rw [hpayload, requireEmbeddedPayload, Except.ofOption_eq_ok] at hp
  rw [AuthCall.pair, hp, Option.bind_some, AuthCall.madePair, hraw, Except.ok_bind, hstructured,
    Except.ok_bind, hresult]
  rfl

theorem completeDetached_leaves (alg : Option Label) (kid : Option Bytes)
    (create : Bytes → Except Error Bytes) (detachedPayload : Bytes)
    (externalAad : Option Bytes) (m : AuthMessage ρ) :
    (k.completeDetached c alg kid create detachedPayload externalAad).Leaves m fun r m' =>
      Outcome ((k.prepareOwnHeaders c alg kid).run m).1.isOk
        (AuthCall.pair k c (.completeDetached alg kid create detachedPayload externalAad) m) m
        r.isOk m' := by
  refine completed_leaves fun m' hm _ hraw => ?_
  rw [Op.leaves_bind, Op.leaves_get]
  refine Op.leaves_lift_bind.mpr ⟨fun structured hstructured => ?_,
    fun _ _ => ⟨by rintro ⟨⟩, fun _ => hm⟩⟩
  refine Op.leaves_lift_bind.mpr ⟨fun result hresult => ⟨fun _ => ?_, by rintro ⟨⟩⟩,
    fun _ _ => ⟨by rintro ⟨⟩, fun _ => hm⟩⟩
  rw [AuthCall.pair, AuthCall.madePair, hraw, Except.ok_bind, hstructured, Except.ok_bind, hresult]
  rfl

theorem setResult_leaves (result : Bytes) (m : AuthMessage ρ) :
    (k.setResult c result).Leaves m fun r m' =>
      Outcome false (AuthCall.pair k c (.setResult result) m) m r.isOk m' := by
  rw [setResult, Op.leaves_bind, Op.leaves_get]
  refine Op.leaves_lift_bind.mpr ⟨fun _ _ => ?_, fun _ _ => .of_sameCore (.refl m)⟩
  refine Op.leaves_lift_bind.mpr ⟨fun raw hraw => ⟨fun _ => ?_, by rintro ⟨⟩, by rintro ⟨⟩⟩,
    fun _ _ => .of_sameCore (.refl m)⟩
  rw [AuthCall.pair, hraw]
  rfl

/-- What is read holds the pair in the bytes it was read from. -/
theorem wirePair_of_fromSlice {data : Bytes} {limits : CborLimits} {m : AuthMessage ρ}
    (h : k.fromSliceWithLimits c data limits = .ok m) :
    AuthCall.wirePair k c data limits = .ok (m.protectedRaw, m.result) := by
  obtain ⟨body, w, tp, tu, tpayload, tresult, rest, hbody, hitem, hfields⟩ := fromSlice_reads h
  rw [AuthCall.wirePair, hbody, Except.ok_bind, hitem]
  show ((c.byteBuf tp).mapError Error.cbor >>= fun raw =>
    (c.byteBuf tresult).mapError Error.cbor >>= fun result => pure (raw, result)) = _
  rw [hfields.protectedRaw, hfields.result]
  rfl

/-- **What one call leaves behind.** -/
theorem run_outcome (call : AuthCall ρ) (m : AuthMessage ρ) :
    Outcome (call.drops k c m) (call.pair k c m) m (call.stores k c m) (call.run k c m) := by
  cases call with
  | new payload => exact ⟨by rintro ⟨⟩, fun _ _ => by rintro ⟨⟩, by rintro - ⟨⟩⟩
  | fromSlice data limits =>
    rw [AuthCall.run, AuthCall.stores, AuthCall.pair]
    cases hres : k.fromSliceWithLimits c data limits with
    | ok m' =>
      refine ⟨fun _ => ?_, by rintro ⟨⟩, by rintro ⟨⟩⟩
      rw [wirePair_of_fromSlice hres]
      rfl
    | error e => exact .of_sameCore (.refl m)
  | edit p u payload recipients => exact .of_sameCore ⟨rfl, rfl, rfl⟩
  | prepare alg kid externalAad => exact prepare_leaves alg kid externalAad m
  | prepareDetached alg kid detachedPayload externalAad =>
    exact prepareDetached_leaves alg kid detachedPayload externalAad m
  | setResult result => exact setResult_leaves result m
  | complete alg kid create externalAad => exact complete_leaves alg kid create externalAad m
  | completeDetached alg kid create detachedPayload externalAad =>
    exact completeDetached_leaves alg kid create detachedPayload externalAad m
  -- encoding takes the completed message by shared reference
  | completeAndEncode alg kid create externalAad =>
    rw [AuthCall.run, completeAndEncode, Op.run_bind_look]
    exact complete_leaves alg kid create externalAad m
  | completeDetachedAndEncode alg kid create detachedPayload externalAad =>
    rw [AuthCall.run, completeDetachedAndEncode, Op.run_bind_look]
    exact completeDetached_leaves alg kid create detachedPayload externalAad m
  | read => exact .of_sameCore (.refl m)

theorem step_holds {h : AuthMessage ρ × Option (Bytes × Bytes)} (hh : Holds h)
    (call : AuthCall ρ) : Holds (k.step c h call) := by
  have hcall := run_outcome (k := k) (c := c) call h.1
  rw [step]
  intro hcomplete
  by_cases hs : call.stores k c h.1 = true
  · rw [if_pos hs]
    exact hcall.stored hs
  · have hs' : call.stores k c h.1 = false := Bool.not_eq_true _ ▸ hs
    rw [if_neg hs]
    by_cases hd : call.drops k c h.1 = true
    · exact absurd hcomplete (hcall.dropped hs' hd)
    · obtain ⟨hstate, hraw, hresult⟩ := hcall.kept hs' (Bool.not_eq_true _ ▸ hd)
      rw [if_neg hd]
      rw [show (call.run k c h.1).state = h.1.state from hstate] at hcomplete
      rw [hh hcomplete, hraw, hresult]

/-- In every run, a complete message holds the pair that was stored last. -/
theorem history_holds (calls : List (AuthCall ρ)) : Holds (k.history c calls) := by
  have hrun (h : AuthMessage ρ × Option (Bytes × Bytes)) (hh : Holds h) :
      Holds (calls.foldl (k.step c) h) := by
    induction calls generalizing h with
    | nil => exact hh
    | cons call calls ih => exact ih _ (step_holds hh call)
  exact hrun _ (by rintro ⟨⟩)

theorem encode_ok {m : AuthMessage ρ} {tagPrefix b : Bytes} :
    k.encode c m tagPrefix = .ok b ↔ m.state = .complete ∧
      k.validateRecipients m.recipients = .ok () ∧
      LayerOk c m.protectedHeader m.unprotectedHeader m.protectedRaw ∧
      ∃ unprotected, headerRaw c m.unprotectedHeader = .ok unprotected ∧
        ∃ recipients, k.writeRecipients m.recipients = .ok recipients ∧
          encodePrefixed c tagPrefix ([.value (.bytes m.protectedRaw), .raw unprotected,
            payloadPart m.payload, .value (.bytes m.result)] ++ recipients) = .ok b := by
  rw [encode, Except.seq_eq_ok, Except.seq_eq_ok, Except.seq_eq_ok, requireComplete_ok,
    validateLayer_ok]
  simp only [Except.bind_eq_ok]

/-- In every run, what is encoded is the pair that was stored last. -/
theorem history_emitsStored (calls : List (AuthCall ρ)) :
    k.EmitsStored c (k.history c calls) := by
  intro tagPrefix b h
  obtain ⟨hstate, -, hlayer, unprotected, -, recipients, -, hencoded⟩ := encode_ok.mp h
  obtain ⟨out, hout, hb⟩ := encodePrefixed_ok hencoded
  exact ⟨_, _, history_holds calls hstate, hlayer.denotes, unprotected, recipients, out, hout, hb⟩

/-- Calls that store nothing leave nothing stored where nothing was. -/
theorem pair_of_storesNothing {h : AuthMessage ρ × Option (Bytes × Bytes)} (hnone : h.2 = none)
    {calls : List (AuthCall ρ)} (hcalls : k.StoresNothing c h.1 calls) :
    (calls.foldl (k.step c) h).2 = none := by
  induction calls generalizing h with
  | nil => exact hnone
  | cons call calls ih =>
    obtain ⟨hcall, hcalls⟩ := hcalls
    refine ih ?_ hcalls
    show (if call.stores k c h.1 then call.pair k c h.1 else if call.drops k c h.1 then none
      else h.2) = none
    rw [hcall, hnone, if_neg Bool.false_ne_true, ite_self]

/-- **Only what was stored together is encoded.** -/
theorem encodesOnlyStored (k : AuthType ρ) (c : Cbor2) : k.EncodesOnlyStored c where
  emits := history_emitsStored
  unfinished calls call later hstores hdrops hlater tagPrefix b hb := by
    obtain ⟨raw, result, hpair, -⟩ := history_emitsStored (calls ++ call :: later) tagPrefix b hb
    have hnone : (k.step c (k.history c calls) call).2 = none := by
      show (if _ then _ else if _ then none else _) = none
      rw [hstores, hdrops, if_neg Bool.false_ne_true, if_pos rfl]
    rw [history, List.foldl_append, List.foldl_cons] at hpair
    cases (pair_of_storesNothing hnone hlater).symm.trans hpair
  edited calls raw result hpair hnot tagPrefix b hb := by
    obtain ⟨raw', result', hpair', hdenotes, -⟩ := history_emitsStored calls tagPrefix b hb
    cases hpair.symm.trans hpair'
    exact hnot hdenotes

end AuthType
end Cose2
