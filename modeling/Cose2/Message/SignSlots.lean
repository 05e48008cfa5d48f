import Cose2.Layer
import Cose2.Message.Sign

/-! # Slots that nobody signed

`SignMessage::encode` checks its own state and the headers of every slot, but not
the state of a slot.  A slot that was never prepared has empty protected bytes, so
the header check refuses it unless its protected header is empty as well; a
prepared slot always passes.  These two kinds of slots can be encoded without a
signature, and no others.
-/
namespace Cose2

open Cbor

/-! ### What callers can build -/

mutual
/-- The slots a caller can come to hold, with any edits of their public fields. -/
inductive Signature.Reachable (c : Cbor2) : Signature → Prop where
  | new : Signature.Reachable c .new
  | withAlgKid (alg : Option Label) (kid : Option Bytes) :
    Signature.Reachable c (.withAlgKid alg kid)
  | edit {s : Signature} (h : Signature.Reachable c s) (p u : Header) :
    Signature.Reachable c { s with protectedHeader := p, unprotectedHeader := u }
  | setSignature {s : Signature} (h : Signature.Reachable c s) (signature : Bytes) :
    Signature.Reachable c ((Signature.setSignature c signature).run s).2
  /-- A slot of a message can be cloned or moved out of it. -/
  | taken {m : SignMessage} (h : SignMessage.Reachable c m) {s : Signature}
    (hs : s ∈ m.signatures) : Signature.Reachable c s

/-- The messages that calls, successful or not, and edits of the public fields lead to. -/
inductive SignMessage.Reachable (c : Cbor2) : SignMessage → Prop where
  | new (payload : Option Bytes) : SignMessage.Reachable c (.new payload)
  | fromSlice {data : Bytes} {m : SignMessage} (h : SignMessage.fromSlice c data = .ok m) :
    SignMessage.Reachable c m
  | edit {m : SignMessage} (h : SignMessage.Reachable c m) (p u : Header)
    (payload : Option Bytes) :
    SignMessage.Reachable c { m with protectedHeader := p, unprotectedHeader := u, payload }
  | editSlots {m : SignMessage} (h : SignMessage.Reachable c m) (slots : List Signature)
    (hs : ∀ s ∈ slots, Signature.Reachable c s) :
    SignMessage.Reachable c { m with signatures := slots }
  | prepareSignatures {m : SignMessage} (h : SignMessage.Reachable c m)
    (slots : List Signature) (hs : ∀ s ∈ slots, Signature.Reachable c s)
    (externalAad : Option Bytes) :
    SignMessage.Reachable c ((SignMessage.prepareSignatures c slots externalAad).run m).2
  | prepareDetachedSignatures {m : SignMessage} (h : SignMessage.Reachable c m)
    (slots : List Signature) (hs : ∀ s ∈ slots, Signature.Reachable c s)
    (detachedPayload : Bytes) (externalAad : Option Bytes) : SignMessage.Reachable c
      ((SignMessage.prepareDetachedSignatures c slots detachedPayload externalAad).run m).2
  | setSignatures {m : SignMessage} (h : SignMessage.Reachable c m) (signatures : List Bytes) :
    SignMessage.Reachable c ((SignMessage.setSignatures c signatures).run m).2
  | sign {m : SignMessage} (h : SignMessage.Reachable c m) (signers : List Signer)
    (externalAad : Option Bytes) :
    SignMessage.Reachable c ((SignMessage.sign c signers externalAad).run m).2
  | signDetached {m : SignMessage} (h : SignMessage.Reachable c m) (signers : List Signer)
    (detachedPayload : Bytes) (externalAad : Option Bytes) : SignMessage.Reachable c
      ((SignMessage.signDetached c signers detachedPayload externalAad).run m).2
  | signAndEncode {m : SignMessage} (h : SignMessage.Reachable c m) (signers : List Signer)
    (externalAad : Option Bytes) :
    SignMessage.Reachable c ((SignMessage.signAndEncode c signers externalAad).run m).2
  | signDetachedAndEncode {m : SignMessage} (h : SignMessage.Reachable c m)
    (signers : List Signer) (detachedPayload : Bytes) (externalAad : Option Bytes) :
    SignMessage.Reachable c
      ((SignMessage.signDetachedAndEncode c signers detachedPayload externalAad).run m).2
end

/-! ### New slots have no protected bytes -/

/-- A slot that was neither prepared nor completed has no protected bytes. -/
def Signature.Untouched (s : Signature) : Prop := s.state = .new → s.protectedRaw = []

/-- That holds of every slot of a message. -/
def SignMessage.Untouched (m : SignMessage) : Prop := ∀ s ∈ m.signatures, s.Untouched

section Steps

variable {c : Cbor2}

theorem Signature.keeps_setSignature (signature : Bytes) :
    Op.Keeps Signature.Untouched (Signature.setSignature c signature) :=
  .bind Op.keeps_get fun _ => .bind (Op.keeps_lift _) fun _ =>
    Op.keeps_modify fun _ _ => by rintro ⟨⟩

theorem Signature.prepared_state {s s' : Signature} (h : s.prepared c = .ok s') :
    s'.state = .prepared := by
  rw [Signature.prepared, Except.seq_eq_ok, Except.bind_eq_ok] at h
  obtain ⟨-, raw, -, h⟩ := h
  cases h
  rfl

theorem Signature.decoded_state {s s' : Signature} (h : s.decoded c = .ok s') :
    s'.state = .complete := by
  rw [Signature.decoded, Except.bind_eq_ok] at h
  obtain ⟨p, -, h⟩ := h
  rw [Except.seq_eq_ok] at h
  cases h.2
  rfl

namespace SignMessage

theorem keeps_prepareSignatureHeaders (signatures : List Signature) :
    Op.Keeps Untouched (prepareSignatureHeaders c signatures) := by
  refine .bind Op.keeps_get fun _ => .bind (Op.keeps_lift _) fun _ => .bind (Op.keeps_lift _)
    fun _ => .bind (Op.keeps_lift _) fun _ => Op.keeps_lift_bind fun slots hslots =>
    Op.keeps_modify fun m _ s hs hnew => ?_
  obtain ⟨s', -, hs'⟩ := Tree.forall₂_mem_right (Except.mapM_eq_ok.mp hslots) hs
  rw [Signature.prepared_state hs'] at hnew
  cases hnew

theorem keeps_prepareSignatures (signatures : List Signature) (externalAad : Option Bytes) :
    Op.Keeps Untouched (prepareSignatures c signatures externalAad) :=
  .bind (keeps_prepareSignatureHeaders signatures) fun _ => .bind Op.keeps_get fun _ =>
    .bind (Op.keeps_lift _) fun _ => Op.keeps_lift _

theorem keeps_prepareDetachedSignatures (signatures : List Signature) (detachedPayload : Bytes)
    (externalAad : Option Bytes) :
    Op.Keeps Untouched (prepareDetachedSignatures c signatures detachedPayload externalAad) :=
  .bind (keeps_prepareSignatureHeaders signatures) fun _ => .bind Op.keeps_get fun _ =>
    .bind (Op.keeps_lift _) fun _ => .bind (Op.keeps_modify fun _ h => h) fun _ =>
    Op.keeps_pure _

theorem setSlots_untouched {slots : List Signature} {signatures : List Bytes}
    (h : ∀ s ∈ slots, s.Untouched) : ∀ s ∈ (setSlots c signatures slots).2, s.Untouched := by
  induction slots generalizing signatures with
  | nil => cases signatures <;> simp [setSlots]
  | cons slot slots ih =>
    cases signatures with
    | nil => exact h
    | cons signature signatures =>
      rw [List.forall_mem_cons] at h
      have hslot := Signature.keeps_setSignature (c := c) signature slot h.1
      rw [Op.Leaves] at hslot
      rw [setSlots]
      generalize (Signature.setSignature c signature).run slot = outcome at hslot ⊢
      obtain ⟨r, slot'⟩ := outcome
      cases r with
      | ok _ => exact List.forall_mem_cons.mpr ⟨hslot, ih h.2⟩
      | error _ => exact List.forall_mem_cons.mpr ⟨hslot, h.2⟩

theorem keeps_setSignatures (signatures : List Bytes) :
    Op.Keeps Untouched (setSignatures c signatures) := by
  refine .bind Op.keeps_get fun _ => .bind (Op.keeps_lift _) fun _ => .bind (Op.keeps_lift _)
    fun _ => .bind (Op.keeps_lift _) fun _ => .bind (Op.keeps_modify fun _ h => h) fun _ =>
    .bind ?_ fun _ => Op.keeps_modify fun _ h => h
  intro m hm
  rw [Op.leaves_on]
  exact setSlots_untouched hm

theorem keeps_signWithPayload (signers : List Signer) (detachedPayload : Option Bytes)
    (externalAad : Bytes) :
    Op.Keeps Untouched (signWithPayload c signers detachedPayload externalAad) := by
  refine .bind (Op.keeps_lift _) fun _ => .bind (keeps_prepareSignatureHeaders _) fun _ =>
    .bind Op.keeps_get fun _ => .bind (Op.keeps_lift _) fun _ => .bind (Op.keeps_lift _)
    fun signatures => Op.keeps_modify fun m _ s hs hnew => ?_
  -- every slot that is left has been completed
  rw [List.zipWith_eq_zipWith_take_min, List.mem_iff_getElem] at hs
  obtain ⟨i, hi, rfl⟩ := hs
  rw [List.getElem_zipWith] at hnew
  cases hnew

theorem keeps_sign (signers : List Signer) (externalAad : Option Bytes) :
    Op.Keeps Untouched (sign c signers externalAad) :=
  keeps_signWithPayload _ _ _

theorem keeps_signDetached (signers : List Signer) (detachedPayload : Bytes)
    (externalAad : Option Bytes) :
    Op.Keeps Untouched (signDetached c signers detachedPayload externalAad) :=
  .bind (keeps_signWithPayload _ _ _) fun _ => Op.keeps_modify fun _ h => h

theorem fromSlice_untouched {data : Bytes} {m : SignMessage} (h : fromSlice c data = .ok m) :
    m.Untouched := by
  rw [fromSlice, Except.bind_eq_ok] at h
  obtain ⟨body, -, h⟩ := h
  obtain ⟨wire, -, h⟩ := Except.bind_eq_ok.mp h
  obtain ⟨-, h⟩ := Except.seq_eq_ok.mp h
  obtain ⟨p, -, h⟩ := Except.bind_eq_ok.mp h
  obtain ⟨-, h⟩ := Except.seq_eq_ok.mp h
  obtain ⟨slots, hslots, h⟩ := Except.bind_eq_ok.mp h
  cases h
  intro s hs hnew
  obtain ⟨s', -, hs'⟩ := Tree.forall₂_mem_right (Except.mapM_eq_ok.mp hslots) hs
  rw [Signature.decoded_state hs'] at hnew
  cases hnew

end SignMessage

/-! ### Runs -/

/-- The slots of every run, in a message and taken out of one. -/
theorem SignMessage.Reachable.untouched {m : SignMessage} (h : SignMessage.Reachable c m) :
    m.Untouched := by
  refine SignMessage.Reachable.rec (motive_1 := fun s _ => s.Untouched)
    (motive_2 := fun m _ => m.Untouched) ?new ?withAlgKid ?edit ?setSignature ?taken ?newMessage
    ?fromSlice ?editMessage ?editSlots ?prepareSignatures ?prepareDetachedSignatures
    ?setSignatures ?sign ?signDetached ?signAndEncode ?signDetachedAndEncode h
  case new => exact fun _ => rfl
  case withAlgKid => exact fun _ _ _ => rfl
  case edit => exact fun _ _ _ ih => ih
  case setSignature => exact fun _ signature ih => Signature.keeps_setSignature signature _ ih
  case taken => exact fun _ s hs ih => ih s hs
  case newMessage => simp [SignMessage.Untouched, SignMessage.new]
  case fromSlice => exact fun h => SignMessage.fromSlice_untouched h
  case editMessage => exact fun _ _ _ _ ih => ih
  case editSlots => exact fun _ _ _ _ ih => ih
  case prepareSignatures =>
    exact fun _ slots _ externalAad ih _ =>
      SignMessage.keeps_prepareSignatures slots externalAad _ ih
  case prepareDetachedSignatures =>
    exact fun _ slots _ detachedPayload externalAad ih _ =>
      SignMessage.keeps_prepareDetachedSignatures slots detachedPayload externalAad _ ih
  case setSignatures =>
    exact fun _ signatures ih => SignMessage.keeps_setSignatures signatures _ ih
  case sign =>
    exact fun _ signers externalAad ih => SignMessage.keeps_sign signers externalAad _ ih
  case signDetached =>
    exact fun _ signers detachedPayload externalAad ih =>
      SignMessage.keeps_signDetached signers detachedPayload externalAad _ ih
  case signAndEncode =>
    exact fun _ signers externalAad ih => Op.Keeps.bind
      (SignMessage.keeps_sign signers externalAad)
      (fun _ => .bind Op.keeps_get fun _ => Op.keeps_lift _) _ ih
  case signDetachedAndEncode =>
    exact fun _ signers detachedPayload externalAad ih => Op.Keeps.bind
      (SignMessage.keeps_signDetached signers detachedPayload externalAad)
      (fun _ => .bind Op.keeps_get fun _ => Op.keeps_lift _) _ ih

/-! ### Encoding -/

/-- A slot that was never signed and still passes the header check: one that is
prepared, or a new one with an empty protected header. -/
def Signature.Unsigned (s : Signature) : Prop :=
  s.state = .prepared ∨ (s.state = .new ∧ s.protectedHeader.entries = [])

namespace SignMessage

/-- Every slot is complete. -/
def AllComplete (m : SignMessage) : Prop := ∀ s ∈ m.signatures, s.state = .complete

theorem encode_ok {m : SignMessage} {tagPrefix b : Bytes} :
    m.encode c tagPrefix = .ok b ↔ m.state = .complete ∧ m.signatures ≠ [] ∧
      LayerOk c m.protectedHeader m.unprotectedHeader m.protectedRaw ∧
      (∀ s ∈ m.signatures, LayerOk c s.protectedHeader s.unprotectedHeader s.protectedRaw) ∧
      ∃ unprotected, headerRaw c m.unprotectedHeader = .ok unprotected ∧
        ∃ signatures,
          canonicalRaw c (.array <$> m.signatures.mapM Signature.serialize) = .ok signatures ∧
          encodePrefixed c tagPrefix [.value (.bytes m.protectedRaw), .raw unprotected,
            payloadPart m.payload, .raw signatures] = .ok b := by
  rw [encode, Except.seq_eq_ok, Except.seq_eq_ok, Except.seq_eq_ok, Except.seq_eq_ok,
    requireComplete_ok, Except.failIf_eq_ok, List.isEmpty_iff, validateLayer_ok,
    Except.forM_eq_ok]
  simp only [Except.bind_eq_ok, validateLayer_ok, ne_eq]

/-- A new slot that is encoded has an empty protected header. -/
theorem unsigned_of_encode {m : SignMessage} (hm : SignMessage.Reachable c m)
    {tagPrefix b : Bytes} (h : m.encode c tagPrefix = .ok b) {s : Signature}
    (hs : s ∈ m.signatures) (hstate : s.state ≠ .complete) : s.Unsigned := by
  rcases hnew : s.state with _ | _ | _
  · obtain ⟨-, -, -, hslots, -⟩ := encode_ok.mp h
    have hlayer := hslots s hs
    rw [hm.untouched s hs hnew] at hlayer
    exact .inr ⟨hnew, denotesHeader_nil.mp hlayer.denotes⟩
  · exact .inl hnew
  · exact absurd hnew hstate

/-- **What is encoded is signed exactly when no slot is left prepared, or new with an
empty protected header.** -/
theorem encode_allComplete_iff {m : SignMessage} (hm : SignMessage.Reachable c m)
    (tagPrefix b : Bytes) (h : m.encode c tagPrefix = .ok b) :
    m.AllComplete ↔ ∀ s ∈ m.signatures, ¬ s.Unsigned := by
  constructor
  · intro hall s hs hunsigned
    have hstate := hall s hs
    rcases hunsigned with hprepared | ⟨hnew, -⟩
    · rw [hprepared] at hstate
      cases hstate
    · rw [hnew] at hstate
      cases hstate
  · intro hnone s hs
    by_contra hstate
    exact hnone s hs (unsigned_of_encode hm h hs hstate)

end SignMessage

end Steps

/-! ### A run that encodes an unsigned slot -/

namespace SignMessage

/-- In every run, what is encoded has complete slots only. -/
def EncodesSigned (c : Cbor2) : Prop :=
  ∀ m, SignMessage.Reachable c m → ∀ tagPrefix b, m.encode c tagPrefix = .ok b → m.AllComplete

/-- A message with one slot, which `set_signatures` completes. -/
def signedOnce : SignMessage :=
  ((setSignatures Cbor2.reference [[7]]).run { new (some [1]) with signatures := [.new] }).2

theorem reachable_signedOnce : SignMessage.Reachable Cbor2.reference signedOnce :=
  .setSignatures (.editSlots (.new _) [.new] fun s hs => by
    rw [List.mem_singleton.mp hs]
    exact .new) _

/-- The message of one signature, encoded. -/
theorem encode_allComplete_iff_signedOnce :
    signedOnce.AllComplete ↔ ∀ s ∈ signedOnce.signatures, ¬ s.Unsigned := by
  obtain ⟨b, hb⟩ := Except.isOk_iff.mp
    (show (signedOnce.encode Cbor2.reference []).isOk = true from rfl)
  exact encode_allComplete_iff reachable_signedOnce [] b hb

/-- The signed message with a new slot pushed on its list. -/
def pushed : SignMessage := { signedOnce with signatures := signedOnce.signatures ++ [.new] }

/-- The pushed slot is encoded without a signature. -/
theorem not_encodesSigned : ¬ EncodesSigned Cbor2.reference := by
  intro h
  have hreachable : SignMessage.Reachable Cbor2.reference pushed := by
    refine .editSlots reachable_signedOnce _ fun s hs => ?_
    rcases List.mem_append.mp hs with hs | hs
    · exact .taken reachable_signedOnce hs
    · rw [List.mem_singleton.mp hs]
      exact .new
  obtain ⟨b, hb⟩ := Except.isOk_iff.mp
    (show (pushed.encode Cbor2.reference []).isOk = true from rfl)
  have hnew := h pushed hreachable [] b hb .new (by simp [pushed])
  cases hnew

end SignMessage
end Cose2
