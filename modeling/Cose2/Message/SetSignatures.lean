import Cose2.Message.SignSlots

/-! # Storing signatures from outside

`SignMessage::set_signatures` completes the body first and then one slot after the
other, and each slot has a check of its own that may fail.  What has been completed by
then stays completed, so a failed call does not leave the message untouched
(`not_allOrNothing`).  `Stored` and `Stopped` say what a call leaves: all slots hold
their signatures, or the slots in front of the first that fails its check do.
-/
namespace Cose2

open Cbor

variable {c : Cbor2}

/-! ### One layer -/

/-- The protected bytes that are kept, or made, denote the protected header. -/
theorem syncProtectedRaw_denotes {p u : Header} {raw raw' : Bytes} {state : OperationState}
    (h : syncProtectedRaw c p u raw state = .ok raw') : DenotesHeader c raw' p := by
  unfold syncProtectedRaw at h
  by_cases hnew : state = .new
  · rw [if_pos hnew, Except.seq_eq_ok] at h
    exact ⟨raw', h.2, .inl rfl⟩
  · rw [if_neg hnew, Except.seq_eq_ok, Except.pure_eq_ok, validateLayer_ok] at h
    obtain ⟨hlayer, rfl⟩ := h
    exact hlayer.denotes

/-- Bytes that were prepared are kept. -/
theorem syncProtectedRaw_kept {p u : Header} {raw raw' : Bytes} {state : OperationState}
    (h : syncProtectedRaw c p u raw state = .ok raw') (hstate : state ≠ .new) : raw' = raw := by
  rw [syncProtectedRaw, if_neg hstate, Except.seq_eq_ok, Except.pure_eq_ok] at h
  exact h.2.symm

namespace Signature

/-- What `set_signature` makes of a slot that passes its check. -/
structure Completed (c : Cbor2) (signature : Bytes) (s s' : Signature) : Prop where
  protectedHeader : s'.protectedHeader = s.protectedHeader
  unprotectedHeader : s'.unprotectedHeader = s.unprotectedHeader
  signature : s'.signature = signature
  state : s'.state = .complete
  denotes : DenotesHeader c s'.protectedRaw s'.protectedHeader
  kept : s.state ≠ .new → s'.protectedRaw = s.protectedRaw

/-- The check in front of a slot. -/
def Checks (c : Cbor2) (s : Signature) : Prop :=
  ∃ raw, syncProtectedRaw c s.protectedHeader s.unprotectedHeader s.protectedRaw s.state = .ok raw

/-- A slot is completed, or fails its check and stays as it is. -/
theorem setSignature_leaves (signature : Bytes) (s : Signature) :
    (setSignature c signature).Leaves s fun r s' =>
      (r = .ok () ∧ Checks c s ∧ Completed c signature s s') ∨
        (r.isOk = false ∧ ¬ Checks c s ∧ s' = s) := by
  rw [setSignature, Op.leaves_bind, Op.leaves_get]
  refine Op.leaves_lift_bind.mpr ⟨fun raw hraw => .inl ⟨rfl, ⟨raw, hraw⟩, ?_⟩, fun e he => ?_⟩
  · exact ⟨rfl, rfl, rfl, rfl, syncProtectedRaw_denotes hraw, syncProtectedRaw_kept hraw⟩
  · refine .inr ⟨rfl, ?_, rfl⟩
    rintro ⟨raw, hraw⟩
    rw [he] at hraw
    cases hraw

end Signature

namespace SignMessage

/-! ### All slots -/

/-- Every slot is completed with its signature. -/
def SlotsStored (c : Cbor2) (signatures : List Bytes) (slots slots' : List Signature) : Prop :=
  slots.length = signatures.length ∧ List.Forall₂ (fun (e : Bytes × Signature) s' =>
    Signature.Completed c e.1 e.2 s') (signatures.zip slots) slots'

/-- The slots in front of the first one that fails its check are completed, and it and
the slots behind it stay as they are. -/
def SlotsStopped (c : Cbor2) (signatures : List Bytes) (slots slots' : List Signature) : Prop :=
  ∃ before failing behind before', slots = before ++ failing :: behind ∧
    slots' = before' ++ failing :: behind ∧ ¬ Signature.Checks c failing ∧
    List.Forall₂ (fun (e : Bytes × Signature) s' => Signature.Completed c e.1 e.2 s')
      (signatures.zip before) before' ∧ before.length = before'.length

theorem setSlots_leaves {signatures : List Bytes} {slots : List Signature}
    (hlength : signatures.length = slots.length) :
    ((setSlots c signatures slots).1 = .ok () ∧
        SlotsStored c signatures slots (setSlots c signatures slots).2) ∨
      ((setSlots c signatures slots).1.isOk = false ∧
        SlotsStopped c signatures slots (setSlots c signatures slots).2) := by
  induction slots generalizing signatures with
  | nil =>
    obtain rfl := List.length_eq_zero_iff.mp hlength
    exact .inl ⟨rfl, rfl, .nil⟩
  | cons slot slots ih =>
    rcases signatures with _ | ⟨signature, signatures⟩
    · cases hlength
    have hslot := Signature.setSignature_leaves (c := c) signature slot
    rw [Op.Leaves] at hslot
    rw [setSlots]
    generalize (Signature.setSignature c signature).run slot = outcome at hslot ⊢
    obtain ⟨r, slot'⟩ := outcome
    rcases hslot with ⟨hr, hchecks, hcompleted⟩ | ⟨hr, hfails, hsame⟩
    · obtain rfl : r = .ok () := hr
      rcases ih (Nat.succ.inj hlength) with ⟨hok, hlen, hrest⟩ | ⟨herr, hrest⟩
      · exact .inl ⟨hok, by simp [hlen], .cons hcompleted hrest⟩
      · obtain ⟨before, failing, behind, before', hslots, hslots', hfails, hbefore, hlen⟩ := hrest
        refine .inr ⟨herr, slot :: before, failing, behind, slot' :: before', ?_, ?_, hfails,
          .cons hcompleted hbefore, by simp [hlen]⟩
        · rw [hslots, List.cons_append]
        · show slot' :: (setSlots c signatures slots).2 = _
          rw [hslots', List.cons_append]
    · cases r with
      | ok _ => cases hr
      | error e =>
        obtain rfl : slot' = slot := hsame
        exact .inr ⟨rfl, [], slot', slots, [], rfl, rfl, hfails, .nil, rfl⟩

/-! ### The call -/

/-- The check in front of the body. -/
def Checks (c : Cbor2) (m : SignMessage) : Prop :=
  ∃ raw, syncProtectedRaw c m.protectedHeader m.unprotectedHeader m.protectedRaw m.state = .ok raw

/-- The body's protected bytes after its check. -/
structure BodyReady (c : Cbor2) (m m' : SignMessage) : Prop where
  protectedHeader : m'.protectedHeader = m.protectedHeader
  unprotectedHeader : m'.unprotectedHeader = m.unprotectedHeader
  payload : m'.payload = m.payload
  denotes : DenotesHeader c m'.protectedRaw m'.protectedHeader
  kept : m.state ≠ .new → m'.protectedRaw = m.protectedRaw

/-- All signatures have been stored. -/
structure Stored (c : Cbor2) (signatures : List Bytes) (m m' : SignMessage) : Prop where
  body : BodyReady c m m'
  slots : SlotsStored c signatures m.signatures m'.signatures
  state : m'.state = .complete

/-- The call has stopped at a slot. -/
structure Stopped (c : Cbor2) (signatures : List Bytes) (m m' : SignMessage) : Prop where
  body : BodyReady c m m'
  slots : SlotsStopped c signatures m.signatures m'.signatures
  state : m'.state = m.state

/-- There is one signature for each slot, and the body passes its check. -/
def Starts (c : Cbor2) (signatures : List Bytes) (m : SignMessage) : Prop :=
  signatures ≠ [] ∧ signatures.length = m.signatures.length ∧ Checks c m

theorem setSignatures_leaves (signatures : List Bytes) (m : SignMessage) :
    (setSignatures c signatures).Leaves m fun r m' =>
      (r = .ok () ∧ Starts c signatures m ∧ Stored c signatures m m') ∨
        (r.isOk = false ∧ Starts c signatures m ∧ Stopped c signatures m m') ∨
        (r.isOk = false ∧ ¬ Starts c signatures m ∧ m' = m) := by
  rw [setSignatures, Op.leaves_bind, Op.leaves_get]
  refine Op.leaves_lift_bind.mpr ⟨fun _ hsome => ?_, fun e he => .inr (.inr ⟨rfl, ?_, rfl⟩)⟩
  · refine Op.leaves_lift_bind.mpr ⟨fun _ hcount => ?_, fun e he => .inr (.inr ⟨rfl, ?_, rfl⟩)⟩
    · rw [Except.failIf_eq_ok, not_not] at hcount
      rw [Except.failIf_eq_ok, List.isEmpty_iff] at hsome
      refine Op.leaves_lift_bind.mpr ⟨fun raw hraw => ?_, fun e he => .inr (.inr ⟨rfl, ?_, rfl⟩)⟩
      · have hstarts : Starts c signatures m := ⟨hsome, hcount, raw, hraw⟩
        have hbody (slots : List Signature) (state : OperationState) :
            BodyReady c m { m with protectedRaw := raw, signatures := slots, state } :=
          ⟨rfl, rfl, rfl, syncProtectedRaw_denotes hraw, syncProtectedRaw_kept hraw⟩
        rw [Op.leaves_bind, Op.leaves_modify, Op.leaves_bind, Op.leaves_on, Op.leaves_of]
        have hslots := setSlots_leaves (c := c) hcount
        generalize setSlots c signatures m.signatures = outcome at hslots ⊢
        obtain ⟨r, slots⟩ := outcome
        rcases hslots with ⟨hr, hslots⟩ | ⟨hr, hslots⟩
        · obtain rfl : r = .ok () := hr
          exact .inl ⟨rfl, hstarts, hbody slots .complete, hslots, rfl⟩
        · cases r with
          | ok _ => cases hr
          | error e => exact .inr (.inl ⟨rfl, hstarts, hbody slots m.state, hslots, rfl⟩)
      · rintro ⟨-, -, raw, hraw⟩
        rw [he] at hraw
        cases hraw
    · rintro ⟨-, hlength, -⟩
      rw [Except.failIf, if_neg (not_not.mpr hlength)] at he
      cases he
  · rintro ⟨hne, -, -⟩
    rw [Except.failIf, if_neg (by rwa [List.isEmpty_iff])] at he
    cases he

/-- What a call of `set_signatures` leaves behind: a failed one stops where `Left` says. -/
structure StoresSignatures (c : Cbor2) (Left : List Bytes → SignMessage → SignMessage → Prop) :
    Prop where
  ok : ∀ (signatures : List Bytes) (m : SignMessage),
    ((setSignatures c signatures).run m).1 = .ok () →
      Stored c signatures m ((setSignatures c signatures).run m).2
  error : ∀ (signatures : List Bytes) (m : SignMessage),
    ((setSignatures c signatures).run m).1.isOk = false →
      Left signatures m ((setSignatures c signatures).run m).2

/-- Nothing has changed, if the call does not get to the slots; otherwise it has stopped
at one of them. -/
def LeftBehind (c : Cbor2) (signatures : List Bytes) (m m' : SignMessage) : Prop :=
  (Starts c signatures m ∧ Stopped c signatures m m') ∨ (¬ Starts c signatures m ∧ m' = m)

/-- **A call that succeeds has stored every signature; one that fails has changed nothing
but the body's protected bytes and the slots in front of the one that failed.** -/
theorem storesSignatures (c : Cbor2) : StoresSignatures c (LeftBehind c) where
  ok signatures m h := by
    have hleaves := setSignatures_leaves (c := c) signatures m
    rw [Op.Leaves, h] at hleaves
    rcases hleaves with ⟨_, _, hstored⟩ | ⟨hr, _⟩ | ⟨hr, _⟩
    · exact hstored
    · cases hr
    · cases hr
  error signatures m h := by
    rcases setSignatures_leaves (c := c) signatures m with ⟨hr, _⟩ | ⟨_, hstarts, hstopped⟩ |
      ⟨_, hstarts, hsame⟩
    · rw [hr] at h
      cases h
    · exact .inl ⟨hstarts, hstopped⟩
    · exact .inr ⟨hstarts, hsame⟩

/-- A message with a slot that can be completed in front of one that cannot, whose
critical labels are in the unprotected header. -/
def halfValid : SignMessage :=
  let unprotectedHeader := BTreeMap.ofList [(Iana.headerParameterCrit, .array [.text "x"])]
  { signatures := [.new, { unprotectedHeader }] }

/-- The call fails, but its first slot has been signed. -/
theorem not_allOrNothing : ¬ StoresSignatures Cbor2.reference fun _ m m' => m' = m := by
  intro h
  have hsame := h.error [[1], [2]] halfValid rfl
  have hfirst : (((setSignatures Cbor2.reference [[1], [2]]).run halfValid).2.signatures.map
      Signature.signature) = [[1], []] := rfl
  rw [hsame] at hfirst
  cases hfirst

end SignMessage
end Cose2
