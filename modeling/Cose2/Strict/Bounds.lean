import Cose2.Panic
import Cose2.Strict.KnownTags
import Cose2.Strict.Ranges

/-! # No read out of bounds

`src/strict.rs` reads `children[i]` and `data[start..end]` without asking whether the index
or the range is there.  `Bounds` has the functions that do so once more, with reads that
panic where those of the source would.  On the trees that the parser returns they do not,
and so they are the functions that read on regardless.
-/
namespace Cose2.Strict

open Cbor Checked

namespace Bounds

/-- `item.children[i]`. -/
def child (item : Item) (i : Nat) : Checked Error Item := index item.children i

/-- `&data[item.start..item.end]`. -/
def bytesIn (data : Bytes) (item : Item) : Checked Error Bytes :=
  Checked.slice data item.start item.endPos

/-! ### Map keys -/

section Keys

variable (c : Cbor2)

/-- The argument that a head carries: `head[0]`, and `head[1..]` behind it. -/
def headArgument (head : Bytes) : Checked Error Nat := do
  let initial ← index head 0
  if initial.toNat % 32 ≤ 23 then return initial.toNat % 32
  else return beNat (← Checked.slice head 1 head.length)

/-- The part of `canonical_key` that looks at the head of a scalar. -/
def isPreferred (key : Item) (raw : Bytes) : Checked Error Bool := do
  let head ← Checked.slice raw 0 (← sub key.contentStart key.start)
  let argument ← headArgument head
  return decide (head.length = Parser.preferredLen argument)

/-- `Parser::canonical_key`. -/
def canonicalKey (p : Parser) (key : Item) : Checked Error Bytes := do
  let raw ← bytesIn p.data key
  let scalar := (key.kind = .unsigned ∨ key.kind = .negative) ∨
    ((key.kind = .bytes ∨ key.kind = .text) ∧ key.indefinite = false)
  let preferred ← if scalar then isPreferred key raw else pure false
  if preferred = true then return raw
  else lift (do c.canonicalVec (← c.fromSlice raw))

end Keys

/-! ### Byte strings -/

mutual
/-- `append_bytes`. -/
def appendBytes (data : Bytes) : Item → Bytes → Checked Error Bytes
  | .mk kind _ contentStart endPos indefinite children, output =>
    if kind ≠ .bytes then lift (.error (.unexpectedType "expected a CBOR byte string"))
    else if indefinite then appendChunks data children output
    else do
      let content ← Checked.slice data contentStart endPos
      return output ++ content

/-- `append_bytes` for each chunk. -/
def appendChunks (data : Bytes) : List Item → Bytes → Checked Error Bytes
  | [], output => pure output
  | chunk :: chunks, output => do appendChunks data chunks (← appendBytes data chunk output)
end

/-! ### The shape of messages -/

mutual
/-- `validate_recipient_shape`. -/
def validateRecipientShape : Item → Checked Error Unit
  | .mk kind start contentStart endPos indefinite children => do
    lift (requireKind (.mk kind start contentStart endPos indefinite children) .array
      "COSE_recipient")
    lift (Except.failIf (¬ (3 ≤ children.length ∧ children.length ≤ 4))
      (.unexpectedType "COSE_recipient must contain 3 or 4 elements"))
    lift (requireKind (← index children 0) .bytes "recipient protected header")
    lift (requireKind (← index children 1) .map "recipient unprotected header")
    lift (requireBytesOrNull (← index children 2) "recipient ciphertext")
    if children.length = 4 then validateNested children 3 else pure ()

/-- The nested recipients of a recipient, `children[i]`: the list is walked down to that
member, so that the recursion is on a part of it. -/
def validateNested : List Item → Nat → Checked Error Unit
  | [], i => do
    let _ ← index ([] : List Item) i
  | _ :: items, i + 1 => validateNested items i
  | .mk kind start contentStart endPos indefinite recipients :: _, 0 => do
    lift (requireKind (.mk kind start contentStart endPos indefinite recipients) .array
      "nested recipients")
    lift (Except.failIf (recipients = [])
      (.custom "nested recipients array must not be empty"))
    validateRecipientShapes recipients

/-- `validate_recipient_shape` for each recipient. -/
def validateRecipientShapes : List Item → Checked Error Unit
  | [] => pure ()
  | recipient :: recipients => do
    validateRecipientShape recipient
    validateRecipientShapes recipients
end

/-- `validate_recipients`. -/
def validateRecipients (item : Item) : Checked Error Unit := do
  lift (requireKind item .array "recipients")
  lift (Except.failIf (item.children = []) (.custom "recipients array must not be empty"))
  validateRecipientShapes item.children

/-- The shape of one `COSE_Signature`. -/
def validateSignatureShape (signature : Item) : Checked Error Unit := do
  lift (requireKind signature .array "COSE_Signature")
  lift (Except.failIf (signature.children.length ≠ 3)
    (.unexpectedType "COSE_Signature must contain 3 elements"))
  lift (requireKind (← child signature 0) .bytes "signature protected header")
  lift (requireKind (← child signature 1) .map "signature unprotected header")
  lift (requireKind (← child signature 2) .bytes "signature value")

/-- `validate_message_shape`: the elements behind the two headers. -/
def validateContentShape (item : Item) (tag : Nat) : Checked Error Unit :=
  match tag with
  | 16 => do lift (requireBytesOrNull (← child item 2) "ciphertext")
  | 17 => do
    lift (requireBytesOrNull (← child item 2) "payload")
    lift (requireKind (← child item 3) .bytes "MAC tag")
  | 18 => do
    lift (requireBytesOrNull (← child item 2) "payload")
    lift (requireKind (← child item 3) .bytes "signature")
  | 96 => do
    lift (requireBytesOrNull (← child item 2) "ciphertext")
    validateRecipients (← child item 3)
  | 97 => do
    lift (requireBytesOrNull (← child item 2) "payload")
    lift (requireKind (← child item 3) .bytes "MAC tag")
    validateRecipients (← child item 4)
  | 98 => do
    lift (requireBytesOrNull (← child item 2) "payload")
    let signatures ← child item 3
    lift (requireKind signatures .array "signatures")
    lift (Except.failIf (signatures.children = [])
      (.custom "signatures array must not be empty"))
    signatures.children.forM validateSignatureShape
  | _ => pure ()

/-- `validate_message_shape`. -/
def validateMessageShape (item : Item) (tag : Nat) : Checked Error Unit := do
  let expected ← lift (expectedElements tag)
  lift (Except.failIf (item.children.length ≠ expected) (.unexpectedType
    s!"COSE message with tag {tag} must contain {expected} elements"))
  lift (requireKind (← child item 0) .bytes "protected header")
  lift (requireKind (← child item 1) .map "unprotected header")
  validateContentShape item tag

/-! ### Tags -/

/-- Steps inside a tag with the given number, if the item is one. -/
def untag (item : Item) (tag : Nat) : Checked Error Item :=
  if item.kind = .tag tag then child item 0 else pure item

/-- Steps inside the tag of a message, if the item is one. -/
def untagMessage (item : Item) : Checked Error Item :=
  match item.kind with
  | .tag n => if isMessageTag n then child item 0 else pure item
  | _ => pure item

/-- The part of `message_body` that steps inside the tag of the message. -/
def insideTag (current : Item) (expectedTag : Nat) : Checked Error Item :=
  match current.kind with
  | .tag n =>
    if n = expectedTag then child current 0
    else lift (.error (.custom s!"unexpected CBOR tag for COSE message, expected {expectedTag}"))
  | _ => pure current

/-- The part of `message_body` behind the two outer tags. -/
def unwrapTag (cwtWrapped : Bool) (item : Item) (expectedTag : Nat) : Checked Error Item := do
  let current ← insideTag item expectedTag
  lift (Except.failIf (cwtWrapped = true ∧ item.kind ≠ .tag expectedTag)
    (.custom "CWT tag must wrap a tagged COSE message"))
  lift (Except.failIf (current.kind ≠ .array)
    (.unexpectedType "COSE message must be an array"))
  return current

section Users

variable (c : Cbor2)

/-- `independently_validated_array_members`. -/
def independentlyValidatedArrayMembers (data : Bytes) : Checked Error (List Bytes) := do
  let item ← lift (rootWithDuplicatePolicy c data {} false)
  lift (Except.failIf (item.kind ≠ .array) (.unexpectedType "expected a CBOR array"))
  item.children.mapM (bytesIn data)

/-- `decode_bytes`. -/
def decodeBytes (data : Bytes) : Checked Error Bytes := do
  let item ← lift (root c data {})
  lift (Except.failIf (item.kind ≠ .bytes) (.unexpectedType "expected a CBOR byte string"))
  appendBytes data item []

/-- `decode_optional_bytes`. -/
def decodeOptionalBytes (data : Bytes) : Checked Error (Option Bytes) := do
  let item ← lift (root c data {})
  if item.kind = .simple 22 then return none
  return some (← appendBytes data item [])

/-- `message_body`. -/
def messageBody (data : Bytes) (expectedTag : Nat) (limits : CborLimits) :
    Checked Error Bytes := do
  let item ← lift (root c data limits)
  let current ← untag item 55799
  let cwtWrapped := decide (current.kind = .tag 61)
  let current ← unwrapTag cwtWrapped (← untag current 61) expectedTag
  validateMessageShape current expectedTag
  bytesIn data current

/-- `tagged_body`. -/
def taggedBody (data : Bytes) (expectedTag : Nat) : Checked Error Bytes := do
  let item ← lift (root c data {})
  let current ← untag item 55799
  lift (Except.failIf (current.kind ≠ .tag expectedTag)
    (.custom s!"expected CBOR tag {expectedTag}"))
  bytesIn data (← child current 0)

/-- `remove_known_tags`. -/
def removeKnownTags (data : Bytes) : Checked Error Bytes := do
  let item ← lift (root c data {})
  let current ← untagMessage (← untag (← untag item 55799) 61)
  bytesIn data current

end Users

end Bounds

/-! ### Reads on sound trees -/

variable {data : Bytes} {item : Item}

theorem returns_bytesIn (h : item.Sound data) :
    Returns (Bounds.bytesIn data item) (.ok (item.bytesIn data)) :=
  returns_slice (h.inRange.head.le.trans h.inRange.content) h.inRange.bounded

theorem returns_child {i : Nat} (h : i < item.children.length) :
    Returns (Bounds.child item i) (.ok (item.child i)) := by
  apply returns_index
  rw [Item.child, List.getD_eq_getElem?_getD, List.getElem?_eq_getElem h]
  rfl

/-- A tag has the one child that its readers step to. -/
theorem sound_child {n : Nat} (h : item.Sound data) (hkind : item.kind = .tag n) :
    Returns (Bounds.child item 0) (.ok (item.child 0)) ∧ (item.child 0).Sound data := by
  obtain ⟨w, t, ch, -, -, hchildren, -⟩ := h.inRange.tagged n hkind
  refine ⟨returns_child (by rw [hchildren]; exact Nat.one_pos), h.child ?_⟩
  rw [Item.child, hchildren]
  exact List.mem_singleton_self _

/-! ### Map keys -/

theorem returns_headArgument {head : Bytes} (h : 0 < head.length) :
    Returns (Bounds.headArgument head) (.ok (Parser.headArgument head)) := by
  cases head with
  | nil => exact absurd h (Nat.lt_irrefl 0)
  | cons initial rest =>
    refine (returns_index (a := initial) rfl).bind_ok ?_
    rw [Parser.headArgument]
    by_cases himm : initial.toNat % 32 ≤ 23
    · rw [if_pos himm, if_pos himm]
      exact returns_pure
    · rw [if_neg himm, if_neg himm]
      refine (returns_slice (by simp) (le_refl _)).bind_ok ?_
      rw [List.length_cons, Nat.add_sub_cancel, List.drop_succ_cons, List.drop_zero,
        List.take_length]
      exact returns_pure

/-- The head of a key lies in its bytes, and has a byte at least. -/
theorem returns_isPreferred (h : item.Sound data) {head : Bytes}
    (hhead : head = (item.bytesIn data).take (item.contentStart - item.start)) :
    Returns (Bounds.isPreferred item (item.bytesIn data))
      (.ok (decide (head.length = Parser.preferredLen (Parser.headArgument head)))) := by
  obtain ⟨hstart, hcontent, hbounded, -⟩ := h.inRange
  have hlen : (item.bytesIn data).length = item.endPos - item.start := by
    rw [Item.bytesIn, slice, List.length_take, List.length_drop]
    omega
  have hpos : 0 < head.length := by
    rw [hhead, List.length_take]
    omega
  refine (returns_sub hstart.le).bind_ok ?_
  refine (returns_slice (Nat.zero_le _) (by omega)).bind_ok ?_
  rw [List.drop_zero, Nat.sub_zero, ← hhead]
  exact (returns_headArgument hpos).bind_ok returns_pure

theorem returns_canonicalKey (c : Cbor2) {p : Parser} (h : item.Sound p.data) :
    Returns (Bounds.canonicalKey c p item) (p.canonicalKey c item) := by
  refine (returns_bytesIn h).bind_ok ?_
  rw [Parser.canonicalKey]
  by_cases hscalar : (item.kind = .unsigned ∨ item.kind = .negative) ∨
      ((item.kind = .bytes ∨ item.kind = .text) ∧ item.indefinite = false)
  · simp only [hscalar, true_and]
    refine (returns_isPreferred h rfl).bind_ok ?_
    simp only [decide_eq_true_eq]
    exact Returns.ite (fun _ => returns_pure) fun _ => returns_lift
  · simp only [hscalar, false_and, if_false]
    exact returns_pure.bind_ok returns_lift

/-! ### Byte strings -/

mutual
theorem returns_appendBytes : ∀ (item : Item) (output : Bytes), item.Sound data →
    Returns (Bounds.appendBytes data item output) (appendBytes data item output)
  | .mk kind start contentStart endPos indefinite children, output, h => by
    rw [Bounds.appendBytes, appendBytes]
    refine Returns.ite (fun _ => returns_lift) fun _ => Returns.ite (fun _ => ?_) fun _ => ?_
    · exact returns_appendChunks children output fun chunk hc => h.child hc
    · exact (returns_slice h.inRange.content h.inRange.bounded).bind_ok returns_pure

theorem returns_appendChunks : ∀ (chunks : List Item) (output : Bytes),
    (∀ chunk ∈ chunks, chunk.Sound data) →
    Returns (Bounds.appendChunks data chunks output) (appendChunks data chunks output)
  | [], output, _ => by
    rw [Bounds.appendChunks, appendChunks]
    exact returns_pure
  | chunk :: chunks, output, h => by
    rw [List.forall_mem_cons] at h
    rw [Bounds.appendChunks, appendChunks]
    exact (returns_appendBytes chunk output h.1).bind fun output' _ =>
      returns_appendChunks chunks output' h.2
end

/-! ### The shape of messages

The validators compare lengths before they index, so that they need nothing of the tree. -/

theorem returns_getD {children : List Item} {i : Nat} (h : i < children.length) :
    Returns (index children i) (.ok (children.getD i default) : Except Error Item) := by
  apply returns_index
  rw [List.getD_eq_getElem?_getD, List.getElem?_eq_getElem h]
  rfl

mutual
theorem returns_validateRecipientShape : ∀ item : Item,
    Returns (Bounds.validateRecipientShape item) (validateRecipientShape item)
  | .mk kind start contentStart endPos indefinite children => by
    rw [Bounds.validateRecipientShape, validateRecipientShape]
    refine Returns.lift_bind fun _ _ => Returns.lift_bind fun _ hlen => ?_
    obtain ⟨hmin, hmax⟩ := not_not.mp (Except.failIf_eq_ok.mp hlen)
    refine (returns_getD (by omega)).bind_ok (Returns.lift_bind fun _ _ => ?_)
    refine (returns_getD (by omega)).bind_ok (Returns.lift_bind fun _ _ => ?_)
    refine (returns_getD (by omega)).bind_ok (Returns.lift_bind fun _ _ => ?_)
    exact returns_validateNested children hmin hmax

theorem returns_validateNested : ∀ children : List Item, 3 ≤ children.length →
    children.length ≤ 4 →
    Returns (if children.length = 4 then Bounds.validateNested children 3 else pure ())
      (validateNested children)
  | [_, _, _], _, _ => returns_pure
  | [_, _, _, .mk kind start contentStart endPos indefinite recipients], _, _ => by
    rw [if_pos (by rfl)]
    simp only [Bounds.validateNested, validateNested]
    refine Returns.lift_bind fun _ _ => Returns.lift_bind fun _ _ => ?_
    exact returns_validateRecipientShapes recipients
  | [], hmin, _ | [_], hmin, _ | [_, _], hmin, _ => by
    simp only [List.length_cons, List.length_nil] at hmin
    omega
  | _ :: _ :: _ :: _ :: _ :: _, _, hmax => by
    simp only [List.length_cons] at hmax
    omega

theorem returns_validateRecipientShapes : ∀ recipients : List Item,
    Returns (Bounds.validateRecipientShapes recipients) (validateRecipientShapes recipients)
  | [] => by
    rw [Bounds.validateRecipientShapes, validateRecipientShapes]
    exact returns_pure
  | recipient :: recipients => by
    rw [Bounds.validateRecipientShapes, validateRecipientShapes]
    exact (returns_validateRecipientShape recipient).bind fun _ _ =>
      returns_validateRecipientShapes recipients
end

theorem returns_validateRecipients (item : Item) :
    Returns (Bounds.validateRecipients item) (validateRecipients item) :=
  Returns.lift_bind fun _ _ => Returns.lift_bind fun _ _ =>
    returns_validateRecipientShapes item.children

theorem returns_validateSignatureShape (item : Item) :
    Returns (Bounds.validateSignatureShape item) (validateSignatureShape item) := by
  refine Returns.lift_bind fun _ _ => Returns.lift_bind fun _ hlen => ?_
  have hlen := not_not.mp (Except.failIf_eq_ok.mp hlen)
  refine (returns_child (by omega)).bind_ok (Returns.lift_bind fun _ _ => ?_)
  refine (returns_child (by omega)).bind_ok (Returns.lift_bind fun _ _ => ?_)
  exact (returns_child (by omega)).bind_ok returns_lift

theorem expectedElements_ok {tag n : Nat} (h : expectedElements tag = .ok n) :
    (tag = 16 ∧ n = 3) ∨ ((tag = 17 ∨ tag = 18 ∨ tag = 96 ∨ tag = 98) ∧ n = 4) ∨
      (tag = 97 ∧ n = 5) := by
  unfold expectedElements at h
  split_ifs at h with h3 h4 h5
  · exact .inl ⟨h3, (Except.ok.inj h).symm⟩
  · exact .inr (.inl ⟨h4, (Except.ok.inj h).symm⟩)
  · exact .inr (.inr ⟨h5, (Except.ok.inj h).symm⟩)

/-- A message has the elements that its shape looks at. -/
theorem returns_validateContentShape {tag n : Nat} (htag : expectedElements tag = .ok n)
    (hlen : item.children.length = n) :
    Returns (Bounds.validateContentShape item tag) (validateContentShape item tag) := by
  have hchild (i : Nat) (hi : i < n) : Returns (Bounds.child item i) (.ok (item.child i)) :=
    returns_child (hlen ▸ hi)
  rcases expectedElements_ok htag with ⟨rfl, rfl⟩ | ⟨h4, rfl⟩ | ⟨rfl, rfl⟩
  · exact (hchild 2 (by decide)).bind_ok returns_lift
  · rcases h4 with rfl | rfl | rfl | rfl
    · refine (hchild 2 (by decide)).bind_ok (Returns.lift_bind fun _ _ => ?_)
      exact (hchild 3 (by decide)).bind_ok returns_lift
    · refine (hchild 2 (by decide)).bind_ok (Returns.lift_bind fun _ _ => ?_)
      exact (hchild 3 (by decide)).bind_ok returns_lift
    · refine (hchild 2 (by decide)).bind_ok (Returns.lift_bind fun _ _ => ?_)
      exact (hchild 3 (by decide)).bind_ok (returns_validateRecipients _)
    · refine (hchild 2 (by decide)).bind_ok (Returns.lift_bind fun _ _ => ?_)
      refine (hchild 3 (by decide)).bind_ok (Returns.lift_bind fun _ _ => ?_)
      refine Returns.lift_bind fun _ _ => ?_
      exact returns_forM fun signature _ => returns_validateSignatureShape signature
  · refine (hchild 2 (by decide)).bind_ok (Returns.lift_bind fun _ _ => ?_)
    refine (hchild 3 (by decide)).bind_ok (Returns.lift_bind fun _ _ => ?_)
    exact (hchild 4 (by decide)).bind_ok (returns_validateRecipients _)

theorem returns_validateMessageShape (item : Item) (tag : Nat) :
    Returns (Bounds.validateMessageShape item tag) (validateMessageShape item tag) := by
  refine Returns.lift_bind fun n htag => Returns.lift_bind fun _ hlen => ?_
  have hlen := not_not.mp (Except.failIf_eq_ok.mp hlen)
  have hmin := expectedElements_ok htag
  refine (returns_child (by omega)).bind_ok (Returns.lift_bind fun _ _ => ?_)
  refine (returns_child (by omega)).bind_ok (Returns.lift_bind fun _ _ => ?_)
  exact returns_validateContentShape htag hlen

/-! ### Tags -/

theorem returns_untag (tag : Nat) (h : item.Sound data) :
    Returns (Bounds.untag item tag) (.ok (item.untag tag)) ∧ (item.untag tag).Sound data := by
  rw [Bounds.untag, Item.untag]
  by_cases hkind : item.kind = .tag tag
  · rw [if_pos hkind, if_pos hkind]
    exact sound_child h hkind
  · rw [if_neg hkind, if_neg hkind]
    exact ⟨returns_pure, h⟩

theorem returns_untagMessage (h : item.Sound data) :
    Returns (Bounds.untagMessage item) (.ok item.untagMessage) ∧
      item.untagMessage.Sound data := by
  rw [Bounds.untagMessage, Item.untagMessage]
  cases hkind : item.kind with
  | tag n =>
    by_cases htag : isMessageTag n = true
    · simp only [if_pos htag]
      exact sound_child h hkind
    · simp only [if_neg htag]
      exact ⟨returns_pure, h⟩
  | unsigned | negative | bytes | text | array | map | simple | float =>
    exact ⟨returns_pure, h⟩

theorem returns_insideTag (tag : Nat) (h : item.Sound data) :
    Returns (Bounds.insideTag item tag) (insideTag item tag) ∧
      ∀ current, insideTag item tag = .ok current → current.Sound data := by
  rw [Bounds.insideTag, insideTag]
  cases hkind : item.kind with
  | tag n =>
    by_cases htag : n = tag
    · simp only [if_pos htag]
      have hchild := sound_child h hkind
      refine ⟨hchild.1, ?_⟩
      rintro current ⟨⟩
      exact hchild.2
    · simp only [if_neg htag]
      exact ⟨returns_lift, by rintro current ⟨⟩⟩
  | unsigned | negative | bytes | text | array | map | simple | float =>
    refine ⟨returns_pure, ?_⟩
    rintro current ⟨⟩
    exact h

theorem returns_unwrapTag (cwt : Bool) (tag : Nat) (h : item.Sound data) :
    Returns (Bounds.unwrapTag cwt item tag) (unwrapTag cwt item tag) ∧
      ∀ current, unwrapTag cwt item tag = .ok current → current.Sound data := by
  obtain ⟨hreturns, hsound⟩ := returns_insideTag tag h
  constructor
  · exact hreturns.bind fun _ _ => Returns.lift_bind fun _ _ => Returns.lift_bind fun _ _ =>
      returns_pure
  · intro current hcurrent
    obtain ⟨it, hit, hrest⟩ := Except.bind_eq_ok.mp hcurrent
    rw [Except.seq_eq_ok, Except.seq_eq_ok, Except.pure_eq_ok] at hrest
    exact hrest.2.2 ▸ hsound it hit

/-! ### Users of the parser -/

section Users

variable (c : Cbor2) (data : Bytes)

theorem returns_members : Returns (Bounds.independentlyValidatedArrayMembers c data)
    (independentlyValidatedArrayMembers c data) := by
  refine Returns.lift_bind fun item hroot => Returns.lift_bind fun _ _ => ?_
  have hsound := sound_of_root hroot
  exact returns_mapM fun child hc => returns_bytesIn (hsound.child hc)

theorem returns_decodeBytes : Returns (Bounds.decodeBytes c data) (decodeBytes c data) := by
  refine Returns.lift_bind fun item hroot => Returns.lift_bind fun _ _ => ?_
  exact returns_appendBytes item [] (sound_of_root hroot)

theorem returns_decodeOptionalBytes :
    Returns (Bounds.decodeOptionalBytes c data) (decodeOptionalBytes c data) := by
  refine Returns.lift_bind fun item hroot => Returns.ite (fun _ => returns_pure) fun _ => ?_
  exact (returns_appendBytes item [] (sound_of_root hroot)).bind fun _ _ => returns_pure

theorem returns_messageBody (tag : Nat) (limits : CborLimits) :
    Returns (Bounds.messageBody c data tag limits) (messageBody c data tag limits) := by
  refine Returns.lift_bind fun item hroot => ?_
  obtain ⟨hself, hsound⟩ := returns_untag 55799 (sound_of_root hroot)
  obtain ⟨hcwt, hsound⟩ := returns_untag 61 hsound
  refine hself.bind_ok (hcwt.bind_ok ?_)
  obtain ⟨hunwrap, hbody⟩ := returns_unwrapTag
    (decide ((item.untag 55799).kind = .tag 61)) tag hsound
  refine hunwrap.bind fun current hcurrent => ?_
  refine (returns_validateMessageShape current tag).bind fun _ _ => ?_
  exact returns_bytesIn (hbody current hcurrent)

theorem returns_taggedBody (tag : Nat) :
    Returns (Bounds.taggedBody c data tag) (taggedBody c data tag) := by
  refine Returns.lift_bind fun item hroot => ?_
  obtain ⟨hself, hsound⟩ := returns_untag 55799 (sound_of_root hroot)
  refine hself.bind_ok (Returns.lift_bind fun _ hkind => ?_)
  obtain ⟨hchild, hsound⟩ := sound_child hsound (not_not.mp (Except.failIf_eq_ok.mp hkind))
  exact hchild.bind_ok (returns_bytesIn hsound)

theorem returns_removeKnownTags :
    Returns (Bounds.removeKnownTags c data) (removeKnownTags c data) := by
  refine Returns.lift_bind fun item hroot => ?_
  obtain ⟨hself, hsound⟩ := returns_untag 55799 (sound_of_root hroot)
  obtain ⟨hcwt, hsound⟩ := returns_untag 61 hsound
  obtain ⟨hmessage, hsound⟩ := returns_untagMessage hsound
  exact hself.bind_ok (hcwt.bind_ok (hmessage.bind_ok (returns_bytesIn hsound)))

end Users

/-! ### The parser as a whole -/

section

variable {c : Cbor2} {levels : Nat}

/-- The bytes in front of the parser. -/
def Parser.remaining (p : Parser) : Nat := p.data.length - p.pos

theorem Consumes.remaining_lt {p p' : Parser} {it : Item} (h : Consumes p it p') :
    p'.remaining < p.remaining := by
  obtain ⟨hdata, -, -, hcounted, hbytes, hbounded⟩ := h
  rw [Parser.remaining, Parser.remaining, hdata]
  omega

theorem remaining_of_parse (p : Parser) (it : Item) (p' : Parser)
    (h : p.parse c levels = .ok (it, p')) : p'.remaining < p.remaining :=
  (consumes_of_parse h).remaining_lt

theorem remaining_of_chunk (kind : Kind) (p : Parser) (it : Item) (p' : Parser)
    (h : Parser.chunk (Parser.parse c levels) kind p = .ok (it, p')) :
    p'.remaining < p.remaining := by
  obtain ⟨⟨it', q⟩, hparse, hrest⟩ := Except.bind_eq_ok.mp h
  rw [Except.seq_eq_ok, Except.pure_eq_ok] at hrest
  cases hrest.2
  exact remaining_of_parse p it p' hparse

theorem remaining_of_entry (s : Option (List Bytes) × Parser) (u : Unit)
    (s' : Option (List Bytes) × Parser)
    (h : Parser.entry c (Parser.parse c levels) true s = .ok (u, s')) :
    s'.2.remaining < s.2.remaining := by
  obtain ⟨⟨key, q⟩, hkey, hrest⟩ := Except.bind_eq_ok.mp h
  obtain ⟨keys, -, hrest⟩ := Except.bind_eq_ok.mp hrest
  rw [Except.seq_eq_ok] at hrest
  obtain ⟨⟨value, q'⟩, hvalue, hpure⟩ := Except.bind_eq_ok.mp hrest.2
  cases Except.pure_eq_ok.mp hpure
  exact (remaining_of_parse q value q' hvalue).trans (remaining_of_parse s.2 key q hkey)

theorem remaining_lt_fuel (p : Parser) : p.remaining < p.fuel := Nat.lt_succ_self _

/-- What a call to `parse` does within `levels` nesting levels.  The loops that it can enter
up to a break byte come to an end by themselves, and what it returns is in range. -/
structure ParsesSafely (c : Cbor2) (levels : Nat) (p : Parser) : Prop where
  chunksEnd : ∀ kind outOfFuel,
    Ends Parser.takeBreak (Parser.chunk (Parser.parse c levels) kind) p
      (untilStop Parser.takeBreak (Parser.chunk (Parser.parse c levels) kind) outOfFuel p.fuel p)
  elementsEnd : ∀ outOfFuel, Ends Parser.takeBreak (Parser.parse c levels) p
    (untilStop Parser.takeBreak (Parser.parse c levels) outOfFuel p.fuel p)
  entriesEnd : ∀ keys outOfFuel,
    Ends (fun s => s.2.takeBreak.map (s.1, ·)) (Parser.entry c (Parser.parse c levels) true)
      (keys, p) (untilStop (fun s => s.2.takeBreak.map (s.1, ·))
        (Parser.entry c (Parser.parse c levels) true) outOfFuel p.fuel (keys, p))
  consumes : ∀ it p', p.parse c levels = .ok (it, p') → Consumes p it p'
  sound : ∀ it p', p.parse c levels = .ok (it, p') → it.Sound p.data
  key : ∀ it p', p.parse c levels = .ok (it, p') →
    Returns (Bounds.canonicalKey c p' it) (p'.canonicalKey c it)

theorem parsesSafely (c : Cbor2) (levels : Nat) (p : Parser) : ParsesSafely c levels p where
  chunksEnd kind outOfFuel :=
    ends_untilStop (remaining_of_chunk kind) outOfFuel (remaining_lt_fuel p)
  elementsEnd outOfFuel := ends_untilStop remaining_of_parse outOfFuel (remaining_lt_fuel p)
  entriesEnd keys outOfFuel :=
    ends_untilStop (m := fun s => s.2.remaining) remaining_of_entry outOfFuel
      (remaining_lt_fuel p)
  consumes _ _ h := consumes_of_parse h
  sound _ _ h := sound_of_parse h
  key it p' h := by
    have hsound := sound_of_parse h
    rw [← (consumes_of_parse h).data] at hsound
    exact returns_canonicalKey c hsound

end

/-- The users of the parser read in bounds, whatever they are given. -/
structure ReadsInBounds (c : Cbor2) (data : Bytes) : Prop where
  members : Returns (Bounds.independentlyValidatedArrayMembers c data)
    (independentlyValidatedArrayMembers c data)
  decodeBytes : Returns (Bounds.decodeBytes c data) (decodeBytes c data)
  decodeOptionalBytes :
    Returns (Bounds.decodeOptionalBytes c data) (decodeOptionalBytes c data)
  messageBody : ∀ tag limits,
    Returns (Bounds.messageBody c data tag limits) (messageBody c data tag limits)
  taggedBody : ∀ tag, Returns (Bounds.taggedBody c data tag) (taggedBody c data tag)
  removeKnownTags : Returns (Bounds.removeKnownTags c data) (removeKnownTags c data)

/-- **The trees of the strict parser are safe to walk**: the parser ends, consumes a byte for
each item at least and returns ranges of the input that are nested as the items are, so that
nothing that follows an index or a range of such a tree leaves its bounds. -/
theorem treesSafe (c : Cbor2) : (∀ levels p, ParsesSafely c levels p) ∧
    ∀ data, ReadsInBounds c data := by
  refine ⟨parsesSafely c, fun data => ?_⟩
  exact {
    members := returns_members c data
    decodeBytes := returns_decodeBytes c data
    decodeOptionalBytes := returns_decodeOptionalBytes c data
    messageBody := returns_messageBody c data
    taggedBody := returns_taggedBody c data
    removeKnownTags := returns_removeKnownTags c data }

end Cose2.Strict
