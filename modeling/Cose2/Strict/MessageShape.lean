import Cose2.Strict.Accessors
import Cose2.Strict.Grammar

/-! # The grammar of COSE messages

RFC 9052 gives each message type a CBOR array with typed fields, and the tags
that may stand around it.  The grammar is stated here over encoded items, and
`messageBody` accepts exactly the inputs that follow it, except that it takes null in
two bytes, which is not well-formed, for null.
-/
namespace Cose2.Strict

open Cbor

/-! ### The grammar -/

/-- A byte string, definite or not. -/
def IsBytes : Tree → Prop
  | .str false _ _ | .chunked false _ => True
  | _ => False

/-- A map. -/
def IsMap : Tree → Prop
  | .map .. => True
  | _ => False

/-- Null is one byte. -/
def IsNull (t : Tree) : Prop := t = .prim .imm 22

/-- Simple value 22 in two bytes, which is not well-formed. -/
def longNull : Tree := .prim .one 22

/-- What the parser takes for null. -/
def TakenForNull : Tree → Prop
  | .prim .imm n | .prim .one n => n = 22
  | _ => False

section Grammar

variable (null : Tree → Prop)

/-- A byte string or null. -/
def IsBytesOrNull (t : Tree) : Prop := IsBytes t ∨ null t

/-- `COSE_recipient`. -/
inductive IsRecipient : Tree → Prop where
  | leaf {w : Option Width} {protectedField unprotectedField ciphertext : Tree}
      (hp : IsBytes protectedField) (hu : IsMap unprotectedField)
      (hc : IsBytesOrNull null ciphertext) :
      IsRecipient (.array w [protectedField, unprotectedField, ciphertext])
  | nested {w w' : Option Width} {protectedField unprotectedField ciphertext : Tree}
      {recipients : List Tree} (hp : IsBytes protectedField) (hu : IsMap unprotectedField)
      (hc : IsBytesOrNull null ciphertext) (hne : recipients ≠ [])
      (hr : ∀ r ∈ recipients, IsRecipient r) :
      IsRecipient (.array w
        [protectedField, unprotectedField, ciphertext, .array w' recipients])

/-- The recipients of a message: a non-empty array of them. -/
def AreRecipients (t : Tree) : Prop :=
  ∃ w recipients, t = .array w recipients ∧ recipients ≠ [] ∧
    ∀ r ∈ recipients, IsRecipient null r

/-- `COSE_Signature`. -/
def IsSignature (t : Tree) : Prop :=
  ∃ w p u s, t = .array w [p, u, s] ∧ IsBytes p ∧ IsMap u ∧ IsBytes s

/-- The signatures of a message: a non-empty array of them. -/
def AreSignatures (t : Tree) : Prop :=
  ∃ w signatures, t = .array w signatures ∧ signatures ≠ [] ∧ ∀ s ∈ signatures, IsSignature s

/-- What follows the two header fields in the array of a message with tag `tag`. -/
def IsContent : Nat → List Tree → Prop
  | 16, [ciphertext] => IsBytesOrNull null ciphertext
  | 17, [payload, mac] => IsBytesOrNull null payload ∧ IsBytes mac
  | 18, [payload, signature] => IsBytesOrNull null payload ∧ IsBytes signature
  | 96, [ciphertext, recipients] => IsBytesOrNull null ciphertext ∧ AreRecipients null recipients
  | 97, [payload, mac, recipients] =>
    IsBytesOrNull null payload ∧ IsBytes mac ∧ AreRecipients null recipients
  | 98, [payload, signatures] => IsBytesOrNull null payload ∧ AreSignatures signatures
  | _, _ => False

/-- The untagged message of type `tag`. -/
def IsMessage (tag : Nat) (t : Tree) : Prop :=
  ∃ w p u content, t = .array w (p :: u :: content) ∧ IsBytes p ∧ IsMap u ∧
    IsContent null tag content

end Grammar

/-- `body` with the tags of a message around it: none, its own, or a CWT tag
around its own. -/
inductive Tagged (tag : Nat) (body : Tree) : Tree → Prop where
  | bare : Tagged tag body body
  | tagged (w : Width) : Tagged tag body (.tag w tag body)
  | cwt (w w' : Width) : Tagged tag body (.tag w 61 (.tag w' tag body))

/-- The same with the self-described CBOR tag allowed around all of it. -/
inductive Wrapped (tag : Nat) (body : Tree) : Tree → Prop where
  | plain {t : Tree} (h : Tagged tag body t) : Wrapped tag body t
  | selfDescribed {t : Tree} (w : Width) (h : Tagged tag body t) :
      Wrapped tag body (.tag w 55799 t)

/-- The tags of the six message types. -/
def IsMessageTag (tag : Nat) : Prop :=
  tag = 16 ∨ tag = 17 ∨ tag = 18 ∨ tag = 96 ∨ tag = 97 ∨ tag = 98

/-! ### Kinds -/

theorem kindOf_eq_bytes {t : Tree} : kindOf t = .bytes ↔ IsBytes t := by
  cases t with
  | int negative => cases negative <;> simp [kindOf, IsBytes]
  | str text | chunked text => cases text <;> simp [kindOf, strKind, IsBytes]
  | array | map | tag => simp [kindOf, IsBytes]
  | prim w => cases w <;> simp [kindOf, IsBytes]

theorem kindOf_eq_map {t : Tree} : kindOf t = .map ↔ IsMap t := by
  cases t with
  | int negative => cases negative <;> simp [kindOf, IsMap]
  | str text | chunked text => cases text <;> simp [kindOf, strKind, IsMap]
  | array | map | tag => simp [kindOf, IsMap]
  | prim w => cases w <;> simp [kindOf, IsMap]

theorem kindOf_eq_null {t : Tree} : kindOf t = .simple 22 ↔ TakenForNull t := by
  cases t with
  | int negative => cases negative <;> simp [kindOf, TakenForNull]
  | str text | chunked text => cases text <;> simp [kindOf, strKind, TakenForNull]
  | array | map | tag => simp [kindOf, TakenForNull]
  | prim w => cases w <;> simp [kindOf, TakenForNull]

theorem kindOf_eq_array {t : Tree} : kindOf t = .array ↔ ∃ w items, t = .array w items := by
  cases t with
  | int negative => cases negative <;> simp [kindOf]
  | str text | chunked text => cases text <;> simp [kindOf, strKind]
  | array | map | tag => simp [kindOf]
  | prim w => cases w <;> simp [kindOf]

theorem kindOf_eq_tag {t : Tree} {n : Nat} :
    kindOf t = .tag n ↔ ∃ w content, t = .tag w n content := by
  cases t with
  | int negative => cases negative <;> simp [kindOf]
  | str text | chunked text => cases text <;> simp [kindOf, strKind]
  | array | map | tag => simp [kindOf]
  | prim w => cases w <;> simp [kindOf]

theorem requireKind_ok {item : Item} {kind : Kind} {name : String} {u : Unit} :
    requireKind item kind name = .ok u ↔ item.kind = kind := by
  unfold requireKind
  split_ifs with h <;> simp [h]

theorem requireBytesOrNull_ok {item : Item} {name : String} {u : Unit} :
    requireBytesOrNull item name = .ok u ↔ item.kind = .bytes ∨ item.kind = .simple 22 := by
  unfold requireBytesOrNull
  split_ifs with h <;> simp [h]

theorem itemAt_array (pos : Nat) (w : Option Width) (items : List Tree) :
    ∃ s e, itemAt pos (.array w items) =
      .mk .array pos s e w.isNone (itemsAt s items) := by
  cases w <;> exact ⟨_, _, rfl⟩

/-! ### Recipients and signatures -/

theorem isRecipient_iff {null : Tree → Prop} {t : Tree} :
    IsRecipient null t ↔ ∃ w p u ct rest, t = .array w (p :: u :: ct :: rest) ∧
      IsBytes p ∧ IsMap u ∧ IsBytesOrNull null ct ∧ (rest = [] ∨ ∃ nested, rest = [nested] ∧
        AreRecipients null nested) := by
  constructor
  · intro h
    cases h with
    | leaf hp hu hc => exact ⟨_, _, _, _, _, rfl, hp, hu, hc, .inl rfl⟩
    | nested hp hu hc hne hr =>
      exact ⟨_, _, _, _, _, rfl, hp, hu, hc, .inr ⟨_, rfl, _, _, rfl, hne, hr⟩⟩
  · rintro ⟨w, p, u, ct, rest, rfl, hp, hu, hc, rfl | ⟨_, rfl, w', rs, rfl, hne, hr⟩⟩
    · exact .leaf hp hu hc
    · exact .nested hp hu hc hne hr

theorem validateRecipientShapes_ok {pos : Nat} {ts : List Tree}
    (h : ∀ t ∈ ts, ∀ pos,
      validateRecipientShape (itemAt pos t) = .ok () ↔ IsRecipient TakenForNull t) :
    validateRecipientShapes (itemsAt pos ts) = .ok () ↔ ∀ t ∈ ts, IsRecipient TakenForNull t := by
  induction ts generalizing pos with
  | nil => simp [itemsAt, validateRecipientShapes]
  | cons t ts ih =>
    rw [List.forall_mem_cons] at h
    rw [itemsAt, validateRecipientShapes, Except.seq_eq_ok, h.1, ih h.2, List.forall_mem_cons]

theorem itemsAt_eq_nil {pos : Nat} {ts : List Tree} : itemsAt pos ts = [] ↔ ts = [] := by
  cases ts <;> simp [itemsAt]

theorem validateRecipientShape_mk {kind : Kind} {s₁ s₂ e : Nat} {b : Bool} {its : List Item} :
    validateRecipientShape (.mk kind s₁ s₂ e b its) = .ok () ↔ kind = .array ∧
      (3 ≤ its.length ∧ its.length ≤ 4) ∧ (its.getD 0 default).kind = .bytes ∧
      (its.getD 1 default).kind = .map ∧
      ((its.getD 2 default).kind = .bytes ∨ (its.getD 2 default).kind = .simple 22) ∧
      validateNested its = .ok () := by
  simp only [validateRecipientShape, Except.seq_eq_ok, requireKind_ok, Except.failIf_eq_ok,
    requireBytesOrNull_ok, not_not, Item.kind]

/-- An array of recipients, given what each of its members is. -/
theorem areRecipients_ok (pos : Nat) {t : Tree} (h : ∀ w rs, t = .array w rs → ∀ r ∈ rs, ∀ pos,
      validateRecipientShape (itemAt pos r) = .ok () ↔ IsRecipient TakenForNull r) :
    (itemAt pos t).kind = .array ∧ (itemAt pos t).children ≠ [] ∧
      validateRecipientShapes (itemAt pos t).children = .ok () ↔ AreRecipients TakenForNull t := by
  rw [itemAt_kind]
  constructor
  · rintro ⟨hk, hne, hrs⟩
    obtain ⟨w, rs, rfl⟩ := kindOf_eq_array.mp hk
    obtain ⟨s, e, hitem⟩ := itemAt_array pos w rs
    rw [hitem, Item.children] at hne hrs
    rw [ne_eq, itemsAt_eq_nil] at hne
    exact ⟨w, rs, rfl, hne, (validateRecipientShapes_ok (h w rs rfl)).mp hrs⟩
  · rintro ⟨w, rs, rfl, hne, hrs⟩
    obtain ⟨s, e, hitem⟩ := itemAt_array pos w rs
    rw [hitem, Item.children, ne_eq, itemsAt_eq_nil]
    exact ⟨rfl, hne, (validateRecipientShapes_ok (h w rs rfl)).mpr hrs⟩

theorem validateNested_item {i₀ i₁ i₂ item : Item} :
    validateNested [i₀, i₁, i₂, item] = .ok () ↔ item.kind = .array ∧ item.children ≠ [] ∧
      validateRecipientShapes item.children = .ok () := by
  obtain ⟨kind, s₁, s₂, e, b, its⟩ := item
  simp only [validateNested, Except.seq_eq_ok, requireKind_ok, Except.failIf_eq_ok, Item.kind,
    Item.children, ne_eq]

theorem validateRecipientShape_ok {pos : Nat} {t : Tree} :
    validateRecipientShape (itemAt pos t) = .ok () ↔ IsRecipient TakenForNull t := by
  induction hn : t.count using Nat.strong_induction_on generalizing t pos with
  | _ n ih =>
    rw [isRecipient_iff]
    by_cases hk : kindOf t = .array
    · obtain ⟨w, items, rfl⟩ := kindOf_eq_array.mp hk
      obtain ⟨s, e, hitem⟩ := itemAt_array pos w items
      rw [hitem, validateRecipientShape_mk, itemsAt_length]
      have hlen (h : ¬ (3 ≤ items.length ∧ items.length ≤ 4)) : ¬ ∃ w' p u ct rest,
          Tree.array w items = .array w' (p :: u :: ct :: rest) ∧ IsBytes p ∧ IsMap u ∧
            IsBytesOrNull TakenForNull ct ∧ (rest = [] ∨ ∃ nested, rest = [nested] ∧
              AreRecipients TakenForNull nested) := by
        rintro ⟨w', p, u, ct, rest, he, -, -, -, rfl | ⟨nested, rfl, -⟩⟩ <;> cases he <;>
          simp at h
      rcases items with _ | ⟨p, _ | ⟨u, _ | ⟨ct, _ | ⟨r, _ | ⟨_, _⟩⟩⟩⟩⟩
      case cons.cons.cons.nil =>
        simp only [itemsAt, List.getD_cons_zero, List.getD_cons_succ, itemAt_kind,
          kindOf_eq_bytes, kindOf_eq_map, kindOf_eq_null, List.length_cons, List.length_nil]
        constructor
        · rintro ⟨-, -, hp, hu, hc, -⟩
          exact ⟨w, p, u, ct, [], rfl, hp, hu, hc, .inl rfl⟩
        · rintro ⟨_, _, _, _, rest, he, hp, hu, hc, -⟩
          cases he
          exact ⟨trivial, by omega, hp, hu, hc, rfl⟩
      case cons.cons.cons.cons.nil =>
        have hr := areRecipients_ok (s + p.bytes.length + u.bytes.length + ct.bytes.length)
          (t := r) fun w' rs hrs r' hr' pos =>
          ih r'.count (by
            have h₁ : r'.count < r.count := Tree.count_lt_of_mem (by subst hrs; exact hr')
            have h₂ : r.count < _ := Tree.count_lt_of_mem (t := .array w [p, u, ct, r])
              (by simp [Tree.children])
            omega) rfl
        simp only [itemsAt, List.getD_cons_zero, List.getD_cons_succ, itemAt_kind,
          kindOf_eq_bytes, kindOf_eq_map, kindOf_eq_null, List.length_cons, List.length_nil,
          validateNested_item]
        rw [itemAt_kind] at hr
        rw [hr]
        constructor
        · rintro ⟨-, -, hp, hu, hc, hrs⟩
          exact ⟨w, p, u, ct, [r], rfl, hp, hu, hc, .inr ⟨r, rfl, hrs⟩⟩
        · rintro ⟨_, _, _, _, rest, he, hp, hu, hc, rfl | ⟨nested, rfl, hrs⟩⟩
          · cases he
          · cases he
            exact ⟨trivial, by omega, hp, hu, hc, hrs⟩
      all_goals exact ⟨fun h => absurd h.2.1 (by simp), fun h => absurd h (hlen (by simp))⟩
    · rw [itemAt_eq, itemWith, validateRecipientShape_mk]
      refine ⟨fun h => absurd h.1 hk, ?_⟩
      rintro ⟨w, p, u, ct, rest, rfl, -⟩
      exact absurd rfl hk

theorem validateRecipients_ok {pos : Nat} {t : Tree} :
    validateRecipients (itemAt pos t) = .ok () ↔ AreRecipients TakenForNull t := by
  rw [← areRecipients_ok pos fun _ _ _ _ _ _ => validateRecipientShape_ok]
  simp only [validateRecipients, Except.seq_eq_ok, requireKind_ok, Except.failIf_eq_ok, ne_eq]

theorem validateSignatureShape_ok (pos : Nat) {t : Tree} :
    validateSignatureShape (itemAt pos t) = .ok () ↔ IsSignature t := by
  simp only [validateSignatureShape, Except.seq_eq_ok, requireKind_ok, Except.failIf_eq_ok,
    not_not, itemAt_kind]
  constructor
  · rintro ⟨hk, hlen, hp, hu, hs⟩
    obtain ⟨w, items, rfl⟩ := kindOf_eq_array.mp hk
    obtain ⟨s, e, hitem⟩ := itemAt_array pos w items
    rw [hitem] at hlen hp hu hs
    rw [Item.children, itemsAt_length, List.length_eq_three] at hlen
    obtain ⟨p, u, sig, rfl⟩ := hlen
    simp only [Item.child, Item.children, itemsAt, List.getD_cons_zero, List.getD_cons_succ,
      itemAt_kind, kindOf_eq_bytes, kindOf_eq_map] at hp hu hs
    exact ⟨w, p, u, sig, rfl, hp, hu, hs⟩
  · rintro ⟨w, p, u, sig, rfl, hp, hu, hs⟩
    obtain ⟨s, e, hitem⟩ := itemAt_array pos w [p, u, sig]
    rw [hitem]
    simp only [Item.child, Item.children, itemsAt, List.getD_cons_zero, List.getD_cons_succ,
      itemAt_kind, kindOf_eq_bytes, kindOf_eq_map]
    exact ⟨rfl, rfl, hp, hu, hs⟩

theorem signatures_ok (pos : Nat) {ts : List Tree} :
    (itemsAt pos ts).forM validateSignatureShape = .ok () ↔ ∀ t ∈ ts, IsSignature t := by
  induction ts generalizing pos with
  | nil => simp [itemsAt, pure, Except.pure]
  | cons t ts ih =>
    rw [List.forall_mem_cons, ← ih (pos + t.bytes.length),
      ← validateSignatureShape_ok pos, ← Except.seq_eq_ok]
    rfl

theorem areSignatures_ok (pos : Nat) {t : Tree} :
    (itemAt pos t).kind = .array ∧ (itemAt pos t).children ≠ [] ∧
      (itemAt pos t).children.forM validateSignatureShape = .ok () ↔ AreSignatures t := by
  rw [itemAt_kind]
  constructor
  · rintro ⟨hk, hne, hs⟩
    obtain ⟨w, ts, rfl⟩ := kindOf_eq_array.mp hk
    obtain ⟨s, e, hitem⟩ := itemAt_array pos w ts
    rw [hitem, Item.children] at hne hs
    rw [ne_eq, itemsAt_eq_nil] at hne
    exact ⟨w, ts, rfl, hne, (signatures_ok _).mp hs⟩
  · rintro ⟨w, ts, rfl, hne, hs⟩
    obtain ⟨s, e, hitem⟩ := itemAt_array pos w ts
    rw [hitem, Item.children, ne_eq, itemsAt_eq_nil]
    exact ⟨rfl, hne, (signatures_ok _).mpr hs⟩

/-! ### Messages -/

/-- What `IsMessage` asks of the elements of the array. -/
def ElementsOk (null : Tree → Prop) (tag : Nat) : List Tree → Prop
  | p :: u :: content => IsBytes p ∧ IsMap u ∧ IsContent null tag content
  | _ => False

theorem isMessage_array {null : Tree → Prop} {tag : Nat} {w : Option Width} {items : List Tree} :
    IsMessage null tag (.array w items) ↔ ElementsOk null tag items := by
  constructor
  · rintro ⟨w', p, u, content, he, h⟩
    cases he
    exact h
  · intro h
    rcases items with _ | ⟨p, _ | ⟨u, content⟩⟩
    case cons.cons => exact ⟨w, p, u, content, rfl, h⟩
    all_goals exact h.elim

/-- The checks that all types have in common. -/
theorem validateMessageShape_iff {item : Item} {tag n : Nat} (h : expectedElements tag = .ok n) :
    validateMessageShape item tag = .ok () ↔
      item.children.length = n ∧ (item.child 0).kind = .bytes ∧ (item.child 1).kind = .map ∧
        validateContentShape item tag = .ok () := by
  simp only [validateMessageShape, h, Except.ok_bind, Except.seq_eq_ok, requireKind_ok,
    Except.failIf_eq_ok, not_not]

theorem validateMessageShape_ok {tag : Nat} (ht : IsMessageTag tag) {pos : Nat}
    {w : Option Width} {items : List Tree} :
    validateMessageShape (itemAt pos (.array w items)) tag = .ok () ↔
      IsMessage TakenForNull tag (.array w items) := by
  obtain ⟨s, e, hitem⟩ := itemAt_array pos w items
  rw [hitem, isMessage_array]
  -- for each tag: the right number of elements, or both sides are false
  obtain rfl | rfl | rfl | rfl | rfl | rfl := ht
  · rw [validateMessageShape_iff rfl, Item.children, itemsAt_length]
    rcases items with _ | ⟨p, _ | ⟨u, _ | ⟨ciphertext, _ | ⟨_, _⟩⟩⟩⟩
    case cons.cons.cons.nil =>
      simp [validateContentShape, ElementsOk, IsContent, IsBytesOrNull, Item.child,
        Item.children, itemsAt, requireBytesOrNull_ok, kindOf_eq_bytes, kindOf_eq_map,
        kindOf_eq_null]
    all_goals simp [ElementsOk, IsContent]
  · rw [validateMessageShape_iff rfl, Item.children, itemsAt_length]
    rcases items with _ | ⟨p, _ | ⟨u, _ | ⟨payload, _ | ⟨mac, _ | ⟨_, _⟩⟩⟩⟩⟩
    case cons.cons.cons.cons.nil =>
      simp [validateContentShape, ElementsOk, IsContent, IsBytesOrNull, Item.child,
        Item.children, itemsAt, requireBytesOrNull_ok, requireKind_ok, Except.seq_eq_ok,
        kindOf_eq_bytes, kindOf_eq_map, kindOf_eq_null]
    all_goals simp [ElementsOk, IsContent]
  · rw [validateMessageShape_iff rfl, Item.children, itemsAt_length]
    rcases items with _ | ⟨p, _ | ⟨u, _ | ⟨payload, _ | ⟨signature, _ | ⟨_, _⟩⟩⟩⟩⟩
    case cons.cons.cons.cons.nil =>
      simp [validateContentShape, ElementsOk, IsContent, IsBytesOrNull, Item.child,
        Item.children, itemsAt, requireBytesOrNull_ok, requireKind_ok, Except.seq_eq_ok,
        kindOf_eq_bytes, kindOf_eq_map, kindOf_eq_null]
    all_goals simp [ElementsOk, IsContent]
  · rw [validateMessageShape_iff rfl, Item.children, itemsAt_length]
    rcases items with _ | ⟨p, _ | ⟨u, _ | ⟨ciphertext, _ | ⟨recipients, _ | ⟨_, _⟩⟩⟩⟩⟩
    case cons.cons.cons.cons.nil =>
      simp [validateContentShape, ElementsOk, IsContent, IsBytesOrNull, Item.child,
        Item.children, itemsAt, requireBytesOrNull_ok, validateRecipients_ok, Except.seq_eq_ok,
        kindOf_eq_bytes, kindOf_eq_map, kindOf_eq_null]
    all_goals simp [ElementsOk, IsContent]
  · rw [validateMessageShape_iff rfl, Item.children, itemsAt_length]
    rcases items with _ | ⟨p, _ | ⟨u, _ | ⟨payload, _ | ⟨mac, _ | ⟨recipients, _ | ⟨_, _⟩⟩⟩⟩⟩⟩
    case cons.cons.cons.cons.cons.nil =>
      simp [validateContentShape, ElementsOk, IsContent, IsBytesOrNull, Item.child,
        Item.children, itemsAt, requireBytesOrNull_ok, requireKind_ok, validateRecipients_ok,
        Except.seq_eq_ok, kindOf_eq_bytes, kindOf_eq_map, kindOf_eq_null]
    all_goals simp [ElementsOk, IsContent]
  · rw [validateMessageShape_iff rfl, Item.children, itemsAt_length]
    rcases items with _ | ⟨p, _ | ⟨u, _ | ⟨payload, _ | ⟨signatures, _ | ⟨_, _⟩⟩⟩⟩⟩
    case cons.cons.cons.cons.nil =>
      have hs := areSignatures_ok
        (s + p.bytes.length + u.bytes.length + payload.bytes.length) (t := signatures)
      simp [validateContentShape, ElementsOk, IsContent, IsBytesOrNull, Item.child,
        Item.children, itemsAt, requireBytesOrNull_ok, requireKind_ok, Except.seq_eq_ok,
        kindOf_eq_bytes, kindOf_eq_map, kindOf_eq_null, ← hs]
    all_goals simp [ElementsOk, IsContent]

/-! ### Wrappers -/

/-- The message under its own tag, or bare where that is allowed. -/
theorem unwrapTag_ok {cwt : Bool} {pos : Nat} {t : Tree} {tag : Nat} {it : Item} :
    unwrapTag cwt (itemAt pos t) tag = .ok it ↔ ∃ body pre, kindOf body = .array ∧
      t.bytes = pre ++ body.bytes ∧ it = itemAt (pos + pre.length) body ∧
      ((∃ w, t = .tag w tag body) ∨ (cwt = false ∧ t = body)) := by
  simp only [unwrapTag, Except.bind_eq_ok, Except.failIf_eq_ok, Except.pure_eq_ok,
    itemAt_kind]
  by_cases htag : ∃ n, kindOf t = .tag n
  · obtain ⟨n, hn⟩ := htag
    obtain ⟨w, body, rfl⟩ := kindOf_eq_tag.mp hn
    have hchild : (itemAt pos (.tag w n body)).child 0 = itemAt (pos + (1 + w.size)) body := rfl
    have hinside : insideTag (itemAt pos (.tag w n body)) tag =
        if n = tag then .ok (itemAt (pos + (1 + w.size)) body)
        else .error (.custom s!"unexpected CBOR tag for COSE message, expected {tag}") := rfl
    rw [hinside]
    by_cases he : n = tag
    · subst he
      constructor
      · rintro ⟨_, h, -, -, -, hk, rfl⟩
        rw [if_pos rfl, Except.ok.injEq] at h
        subst h
        rw [not_not, itemAt_kind] at hk
        exact ⟨body, head 6 w n, hk, rfl, by rw [head_length], .inl ⟨w, rfl⟩⟩
      · rintro ⟨body', pre, hk, hbytes, rfl, ⟨w', he⟩ | ⟨-, rfl⟩⟩
        · cases he
          have hpre : pre = head 6 w n := List.append_cancel_right hbytes.symm
          rw [hpre, head_length]
          exact ⟨_, if_pos rfl, (), fun h => h.2 rfl, (), by simpa using hk, rfl⟩
        · cases hk
    · constructor
      · rintro ⟨_, h, -⟩
        rw [if_neg he] at h
        cases h
      · rintro ⟨body', pre, hk, -, -, ⟨w', he'⟩ | ⟨-, rfl⟩⟩
        · cases he'
          exact absurd rfl he
        · cases hk
  · have hinside : insideTag (itemAt pos t) tag = .ok (itemAt pos t) := by
      rw [insideTag, itemAt_kind]
      split
      · rename_i n hn
        exact absurd ⟨n, hn⟩ htag
      · rfl
    have hne : kindOf t ≠ .tag tag := fun h => htag ⟨tag, h⟩
    rw [hinside]
    constructor
    · rintro ⟨_, h, -, hcwt, -, hk, rfl⟩
      cases h
      rw [not_not, itemAt_kind] at hk
      refine ⟨t, [], hk, rfl, rfl, .inr ⟨?_, rfl⟩⟩
      by_contra h
      exact hcwt ⟨by simpa using h, hne⟩
    · rintro ⟨body, pre, hk, hbytes, rfl, ⟨w, rfl⟩ | ⟨rfl, rfl⟩⟩
      · exact absurd rfl hne
      · have hpre : pre = [] := by simpa using hbytes
        rw [hpre]
        exact ⟨_, rfl, (), by simp, (), by simpa using hk, rfl⟩

/-- Stepping over an optional tag. -/
theorem untag_itemAt (pos : Nat) (t : Tree) (n : Nat) : ∃ t' pre,
    (itemAt pos t).untag n = itemAt (pos + pre.length) t' ∧ t.bytes = pre ++ t'.bytes ∧
      ((kindOf t = .tag n ∧ ∃ w, t = .tag w n t') ∨ (kindOf t ≠ .tag n ∧ t' = t)) := by
  by_cases h : kindOf t = .tag n
  · obtain ⟨w, content, rfl⟩ := kindOf_eq_tag.mp h
    refine ⟨content, head 6 w n, ?_, rfl, .inl ⟨h, w, rfl⟩⟩
    rw [Item.untag, itemAt_kind, if_pos h, head_length]
    rfl
  · exact ⟨t, [], by rw [Item.untag, itemAt_kind, if_neg h]; rfl, rfl, .inr ⟨h, rfl⟩⟩

theorem Tagged.suffix {tag : Nat} {body t : Tree} (h : Tagged tag body t) :
    ∃ pre, t.bytes = pre ++ body.bytes := by
  cases h with
  | bare => exact ⟨[], rfl⟩
  | tagged w => exact ⟨head 6 w tag, rfl⟩
  | cwt w w' => exact ⟨head 6 w 61 ++ head 6 w' tag, (List.append_assoc _ _ _).symm⟩

theorem Wrapped.suffix {tag : Nat} {body t : Tree} (h : Wrapped tag body t) :
    ∃ pre, t.bytes = pre ++ body.bytes := by
  cases h with
  | plain h => exact h.suffix
  | selfDescribed w h =>
    obtain ⟨pre, hpre⟩ := h.suffix
    exact ⟨head 6 w 55799 ++ pre, by rw [Tree.bytes, hpre, List.append_assoc]⟩

/-- The CWT tag and the message tag, or fewer. -/
theorem unwrapCwt_ok {pos : Nat} {t : Tree} {tag : Nat} (htag : tag ≠ 61) {it : Item} :
    unwrapTag (decide (kindOf t = .tag 61)) ((itemAt pos t).untag 61) tag = .ok it ↔
      ∃ body pre, kindOf body = .array ∧ t.bytes = pre ++ body.bytes ∧
        it = itemAt (pos + pre.length) body ∧ Tagged tag body t := by
  obtain ⟨t', pre, hitem, hbytes, hcase⟩ := untag_itemAt pos t 61
  rw [hitem, unwrapTag_ok]
  constructor
  · rintro ⟨body, pre', hk, hbytes', rfl, hbody⟩
    refine ⟨body, pre ++ pre', hk, by rw [hbytes, hbytes', List.append_assoc],
      by rw [List.length_append, Nat.add_assoc], ?_⟩
    rcases hcase with ⟨hcwt, w, rfl⟩ | ⟨hcwt, rfl⟩
    · rcases hbody with ⟨w', rfl⟩ | ⟨hno, -⟩
      · exact .cwt w w'
      · exact absurd hcwt (by simpa using hno)
    · rcases hbody with ⟨w', rfl⟩ | ⟨-, rfl⟩
      · exact .tagged w'
      · exact .bare
  · rintro ⟨body, pre', hk, hbytes', rfl, htagged⟩
    have hinner : ∃ pre'', t'.bytes = pre'' ++ body.bytes ∧
        ((∃ w, t' = .tag w tag body) ∨ (decide (kindOf t = .tag 61) = false ∧ t' = body)) := by
      cases htagged with
      | bare =>
        have hne : kindOf t ≠ .tag 61 := by rw [hk]; simp
        rcases hcase with ⟨h, -⟩ | ⟨-, rfl⟩
        · exact absurd h hne
        · exact ⟨[], rfl, .inr ⟨decide_eq_false hne, rfl⟩⟩
      | tagged w =>
        rcases hcase with ⟨h, -⟩ | ⟨-, rfl⟩
        · cases h
          exact absurd rfl htag
        · exact ⟨head 6 w tag, rfl, .inl ⟨w, rfl⟩⟩
      | cwt w w' =>
        rcases hcase with ⟨-, w'', he⟩ | ⟨h, -⟩
        · cases he
          exact ⟨head 6 w' tag, rfl, .inl ⟨w', rfl⟩⟩
        · exact absurd rfl h
    obtain ⟨pre'', hbytes'', hbody⟩ := hinner
    have hpre : pre' = pre ++ pre'' := by
      have h : pre' ++ body.bytes = pre ++ pre'' ++ body.bytes := by
        rw [← hbytes', hbytes, hbytes'', List.append_assoc]
      exact List.append_cancel_right h
    exact ⟨body, pre'', hk, hbytes'', by rw [hpre, List.length_append, Nat.add_assoc], hbody⟩

/-- The message inside all the tags that may stand around it. -/
theorem unwrap_ok {pos : Nat} {t : Tree} {tag : Nat} (htag : IsMessageTag tag) {it : Item} :
    (unwrapTag (decide (((itemAt pos t).untag 55799).kind = .tag 61))
        (((itemAt pos t).untag 55799).untag 61) tag = .ok it) ↔
      ∃ body pre, kindOf body = .array ∧ t.bytes = pre ++ body.bytes ∧
        it = itemAt (pos + pre.length) body ∧ Wrapped tag body t := by
  have h61 : tag ≠ 61 := by rintro rfl; revert htag; simp [IsMessageTag]
  have hself : tag ≠ 55799 := by rintro rfl; revert htag; simp [IsMessageTag]
  obtain ⟨t', pre, hitem, hbytes, hcase⟩ := untag_itemAt pos t 55799
  rw [hitem, itemAt_kind, unwrapCwt_ok h61]
  constructor
  · rintro ⟨body, pre', hk, hbytes', rfl, htagged⟩
    refine ⟨body, pre ++ pre', hk, by rw [hbytes, hbytes', List.append_assoc],
      by rw [List.length_append, Nat.add_assoc], ?_⟩
    rcases hcase with ⟨-, w, rfl⟩ | ⟨-, rfl⟩
    · exact .selfDescribed w htagged
    · exact .plain htagged
  · rintro ⟨body, pre', hk, hbytes', rfl, hwrapped⟩
    have htagged : Tagged tag body t' := by
      cases hwrapped with
      | plain h =>
        rcases hcase with ⟨hk', -⟩ | ⟨-, rfl⟩
        · cases h with
          | bare => rw [hk] at hk'; cases hk'
          | tagged w => cases hk'; exact absurd rfl hself
          | cwt w w' => cases hk'
        · exact h
      | selfDescribed w h =>
        rcases hcase with ⟨-, w', he⟩ | ⟨hk', -⟩
        · cases he
          exact h
        · exact absurd rfl hk'
    obtain ⟨pre'', hbytes''⟩ := htagged.suffix
    have hpre : pre' = pre ++ pre'' := by
      have h : pre' ++ body.bytes = pre ++ pre'' ++ body.bytes := by
        rw [← hbytes', hbytes, hbytes'', List.append_assoc]
      exact List.append_cancel_right h
    exact ⟨body, pre'', hk, hbytes'', by rw [hpre, List.length_append, Nat.add_assoc], htagged⟩

/-! ### The message body -/

/-- An untagged array, the self-described tag aside. -/
def IsUntagged (t : Tree) : Prop :=
  kindOf t = .array ∨ ∃ w body, t = .tag w 55799 body ∧ kindOf body = .array

theorem IsMessage.kind {null : Tree → Prop} {tag : Nat} {t : Tree} (h : IsMessage null tag t) :
    kindOf t = .array := by
  obtain ⟨w, p, u, content, rfl, -⟩ := h
  rfl

/-- Only a bare message can be of two types. -/
theorem Tagged.bare_of_ne {tag tag' : Nat} {m m' t : Tree} (h : Tagged tag m t)
    (h' : Tagged tag' m' t) (hm : kindOf m = .array) (hm' : kindOf m' = .array)
    (ht : tag ≠ 61) (ht' : tag' ≠ 61) (hne : tag ≠ tag') : kindOf t = .array := by
  cases h with
  | bare => exact hm
  | tagged w =>
    cases h' with
    | bare => exact hm'
    | tagged => exact absurd rfl hne
    | cwt => exact absurd rfl ht
  | cwt w w' =>
    cases h' with
    | bare => exact hm'
    | tagged => exact absurd rfl ht'
    | cwt => exact absurd rfl hne

theorem IsMessageTag.ne {tag : Nat} (h : IsMessageTag tag) : tag ≠ 61 ∧ tag ≠ 55799 := by
  constructor
  · rintro rfl
    revert h
    simp [IsMessageTag]
  · rintro rfl
    revert h
    simp [IsMessageTag]

/-- A CWT tag around an array that does not carry a message tag. -/
def IsCwtUntagged (t : Tree) : Prop :=
  ∃ w body, kindOf body = .array ∧
    (t = .tag w 61 body ∨ ∃ w', t = .tag w' 55799 (.tag w 61 body))

theorem not_wrapped_cwtUntagged {tag : Nat} {m t : Tree} (htag : IsMessageTag tag)
    (hm : kindOf m = .array) (h : IsCwtUntagged t) : ¬ Wrapped tag m t := by
  have hinner {w : Width} {body : Tree} (hk : kindOf body = .array) :
      ¬ Tagged tag m (.tag w 61 body) := by
    intro h
    cases h with
    | bare => cases hm
    | tagged => exact htag.ne.1 rfl
    | cwt => cases hk
  obtain ⟨w, body, hk, rfl | ⟨w', rfl⟩⟩ := h
  · intro h
    cases h with
    | plain h => exact hinner hk h
  · intro h
    cases h with
    | plain h =>
      cases h with
      | bare => cases hm
      | tagged => exact htag.ne.2 rfl
    | selfDescribed _ h => exact hinner hk h

variable (c : Cbor2)

theorem messageBody_iff {data : Bytes} {tag : Nat} {limits : CborLimits} {t : Tree}
    (h : root c data limits = .ok (itemAt 0 t)) (hdata : data = t.bytes)
    (htag : IsMessageTag tag) (body : Bytes) :
    messageBody c data tag limits = .ok body ↔
      ∃ message, Wrapped tag message t ∧ IsMessage TakenForNull tag message ∧
        body = message.bytes := by
  simp only [messageBody, h, Except.ok_bind, Except.bind_eq_ok, unwrap_ok htag,
    Except.pure_eq_ok]
  constructor
  · rintro ⟨_, ⟨message, pre, hk, hbytes, rfl, hwrapped⟩, _, hshape, rfl⟩
    obtain ⟨w, items, rfl⟩ := kindOf_eq_array.mp hk
    exact ⟨_, hwrapped, (validateMessageShape_ok htag).mp hshape,
      bytesIn_suffix (hdata.trans hbytes)⟩
  · rintro ⟨message, hwrapped, hshape, rfl⟩
    obtain ⟨pre, hbytes⟩ := hwrapped.suffix
    obtain ⟨w, items, rfl⟩ := kindOf_eq_array.mp hshape.kind
    exact ⟨_, ⟨_, pre, rfl, hbytes, rfl, hwrapped⟩, (), (validateMessageShape_ok htag).mpr hshape,
      bytesIn_suffix (hdata.trans hbytes)⟩

/-! ### Null in two bytes -/

/-- The field is the ciphertext of the recipient, or of a recipient nested in it. -/
inductive RecipientField : Tree → Tree → Prop where
  | own {w : Option Width} {p u field : Tree} {rest : List Tree} :
      RecipientField (.array w (p :: u :: field :: rest)) field
  | nested {w w' : Option Width} {p u ct r field : Tree} {recipients : List Tree}
      (hr : r ∈ recipients) (h : RecipientField r field) :
      RecipientField (.array w [p, u, ct, .array w' recipients]) field

/-- A field of a message that may be null: its payload or ciphertext, and the ciphertexts of
its recipients. -/
inductive NullableField (tag : Nat) : Tree → Tree → Prop where
  | own {w : Option Width} {p u field : Tree} {rest : List Tree} :
      NullableField tag (.array w (p :: u :: field :: rest)) field
  | recipient {w w' : Option Width} {p u r field : Tree} {content recipients : List Tree}
      (htag : tag = 96 ∨ tag = 97) (hlast : content.getLast? = some (.array w' recipients))
      (hr : r ∈ recipients) (h : RecipientField r field) :
      NullableField tag (.array w (p :: u :: content)) field

theorem isBytesOrNull_iff {t : Tree} :
    IsBytesOrNull IsNull t ↔ IsBytesOrNull TakenForNull t ∧ t ≠ longNull := by
  cases t with
  | prim w n => cases w <;> simp [IsBytesOrNull, IsBytes, IsNull, TakenForNull, longNull]
  | int | str | chunked | array | map | tag =>
    simp [IsBytesOrNull, IsNull, TakenForNull, longNull]

theorem isRecipient_short {t : Tree} :
    IsRecipient IsNull t ↔ IsRecipient TakenForNull t ∧ ¬ RecipientField t longNull := by
  constructor
  · intro h
    induction h with
    | leaf hp hu hc =>
      obtain ⟨hct, hne⟩ := isBytesOrNull_iff.mp hc
      refine ⟨.leaf hp hu hct, fun hfield => ?_⟩
      cases hfield with
      | own => exact hne rfl
    | nested hp hu hc hsome hr ih =>
      obtain ⟨hct, hne⟩ := isBytesOrNull_iff.mp hc
      refine ⟨.nested hp hu hct hsome fun r hmem => (ih r hmem).1, fun hfield => ?_⟩
      cases hfield with
      | own => exact hne rfl
      | nested hmem hfield => exact (ih _ hmem).2 hfield
  · rintro ⟨h, hno⟩
    induction h with
    | leaf hp hu hc =>
      refine .leaf hp hu (isBytesOrNull_iff.mpr ⟨hc, ?_⟩)
      rintro rfl
      exact hno .own
    | nested hp hu hc hsome hr ih =>
      refine .nested hp hu (isBytesOrNull_iff.mpr ⟨hc, ?_⟩) hsome fun r hmem =>
        ih r hmem fun hfield => hno (.nested hmem hfield)
      rintro rfl
      exact hno .own

theorem areRecipients_short {t : Tree} :
    AreRecipients IsNull t ↔ AreRecipients TakenForNull t ∧
      ∀ w recipients, t = .array w recipients → ∀ r ∈ recipients, ¬ RecipientField r longNull := by
  constructor
  · rintro ⟨w, rs, rfl, hne, hrs⟩
    refine ⟨⟨w, rs, rfl, hne, fun r hr => (isRecipient_short.mp (hrs r hr)).1⟩, ?_⟩
    rintro _ _ ⟨⟩ r hr
    exact (isRecipient_short.mp (hrs r hr)).2
  · rintro ⟨⟨w, rs, rfl, hne, hrs⟩, hno⟩
    exact ⟨w, rs, rfl, hne, fun r hr => isRecipient_short.mpr ⟨hrs r hr, hno w rs rfl r hr⟩⟩

theorem nullableField_iff {tag : Nat} {w : Option Width} {p u field t : Tree} {rest : List Tree} :
    NullableField tag (.array w (p :: u :: field :: rest)) t ↔ field = t ∨
      (tag = 96 ∨ tag = 97) ∧ ∃ w' recipients,
        (field :: rest).getLast? = some (.array w' recipients) ∧
        ∃ r ∈ recipients, RecipientField r t := by
  constructor
  · intro h
    cases h with
    | own => exact .inl rfl
    | recipient htag hlast hr h => exact .inr ⟨htag, _, _, hlast, _, hr, h⟩
  · rintro (rfl | ⟨htag, w', rs, hlast, r, hr, h⟩)
    · exact .own
    · exact .recipient htag hlast hr h

/-- **The grammar of a message asks, besides what the parser checks, that no null in it is
written in two bytes.** -/
theorem isMessage_iff {tag : Nat} {t : Tree} :
    IsMessage IsNull tag t ↔ IsMessage TakenForNull tag t ∧ ¬ NullableField tag t longNull := by
  have hcontent {w : Option Width} {p u : Tree} {content : List Tree} :
      IsContent IsNull tag content ↔ IsContent TakenForNull tag content ∧
        ¬ NullableField tag (.array w (p :: u :: content)) longNull := by
    unfold IsContent
    split
    all_goals simp [nullableField_iff, isBytesOrNull_iff, areRecipients_short]
    all_goals tauto
  constructor
  · rintro ⟨w, p, u, content, rfl, hp, hu, h⟩
    obtain ⟨hwide, hno⟩ := hcontent.mp h
    exact ⟨⟨w, p, u, content, rfl, hp, hu, hwide⟩, hno⟩
  · rintro ⟨⟨w, p, u, content, rfl, hp, hu, h⟩, hno⟩
    exact ⟨w, p, u, content, rfl, hp, hu, hcontent.mpr ⟨h, hno⟩⟩

/-! ### The specification -/

section Spec

variable (c : Cbor2)

/-- Only an untagged input is accepted for two types. -/
theorem isUntagged_of_messageBody {data : Bytes} {limits : CborLimits} {t : Tree}
    (h : root c data limits = .ok (itemAt 0 t)) (hdata : data = t.bytes) {tag tag' : Nat}
    {body body' : Bytes} (htag : IsMessageTag tag) (htag' : IsMessageTag tag') (hne : tag ≠ tag')
    (hok : messageBody c data tag limits = .ok body)
    (hok' : messageBody c data tag' limits = .ok body') : IsUntagged t := by
  obtain ⟨m, hw, hm, -⟩ := (messageBody_iff c h hdata htag body).mp hok
  obtain ⟨m', hw', hm', -⟩ := (messageBody_iff c h hdata htag' body').mp hok'
  cases hw with
  | plain hw =>
    cases hw' with
    | plain hw' =>
      exact .inl (hw.bare_of_ne hw' hm.kind hm'.kind htag.ne.1 htag'.ne.1 hne)
    | selfDescribed w hw' =>
      cases hw with
      | bare => cases hm.kind
      | tagged => exact absurd rfl htag.ne.2
  | selfDescribed w hw =>
    cases hw' with
    | plain hw' =>
      cases hw' with
      | bare => cases hm'.kind
      | tagged => exact absurd rfl htag'.ne.2
    | selfDescribed _ hw' =>
      exact .inr ⟨w, _, rfl, hw.bare_of_ne hw' hm.kind hm'.kind htag.ne.1 htag'.ne.1 hne⟩

/-- What `message_body` should do with an input that is one item: it accepts exactly the
messages of a type inside their tags and returns their bytes.  An input accepted
for two types carries no message tag, and a CWT tag never stands around an
untagged array. -/
def MessageBodySpec (data : Bytes) (limits : CborLimits) : Prop :=
  ∃ t : Tree, data = t.bytes ∧ t.Fits ∧
    (∀ tag, IsMessageTag tag → ∀ body, messageBody c data tag limits = .ok body ↔
      ∃ message, Wrapped tag message t ∧ IsMessage IsNull tag message ∧ body = message.bytes) ∧
    (∀ tag tag' body body', IsMessageTag tag → IsMessageTag tag' → tag ≠ tag' →
      messageBody c data tag limits = .ok body →
      messageBody c data tag' limits = .ok body' → IsUntagged t) ∧
    (IsCwtUntagged t → ∀ tag, IsMessageTag tag → ∀ body,
      messageBody c data tag limits ≠ .ok body)

/-- The input is a message inside its tags, except that a null in it is written in two
bytes. -/
def WritesLongNull (data : Bytes) : Prop :=
  ∃ (t : Tree) (tag : Nat) (message : Tree), data = t.bytes ∧ t.Fits ∧ IsMessageTag tag ∧
    Wrapped tag message t ∧ IsMessage TakenForNull tag message ∧
    NullableField tag message longNull

theorem Wrapped.fits {tag : Nat} {body t : Tree} (h : Wrapped tag body t) (ht : t.Fits) :
    body.Fits := by
  have hinside {t : Tree} (h : Tagged tag body t) (ht : t.Fits) : body.Fits := by
    cases h with
    | bare => exact ht
    | tagged => exact ht.child (List.mem_singleton_self _)
    | cwt => exact (ht.child (List.mem_singleton_self _)).child (List.mem_singleton_self _)
  cases h with
  | plain h => exact hinside h ht
  | selfDescribed w h => exact hinside h (ht.child (List.mem_singleton_self _))

/-- Such an input is accepted, though the grammar has no null in two bytes. -/
theorem WritesLongNull.not_spec {data : Bytes} {limits : CborLimits}
    (h : ∃ it, root c data limits = .ok it) (hlong : WritesLongNull data) :
    ¬ MessageBodySpec c data limits := by
  obtain ⟨it, hroot⟩ := h
  obtain ⟨t, hdata, hfits, -, -, rfl⟩ := (rootWithDuplicatePolicy_ok c).mp hroot
  obtain ⟨t', tag, message, hdata', hfits', htag, hwrapped, hmessage, hfield⟩ := hlong
  obtain rfl : t = t' := bytes_inj hfits hfits' (hdata.symm.trans hdata')
  rintro ⟨s, hdata'', hfits'', hgrammar, -⟩
  obtain rfl : t = s := bytes_inj hfits hfits'' (hdata.symm.trans hdata'')
  have haccepted := (messageBody_iff c hroot hdata htag message.bytes).mpr
    ⟨message, hwrapped, hmessage, rfl⟩
  obtain ⟨message', hwrapped', hmessage', hbytes⟩ := (hgrammar tag htag _).mp haccepted
  obtain rfl : message = message' :=
    bytes_inj (hwrapped.fits hfits) (hwrapped'.fits hfits) hbytes
  exact (isMessage_iff.mp hmessage').2 hfield

/-- **Every input of the strict parser is treated by `message_body` as the grammar says,
unless it has a null in two bytes where a message may have one.** -/
theorem messageBodySpec_iff (data : Bytes) (limits : CborLimits)
    (h : ∃ it, root c data limits = .ok it) :
    MessageBodySpec c data limits ↔ ¬ WritesLongNull data := by
  refine ⟨fun hspec hlong => hlong.not_spec c h hspec, fun hshort => ?_⟩
  obtain ⟨it, hroot⟩ := h
  obtain ⟨t, hdata, hfits, -, -, rfl⟩ := (rootWithDuplicatePolicy_ok c).mp hroot
  refine ⟨t, hdata, hfits, ?_, ?_, ?_⟩
  · intro tag htag body
    rw [messageBody_iff c hroot hdata htag]
    refine exists_congr fun message => and_congr_right fun hwrapped => and_congr_left' ?_
    rw [isMessage_iff]
    exact (and_iff_left_of_imp fun hmessage hfield =>
      hshort ⟨t, tag, message, hdata, hfits, htag, hwrapped, hmessage, hfield⟩).symm
  · exact fun tag tag' body body' htag htag' hne hok hok' =>
      isUntagged_of_messageBody c hroot hdata htag htag' hne hok hok'
  · intro hcwt tag htag body hok
    obtain ⟨m, hw, hm, -⟩ := (messageBody_iff c hroot hdata htag body).mp hok
    exact not_wrapped_cwtUntagged htag hm.kind hcwt hw

end Spec

/-- A `COSE_Mac` inside all its tags, with a recipient that has one of its own. -/
theorem messageBodySpec_nested :
    MessageBodySpec Cbor2.reference [0xd9, 0xd9, 0xf7, 0xd8, 0x3d, 0xd8, 0x61, 0x85, 0x40, 0xa0,
        0xf6, 0x40, 0x81, 0x84, 0x40, 0xa0, 0xf6, 0x81, 0x83, 0x40, 0xa0, 0x40] {} ↔
      ¬ WritesLongNull [0xd9, 0xd9, 0xf7, 0xd8, 0x3d, 0xd8, 0x61, 0x85, 0x40, 0xa0,
        0xf6, 0x40, 0x81, 0x84, 0x40, 0xa0, 0xf6, 0x81, 0x83, 0x40, 0xa0, 0x40] :=
  messageBodySpec_iff _ _ _ ⟨_, rfl⟩

/-- A `COSE_Sign1` without its tag and with null for a payload, in two bytes. -/
theorem writesLongNull_sign1 : WritesLongNull [0x84, 0x40, 0xa0, 0xf8, 0x16, 0x40] := by
  refine ⟨.array (some .imm) [.str false .imm [], .map (some .imm) [], longNull,
    .str false .imm []], 18, _, rfl, ?_, .inr (.inr (.inl rfl)), .plain .bare, ?_, .own⟩
  · have hleaf {t : Tree} (h : t.NodeFits) (hs : t.children = []) : t.All Tree.NodeFits :=
      .node h (by simp [hs])
    refine .node (by simp [Tree.NodeFits, Width.bound]) ?_
    simp only [Tree.children, List.forall_mem_cons, List.not_mem_nil, false_imp_iff,
      implies_true, and_true]
    exact ⟨hleaf (show 0 < 24 by decide) rfl,
      hleaf (by simp [Tree.NodeFits, Width.bound]) rfl,
      hleaf (show 22 < 256 by decide) rfl, hleaf (show 0 < 24 by decide) rfl⟩
  · exact ⟨_, _, _, _, rfl, trivial, trivial, .inr rfl, trivial⟩

theorem not_messageBodySpec_sign1 :
    (∃ it, root Cbor2.reference [0x84, 0x40, 0xa0, 0xf8, 0x16, 0x40] {} = .ok it) ∧
      ¬ MessageBodySpec Cbor2.reference [0x84, 0x40, 0xa0, 0xf8, 0x16, 0x40] {} := by
  have haccepted : ∃ it, root Cbor2.reference [0x84, 0x40, 0xa0, 0xf8, 0x16, 0x40] {} = .ok it :=
    ⟨_, rfl⟩
  exact ⟨haccepted, writesLongNull_sign1.not_spec _ haccepted⟩

end Cose2.Strict
