import Mathlib.Tactic
import Cose2.Cbor.Tree

/-! # The generic data model

A `Value` is what an encoded item means once the choices of its writer are
forgotten: argument widths, chunks and indefinite lengths.  `Value.toTree`
writes a value with the shortest heads, and `Tree.value` reads any encoded item.
Floating-point numbers are kept as the bits of a double, so nothing here depends
on floating-point arithmetic.
-/
namespace Cbor

/-! ### Scalars -/

/-- An integer that major types 0 and 1 can express. -/
structure Integer where
  val : Int
  lower : -18446744073709551616 ≤ val
  upper : val < 18446744073709551616
deriving DecidableEq, Repr

namespace Integer

@[ext] theorem ext {i j : Integer} (h : i.val = j.val) : i = j := by
  cases i
  cases j
  simpa using h

/-- The integer with argument `n` in major type 0, or 1 when `negative`. -/
def ofArgument (negative : Bool) (n : Nat) : Option Integer :=
  if h : n < 18446744073709551616 then
    some (if negative then ⟨-1 - n, by omega, by omega⟩ else ⟨n, by omega, by omega⟩)
  else none

/-- Whether the integer belongs to major type 1. -/
def negative (i : Integer) : Bool := decide (i.val < 0)

/-- The argument the integer is written with. -/
def argument (i : Integer) : Nat := if i.val < 0 then (-1 - i.val).toNat else i.val.toNat

theorem argument_lt (i : Integer) : i.argument < 18446744073709551616 := by
  have := i.lower
  have := i.upper
  unfold argument
  split_ifs <;> omega

theorem ofArgument_argument (i : Integer) :
    ofArgument i.negative i.argument = some i := by
  rw [ofArgument, dif_pos i.argument_lt]
  apply congrArg some
  apply Integer.ext
  by_cases h : i.val < 0
  · simp only [negative, argument, h, decide_true, if_true]
    omega
  · simp only [negative, argument, h, decide_false, if_false, Bool.false_eq_true]
    omega

theorem ofArgument_eq_some {negative : Bool} {n : Nat} {i : Integer}
    (h : ofArgument negative n = some i) :
    n < 18446744073709551616 ∧ i.negative = negative ∧ i.argument = n := by
  unfold ofArgument at h
  split_ifs at h with hn hneg
  · cases h
    refine ⟨hn, ?_, ?_⟩
    · simp only [Integer.negative, hneg]
      exact decide_eq_true (by omega)
    · simp only [argument]
      split_ifs <;> omega
  · cases h
    refine ⟨hn, ?_, ?_⟩
    · simp only [Integer.negative, hneg]
      exact decide_eq_false (by omega)
    · simp only [argument]
      split_ifs <;> omega

end Integer

/-- A simple value other than false, true and null, which are values of their own. -/
structure Simple where
  val : Nat
  valid : val < 20 ∨ val = 23 ∨ (32 ≤ val ∧ val < 256)
deriving DecidableEq, Repr

/-- The UTF-8 encoding of a text. -/
def utf8 (s : String) : Bytes := s.toByteArray.data.toList

/-- The text a byte string encodes, if it is valid UTF-8. -/
def ofUtf8 (bs : Bytes) : Option String := String.fromUTF8? ⟨bs.toArray⟩

@[simp] theorem ofUtf8_utf8 (s : String) : ofUtf8 (utf8 s) = some s := by
  have h : ByteArray.mk (utf8 s).toArray = s.toByteArray := by
    simp [utf8]
  unfold ofUtf8 String.fromUTF8?
  rw [h, dif_pos (by simpa using s.isValidUTF8)]
  rfl

theorem utf8_of_ofUtf8 {bs : Bytes} {s : String} (h : ofUtf8 bs = some s) : utf8 s = bs := by
  unfold ofUtf8 String.fromUTF8? at h
  split_ifs at h with hv
  cases h
  simp [utf8, String.fromUTF8]

theorem utf8_inj {s s' : String} : utf8 s = utf8 s' ↔ s = s' := by
  constructor
  · intro h
    have := congrArg ofUtf8 h
    simpa using this
  · rintro rfl
    rfl

/-! ### Floating-point numbers -/

/-- The double with the value of a float of `e` exponent and `m` fraction bits,
both as bit patterns.  Not-a-number payloads keep their leading bits. -/
def widen (e m x : Nat) : Nat :=
  let sign := x / 2 ^ (e + m) % 2
  let exponent := x / 2 ^ m % 2 ^ e
  let fraction := x % 2 ^ m
  let bias := 2 ^ (e - 1) - 1
  sign * 2 ^ 63 +
    if exponent = 2 ^ e - 1 then 2047 * 2 ^ 52 + fraction * 2 ^ (52 - m)
    else if exponent = 0 then
      if fraction = 0 then 0
      else
        -- a subnormal number: its leading one becomes the implicit bit
        let k := Nat.log2 fraction
        (k + 1024 - bias - m) * 2 ^ 52 + (fraction - 2 ^ k) * 2 ^ (52 - k)
    else (exponent + 1023 - bias) * 2 ^ 52 + fraction * 2 ^ (52 - m)

/-- The only float of `e` exponent and `m` fraction bits that `widen` could turn
into `x`: the fields of `x` rebiased and cut off. -/
def narrowCandidate (e m x : Nat) : Nat :=
  let sign := x / 2 ^ 63 % 2
  let exponent := x / 2 ^ 52 % 2 ^ 11
  let fraction := x % 2 ^ 52
  let bias := 2 ^ (e - 1) - 1
  sign * 2 ^ (e + m) +
    if exponent = 2047 then (2 ^ e - 1) * 2 ^ m + fraction / 2 ^ (52 - m)
    else if exponent + bias < 1024 then
      let k := exponent + bias + m - 1024
      if exponent = 0 then 0 else 2 ^ k + fraction / 2 ^ (52 - k)
    else (exponent + bias - 1023) * 2 ^ m + fraction / 2 ^ (52 - m)

/-- The float of `e` exponent and `m` fraction bits that stands for `x`, if there is one. -/
def narrow (e m x : Nat) : Option Nat :=
  if narrowCandidate e m x < 2 ^ (1 + e + m) ∧ widen e m (narrowCandidate e m x) = x then
    some (narrowCandidate e m x)
  else none

theorem narrow_eq_some {e m x y : Nat} (h : narrow e m x = some y) :
    y < 2 ^ (1 + e + m) ∧ widen e m y = x := by
  unfold narrow at h
  split_ifs at h with hc
  cases h
  exact hc

/-- The shortest width a double can be written in, with its bits in that width. -/
def shortestFloat (bits : UInt64) : Width × Nat :=
  match narrow 5 10 bits.toNat with
  | some half => (.two, half)
  | none =>
    match narrow 8 23 bits.toNat with
    | some single => (.four, single)
    | none => (.eight, bits.toNat)

/-- The double that a float of a given width stands for. -/
def floatOf : Width → Nat → UInt64
  | .two, n => UInt64.ofNat (widen 5 10 n)
  | .four, n => UInt64.ofNat (widen 8 23 n)
  | _, n => UInt64.ofNat n

/-- What `shortestFloat` chooses fits its width and stands for the same double. -/
theorem shortestFloat_spec {bits : UInt64} {w : Width} {n : Nat}
    (h : shortestFloat bits = (w, n)) :
    (w = .two ∨ w = .four ∨ w = .eight) ∧ n < w.bound ∧ floatOf w n = bits := by
  unfold shortestFloat at h
  cases hhalf : narrow 5 10 bits.toNat with
  | some half =>
    obtain ⟨hlt, hw⟩ := narrow_eq_some hhalf
    rw [hhalf] at h
    cases h
    exact ⟨.inl rfl, hlt, by rw [floatOf, hw, UInt64.ofNat_toNat]⟩
  | none =>
    cases hsingle : narrow 8 23 bits.toNat with
    | some single =>
      obtain ⟨hlt, hw⟩ := narrow_eq_some hsingle
      rw [hhalf, hsingle] at h
      cases h
      exact ⟨.inr (.inl rfl), hlt, by rw [floatOf, hw, UInt64.ofNat_toNat]⟩
    | none =>
      rw [hhalf, hsingle] at h
      cases h
      exact ⟨.inr (.inr rfl), bits.toNat_lt, UInt64.ofNat_toNat⟩

/-! ### Values -/

/-- A CBOR data item, whatever way it is written. -/
inductive Value where
  | integer (i : Integer)
  | bytes (b : Bytes)
  | text (s : String)
  /-- A double, given by its bits. -/
  | float (bits : UInt64)
  | bool (b : Bool)
  | null
  | simple (s : Simple)
  | tag (n : UInt64) (content : Value)
  | array (items : List Value)
  /-- The entries in the order they are written; keys may repeat. -/
  | map (entries : List (Value × Value))

namespace Value

/-- Structural induction with the hypotheses on elements and entries spelled out. -/
@[induction_eliminator]
theorem induction {P : Value → Prop} (integer : ∀ i, P (.integer i))
    (bytes : ∀ b, P (.bytes b)) (text : ∀ s, P (.text s)) (float : ∀ bits, P (.float bits))
    (bool : ∀ b, P (.bool b)) (null : P .null) (simple : ∀ s, P (.simple s))
    (tag : ∀ n content, P content → P (.tag n content))
    (array : ∀ items, (∀ v ∈ items, P v) → P (.array items))
    (map : ∀ entries, (∀ e ∈ entries, P e.1 ∧ P e.2) → P (.map entries)) (v : Value) : P v :=
  Value.rec (motive_1 := P) (motive_2 := fun l => ∀ v ∈ l, P v)
    (motive_3 := fun l => ∀ e ∈ l, P e.1 ∧ P e.2) (motive_4 := fun e => P e.1 ∧ P e.2)
    integer bytes text float bool null simple tag array map (by simp)
    (fun _ _ h hs => List.forall_mem_cons.mpr ⟨h, hs⟩) (by simp)
    (fun _ _ h hs => List.forall_mem_cons.mpr ⟨h, hs⟩) (fun _ _ h h' => ⟨h, h'⟩) v

/-- An integer value, `none` outside the range of major types 0 and 1. -/
def ofInt (i : Int) : Option Value :=
  if h : -18446744073709551616 ≤ i ∧ i < 18446744073709551616 then
    some (.integer ⟨i, h.1, h.2⟩)
  else none

mutual
/-- The value written with the shortest heads and definite lengths. -/
def toTree : Value → Tree
  | .integer i => .int i.negative (preferred i.argument) i.argument
  | .bytes b => .str false (preferred b.length) b
  | .text s => .str true (preferred (utf8 s).length) (utf8 s)
  | .float bits => .prim (shortestFloat bits).1 (shortestFloat bits).2
  | .bool b => .prim .imm (if b then 21 else 20)
  | .null => .prim .imm 22
  | .simple s => .prim (preferred s.val) s.val
  | .tag n content => .tag (preferred n.toNat) n.toNat content.toTree
  | .array items => .array (some (preferred items.length)) (toTreeItems items)
  | .map entries => .map (some (preferred entries.length)) (toTreeEntries entries)

/-- `toTree` of each element. -/
def toTreeItems : List Value → List Tree
  | [] => []
  | v :: vs => v.toTree :: toTreeItems vs

/-- `toTree` of each key and value. -/
def toTreeEntries : List (Value × Value) → List (Tree × Tree)
  | [] => []
  | (k, v) :: es => (k.toTree, v.toTree) :: toTreeEntries es
end

/-- The encoding of a value with the shortest heads, map entries in their order. -/
def encode (v : Value) : Bytes := v.toTree.bytes

theorem toTreeItems_eq (vs : List Value) : toTreeItems vs = vs.map toTree := by
  induction vs with
  | nil => rfl
  | cons v vs ih => rw [toTreeItems, ih, List.map_cons]

theorem toTreeEntries_eq (es : List (Value × Value)) :
    toTreeEntries es = es.map fun e => (e.1.toTree, e.2.toTree) := by
  induction es with
  | nil => rfl
  | cons e es ih =>
    obtain ⟨k, v⟩ := e
    rw [toTreeEntries, ih, List.map_cons]

end Value

/-! ### Reading a value -/

/-- The simple value with a given number. -/
def simpleValue (n : Nat) : Option Value :=
  if n = 20 then some (.bool false)
  else if n = 21 then some (.bool true)
  else if n = 22 then some .null
  else if h : n < 20 ∨ n = 23 ∨ (32 ≤ n ∧ n < 256) then some (.simple ⟨n, h⟩)
  else none

namespace Tree

/-- What a byte or text string means. -/
def strValue (text : Bool) (payload : Bytes) : Option Value :=
  if text then (ofUtf8 payload).map .text else some (.bytes payload)

mutual
/-- The value an encoded item stands for; `none` when a text string is not valid
UTF-8 or a simple value below 32 is written in two bytes. -/
def value : Tree → Option Value
  | .int negative _ n => (Integer.ofArgument negative n).map .integer
  | .str text _ payload => strValue text payload
  | .chunked text chunks => strValue text (chunks.flatMap Prod.snd)
  | .array _ items => (valueItems items).map .array
  | .map _ entries => (valueEntries entries).map .map
  | .tag _ n content =>
    if n < 18446744073709551616 then content.value.map (.tag (UInt64.ofNat n)) else none
  | .prim .imm n => simpleValue n
  | .prim .one n => if n < 32 then none else simpleValue n
  | .prim w n => some (.float (floatOf w n))

/-- The values of the elements of an array. -/
def valueItems : List Tree → Option (List Value)
  | [] => some []
  | t :: ts => do
    let v ← t.value
    let vs ← valueItems ts
    return v :: vs

/-- The values of the entries of a map. -/
def valueEntries : List (Tree × Tree) → Option (List (Value × Value))
  | [] => some []
  | (k, v) :: es => do
    let k ← k.value
    let v ← v.value
    let es ← valueEntries es
    return (k, v) :: es
end

/-- Each member on the right of related lists has its counterpart on the left. -/
theorem forall₂_mem_right {α β : Type} {R : α → β → Prop} {as : List α} {bs : List β}
    (h : List.Forall₂ R as bs) {b : β} (hb : b ∈ bs) : ∃ a ∈ as, R a b := by
  induction h with
  | nil => cases hb
  | cons hr _ ih =>
    rcases List.mem_cons.mp hb with rfl | hb
    · exact ⟨_, List.mem_cons_self, hr⟩
    · obtain ⟨a, ha, hab⟩ := ih hb
      exact ⟨a, List.mem_cons_of_mem _ ha, hab⟩

/-- Related lists are pairwise related alike when their members are. -/
theorem forall₂_pairwise {α β : Type} {R : α → β → Prop} {S : α → α → Prop} {T : β → β → Prop}
    {as : List α} {bs : List β} (h : List.Forall₂ R as bs)
    (hST : ∀ a ∈ as, ∀ a' ∈ as, ∀ b b', R a b → R a' b' → (S a a' ↔ T b b')) :
    as.Pairwise S ↔ bs.Pairwise T := by
  induction h with
  | nil => simp
  | @cons a b as bs hr h ih =>
    rw [List.pairwise_cons, List.pairwise_cons, ih fun a ha a' ha' =>
      hST a (List.mem_cons_of_mem _ ha) a' (List.mem_cons_of_mem _ ha')]
    refine and_congr_left fun _ => ⟨fun hS b' hb' => ?_, fun hT a' ha' => ?_⟩
    · obtain ⟨a', ha', hr'⟩ := forall₂_mem_right h hb'
      exact (hST a List.mem_cons_self a' (List.mem_cons_of_mem _ ha') b b' hr hr').mp
        (hS a' ha')
    · obtain ⟨b', hb', hr'⟩ := forall₂_mem_right h.flip ha'
      exact (hST a List.mem_cons_self a' (List.mem_cons_of_mem _ ha') b b' hr hr').mpr
        (hT b' hb')

/-- A list has a related one when each member has a related element. -/
theorem exists_forall₂_iff {α β : Type} {R : α → β → Prop} {as : List α} :
    (∃ bs, List.Forall₂ R as bs) ↔ ∀ a ∈ as, ∃ b, R a b := by
  constructor
  · rintro ⟨bs, h⟩ a ha
    obtain ⟨b, -, hr⟩ := forall₂_mem_right h.flip ha
    exact ⟨b, hr⟩
  · intro h
    induction as with
    | nil => exact ⟨[], .nil⟩
    | cons a as ih =>
      rw [List.forall_mem_cons] at h
      obtain ⟨b, hb⟩ := h.1
      obtain ⟨bs, hbs⟩ := ih h.2
      exact ⟨b :: bs, .cons hb hbs⟩

theorem valueItems_eq_some {ts : List Tree} {vs : List Value} :
    valueItems ts = some vs ↔ List.Forall₂ (fun t v => t.value = some v) ts vs := by
  induction ts generalizing vs with
  | nil => simp [valueItems, eq_comm]
  | cons t ts ih =>
    simp only [valueItems, Option.bind_eq_bind, Option.bind_eq_some_iff, ih,
      List.forall₂_cons_left_iff, Option.pure_def, Option.some.injEq]
    constructor
    · rintro ⟨v, hv, vs', hvs, rfl⟩
      exact ⟨v, vs', hv, hvs, rfl⟩
    · rintro ⟨v, vs', hv, hvs, rfl⟩
      exact ⟨v, hv, vs', hvs, rfl⟩

theorem valueEntries_eq_some {ts : List (Tree × Tree)} {es : List (Value × Value)} :
    valueEntries ts = some es ↔
      List.Forall₂ (fun t e => t.1.value = some e.1 ∧ t.2.value = some e.2) ts es := by
  induction ts generalizing es with
  | nil => simp [valueEntries, eq_comm]
  | cons t ts ih =>
    obtain ⟨tk, tv⟩ := t
    simp only [valueEntries, Option.bind_eq_bind, Option.bind_eq_some_iff, ih,
      List.forall₂_cons_left_iff, Option.pure_def, Option.some.injEq]
    constructor
    · rintro ⟨k, hk, v, hv, es', hes, rfl⟩
      exact ⟨(k, v), es', ⟨hk, hv⟩, hes, rfl⟩
    · rintro ⟨⟨k, v⟩, es', ⟨hk, hv⟩, hes, rfl⟩
      exact ⟨k, hk, v, hv, es', hes, rfl⟩

/-- Only a byte string has one as its value. -/
theorem eq_of_value_bytes {t : Tree} {b : Bytes} (h : t.value = some (.bytes b)) :
    (∃ w, t = .str false w b) ∨
      ∃ chunks, t = .chunked false chunks ∧ chunks.flatMap Prod.snd = b := by
  have hstr {text : Bool} {payload : Bytes} (hs : strValue text payload = some (.bytes b)) :
      text = false ∧ payload = b := by
    cases text with
    | false => exact ⟨rfl, Value.bytes.inj (Option.some.inj hs)⟩
    | true =>
      obtain ⟨_, -, hs⟩ := Option.map_eq_some_iff.mp hs
      cases hs
  have hsimple {n : Nat} (hs : simpleValue n = some (.bytes b)) : False := by
    unfold simpleValue at hs
    split_ifs at hs <;> cases hs
  cases t with
  | str text w payload =>
    obtain ⟨rfl, rfl⟩ := hstr h
    exact .inl ⟨w, rfl⟩
  | chunked text chunks =>
    obtain ⟨rfl, rfl⟩ := hstr h
    exact .inr ⟨chunks, rfl, rfl⟩
  | int | array | map =>
    obtain ⟨_, -, hs⟩ := Option.map_eq_some_iff.mp h
    cases hs
  | tag w n content =>
    rw [value] at h
    split_ifs at h
    obtain ⟨_, -, hs⟩ := Option.map_eq_some_iff.mp h
    cases hs
  | prim w n =>
    cases w with
    | imm => exact (hsimple h).elim
    | one =>
      rw [value] at h
      split_ifs at h
      exact (hsimple h).elim
    | two | four | eight => cases h

end Tree

/-- Reading a written value gives it back. -/
theorem Value.value_toTree (v : Value) : v.toTree.value = some v := by
  induction v with
  | integer i => simp [toTree, Tree.value, Integer.ofArgument_argument]
  | bytes b => rfl
  | text s => simp [toTree, Tree.value, Tree.strValue]
  | float bits =>
    cases h : shortestFloat bits with
    | mk w n =>
      obtain ⟨hw, -, hbits⟩ := shortestFloat_spec h
      rw [toTree, h, ← hbits]
      rcases hw with rfl | rfl | rfl <;> rfl
  | bool b => cases b <;> rfl
  | null => rfl
  | simple s =>
    obtain ⟨n, hn⟩ := s
    have hs : simpleValue n = some (.simple ⟨n, hn⟩) := by
      unfold simpleValue
      rw [if_neg (by omega), if_neg (by omega), if_neg (by omega), dif_pos hn]
    by_cases hlt : n < 24
    · simpa [toTree, preferred, hlt, Tree.value] using hs
    · have h32 : ¬ n < 32 := by omega
      have h256 : n < 256 := by omega
      simpa [toTree, preferred, hlt, h256, Tree.value, h32] using hs
  | tag n content ih =>
    rw [toTree, Tree.value, if_pos n.toNat_lt, ih, UInt64.ofNat_toNat]
    rfl
  | array items ih =>
    have h : Tree.valueItems (items.map toTree) = some items :=
      Tree.valueItems_eq_some.mpr (List.forall₂_map_left_iff.mpr (List.forall₂_same.mpr ih))
    rw [toTree, Tree.value, toTreeItems_eq, h]
    rfl
  | map entries ih =>
    have h : Tree.valueEntries (entries.map fun e => (e.1.toTree, e.2.toTree)) =
        some entries :=
      Tree.valueEntries_eq_some.mpr (List.forall₂_map_left_iff.mpr (List.forall₂_same.mpr ih))
    rw [toTree, Tree.value, toTreeEntries_eq, h]
    rfl

theorem Value.toTree_injective : Function.Injective Value.toTree := by
  intro v w h
  have hvalue := congrArg Tree.value h
  rw [Value.value_toTree, Value.value_toTree] at hvalue
  exact Option.some.inj hvalue

end Cbor
