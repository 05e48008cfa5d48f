import Cose2.Strict.Accessors
import Cose2.Strict.Grammar

/-! # Byte strings in one or many chunks

`decode_bytes` collects the chunks of a byte string from their places in the input.
What it collects is the value of the item.
-/
namespace Cose2.Strict

open Cbor

variable {data out out' : Bytes} {pos : Nat}

/-- The content of a string in its place. -/
theorem slice_content {w : Width} {payload : Bytes}
    (h : Tree.strBytes false (w, payload) <+: data.drop pos) :
    slice data (pos + (1 + w.size)) (pos + (Tree.strBytes false (w, payload)).length) =
      payload := by
  have hlen : (head 2 w payload.length).length = 1 + w.size := head_length _ _ _
  have hbytes : Tree.strBytes false (w, payload) = head 2 w payload.length ++ payload := rfl
  rw [hbytes, append_prefix_drop, hlen] at h
  rw [hbytes, List.length_append, hlen, ← Nat.add_assoc pos (1 + w.size),
    slice_of_prefix h.2]

theorem appendBytes_str {w : Width} {payload : Bytes}
    (h : Tree.strBytes false (w, payload) <+: data.drop pos) :
    appendBytes data (itemWith pos (.str false w payload) []) out = .ok (out ++ payload) := by
  have hslice := slice_content h
  rw [itemWith, appendBytes]
  simp only [kindOf, strKind, indefiniteOf, headLength, Tree.bytes, hslice]
  rfl

theorem appendChunks_ok {chunks : List (Width × Bytes)}
    (h : chunks.flatMap (Tree.strBytes false) <+: data.drop pos) :
    appendChunks data (chunksAt false pos chunks) out = .ok (out ++ chunks.flatMap Prod.snd) := by
  induction chunks generalizing pos out with
  | nil => simp [chunksAt, appendChunks]
  | cons chunk chunks ih =>
    obtain ⟨w, payload⟩ := chunk
    rw [List.flatMap_cons, append_prefix_drop] at h
    obtain ⟨hhead, htail⟩ := h
    rw [chunksAt, appendChunks, appendBytes_str hhead, Except.ok_bind, ih htail,
      List.flatMap_cons, List.append_assoc]

theorem kindOf_of_value {t : Tree} {b : Bytes} (h : t.value = some (.bytes b)) :
    kindOf t = .bytes := by
  obtain ⟨w, rfl⟩ | ⟨chunks, rfl, -⟩ := Tree.eq_of_value_bytes h
  · rfl
  · rfl

/-- Exactly the value of a byte string is appended. -/
theorem appendBytes_ok {t : Tree} (h : t.bytes <+: data.drop pos) :
    appendBytes data (itemAt pos t) out = .ok out' ↔
      ∃ b, t.value = some (.bytes b) ∧ out' = out ++ b := by
  by_cases hkind : kindOf t = .bytes
  · have hone {b : Bytes} (hv : t.value = some (.bytes b))
        (happend : appendBytes data (itemAt pos t) out = .ok (out ++ b)) :
        appendBytes data (itemAt pos t) out = .ok out' ↔
          ∃ b, t.value = some (.bytes b) ∧ out' = out ++ b := by
      rw [happend, hv]
      simp [eq_comm]
    cases t with
    | str text w payload =>
      cases text with
      | false => exact hone rfl (appendBytes_str h)
      | true => cases hkind
    | chunked text chunks =>
      cases text with
      | false =>
        refine hone rfl ?_
        have hchunks : chunks.flatMap (Tree.strBytes false) <+: data.drop (pos + 1) := by
          rw [Tree.bytes, ← List.singleton_append, append_prefix_drop,
            append_prefix_drop] at h
          exact h.2.1
        rw [itemAt, itemWith, appendBytes, appendChunks_ok hchunks]
        rfl
      | true => cases hkind
    | int negative => cases negative <;> cases hkind
    | array | map | tag => cases hkind
    | prim w n => cases w <;> cases hkind
  · constructor
    · intro happend
      rw [itemAt_eq, itemWith, appendBytes, if_pos hkind] at happend
      cases happend
    · rintro ⟨b, hv, -⟩
      exact absurd (kindOf_of_value hv) hkind

variable {c : Cbor2}

theorem decodeBytes_ok {b : Bytes} : decodeBytes c data = .ok b ↔
    ∃ t : Tree, data = t.bytes ∧ t.Fits ∧ WithinLimits {} t ∧ KeysOk c t ∧
      t.value = some (.bytes b) := by
  simp only [decodeBytes, Except.bind_eq_ok, Except.failIf_eq_ok, not_not, root,
    rootWithDuplicatePolicy_ok]
  constructor
  · rintro ⟨_, ⟨t, rfl, hfits, hlimits, hkeys, rfl⟩, _, -, happend⟩
    obtain ⟨b', hv, rfl⟩ := (appendBytes_ok List.prefix_rfl).mp happend
    exact ⟨t, rfl, hfits, hlimits, hkeys trivial, hv⟩
  · rintro ⟨t, rfl, hfits, hlimits, hkeys, hv⟩
    refine ⟨_, ⟨t, rfl, hfits, hlimits, fun _ => hkeys, rfl⟩, (), ?_, ?_⟩
    · rw [itemAt_kind]
      exact kindOf_of_value hv
    · exact (appendBytes_ok List.prefix_rfl).mpr ⟨b, hv, rfl⟩

theorem decodeOptionalBytes_ok {o : Option Bytes} : decodeOptionalBytes c data = .ok o ↔
    ∃ t : Tree, data = t.bytes ∧ t.Fits ∧ WithinLimits {} t ∧ KeysOk c t ∧
      ((kindOf t = .simple 22 ∧ o = none) ∨ ∃ b, t.value = some (.bytes b) ∧ o = some b) := by
  simp only [decodeOptionalBytes, Except.bind_eq_ok, root, rootWithDuplicatePolicy_ok]
  constructor
  · rintro ⟨_, ⟨t, rfl, hfits, hlimits, hkeys, rfl⟩, h⟩
    refine ⟨t, rfl, hfits, hlimits, hkeys trivial, ?_⟩
    rw [itemAt_kind] at h
    split_ifs at h with hnull
    · exact .inl ⟨hnull, (Except.pure_eq_ok.mp h).symm⟩
    · obtain ⟨b', happend, h⟩ := Except.bind_eq_ok.mp h
      obtain ⟨b, hv, rfl⟩ := (appendBytes_ok List.prefix_rfl).mp happend
      exact .inr ⟨_, hv, (Except.pure_eq_ok.mp h).symm⟩
  · rintro ⟨t, rfl, hfits, hlimits, hkeys, hcase⟩
    refine ⟨_, ⟨t, rfl, hfits, hlimits, fun _ => hkeys, rfl⟩, ?_⟩
    rw [itemAt_kind]
    rcases hcase with ⟨hnull, rfl⟩ | ⟨b', hv, rfl⟩
    · rw [if_pos hnull]
      rfl
    · rw [if_neg (by rw [kindOf_of_value hv]; rintro ⟨⟩)]
      exact Except.bind_eq_ok.mpr
        ⟨b', (appendBytes_ok List.prefix_rfl).mpr ⟨b', hv, rfl⟩, rfl⟩

end Cose2.Strict
