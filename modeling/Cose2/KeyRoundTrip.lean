import Cose2.HeaderRoundTrip
import Cose2.Key

/-! # Keys read back

A valid key is valid as it is read.  `Key::try_from` takes a key from a value inside a
header; it takes the same key, as it is read, from what is read of the value.
-/
namespace Cose2

open Cbor Cbor2 Iana

namespace Key

variable {c : Cbor2} {k : Key}

theorem fromSlice_ok {data : Bytes} : Key.fromSlice c data = .ok k ↔
    CoseMap.fromSlice c data = .ok k ∧ k.validate = .ok () := by
  simp only [Key.fromSlice, Except.bind_eq_ok, Except.pure_eq_ok]
  constructor
  · rintro ⟨_, hmap, _, hvalid, rfl⟩
    exact ⟨hmap, hvalid⟩
  · rintro ⟨hmap, hvalid⟩
    exact ⟨k, hmap, (), hvalid, rfl⟩

theorem tryFrom_ok {v : Value} : Key.tryFrom c v = .ok k ↔
    ∃ b, c.toCanonicalVec v = .ok b ∧ Key.fromSlice c b = .ok k := by
  rw [Key.tryFrom, Except.bind_eq_ok]
  refine exists_congr fun b => and_congr_left fun _ => ?_
  rw [canonicalVec, Except.mapError_eq_ok]

theorem asRead_of_opFromValue {v : Value} {l : Label} (h : opFromValue v = .ok l) :
    v.asRead = v := by
  cases v with
  | integer | text => rfl
  | bytes | float | bool | null | simple | tag | array | map => cases h

theorem ops_asRead {o : Option (List Label)} (h : k.ops = .ok o) :
    Key.ops k.asRead = .ok o := by
  unfold ops CoseMap.getArray at h ⊢
  rw [CoseMap.get_asRead]
  cases hget : k.get keyParameterKeyOps with
  | none =>
    rw [hget] at h
    exact h
  | some v =>
    rw [hget] at h
    cases v with
    | array values =>
      rw [Except.ok_bind, Except.bind_eq_ok] at h
      obtain ⟨labels, hlabels, h⟩ := h
      rw [Option.map_some, Value.asRead_array, map_asRead_of_mapM asRead_of_opFromValue hlabels]
      exact Except.bind_eq_ok.mpr ⟨some values, rfl, Except.bind_eq_ok.mpr ⟨labels, hlabels, h⟩⟩
    | integer | bytes | text | float | bool | null | simple | tag | map => cases h

/-- A valid key is valid as it is read. -/
theorem validate_asRead (h : k.validate = .ok ()) : Key.validate k.asRead = .ok () := by
  simp only [validate, Except.bind_eq_ok, Except.pure_eq_ok] at h ⊢
  obtain ⟨kty, hkty, u, hpresent, alg, halg, ops, hops, kid, hkid, baseIv, hbaseIv, hu⟩ := h
  exact ⟨kty, CoseMap.getLabel_asRead hkty, u, hpresent, alg,
    CoseMap.getLabel_asRead halg, ops, ops_asRead hops, kid,
    CoseMap.getBytes_asRead hkid, baseIv, CoseMap.getBytes_asRead hbaseIv, hu⟩

/-- A key that was taken from a value is taken from what is read of the value. -/
theorem tryFrom_settle (hread : c.ReadsItems) (hw : c.WritesValues) (hc : c.ReadsValues)
    (hd : c.Describes) (hr : c.ReadsBack) (hrecursion : defaultMaxDepth < c.recursionLimit)
    {v v' : Value} (hwritable : v.norm.Writable) (hsettle : v'.norm = v.settle)
    (hdefined : v'.Defined) (hencodes : ∃ b, c.toCanonicalVec v' = .ok b)
    (h : Key.tryFrom c v = .ok k) : Key.tryFrom c v' = .ok k.asRead := by
  obtain ⟨b, hb, h⟩ := tryFrom_ok.mp h
  obtain ⟨b', hb'⟩ := hencodes
  obtain ⟨hmap, hvalid⟩ := fromSlice_ok.mp h
  rw [hw.canonical hb] at hmap
  have hmap' := CoseMap.fromSlice_settle hread hc hd hr hrecursion hwritable hsettle hdefined
    (hr.distinct hb') hmap
  rw [← hw.canonical hb'] at hmap'
  exact tryFrom_ok.mpr ⟨b', hb', fromSlice_ok.mpr ⟨hmap', validate_asRead hvalid⟩⟩

end Key
end Cose2
