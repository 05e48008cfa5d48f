import Cose2.Cbor.BigEndian
import Cose2.Util

/-! # The nonce of an encrypted layer

`nonce_from_header_values` takes a nonce from the IV of a layer or makes one of
its Partial IV.  `DerivesNonce` says which nonce that is, from the values that
count for the layer; the function computes exactly this, and two Partial IVs make
one nonce when they denote one number.
-/
namespace Cose2

open Cbor Iana

/-- The value of a label in a layer: the protected one, then the unprotected one. -/
def layerValue (protectedHeader unprotectedHeader : Header) (label : Label) : Option Value :=
  (protectedHeader.get label).or (unprotectedHeader.get label)

section

variable {p u : Header} {label : Label}

theorem layerValue_eq_none :
    layerValue p u label = none ↔ p.get label = none ∧ u.get label = none :=
  Option.or_eq_none_iff

theorem headerBytes_eq_ok {o : Option Bytes} :
    headerBytes p u label = .ok o ↔ layerValue p u label = o.map Value.bytes := by
  simp only [headerBytes, Except.bind_eq_ok, CoseMap.getBytes_eq_ok, layerValue]
  constructor
  · rintro ⟨o', hp, h⟩
    rw [hp]
    cases o' with
    | none =>
      rw [Option.map_none, Option.none_or]
      exact CoseMap.getBytes_eq_ok.mp h
    | some b =>
      rw [← Except.pure_eq_ok.mp h]
      rfl
  · intro h
    rcases hp : p.get label with _ | v
    · rw [hp, Option.none_or] at h
      exact ⟨none, rfl, CoseMap.getBytes_eq_ok.mpr h⟩
    · rw [hp, Option.some_or] at h
      obtain ⟨b, rfl, rfl⟩ := Option.map_eq_some_iff.mp h.symm
      exact ⟨some b, rfl, rfl⟩

end

/-- The nonces a layer has: its IV, or its Partial IV padded in front to the size
of a nonce and added to the Base IV. -/
inductive DerivesNonce (p u : Header) (nonceSize : Nat) (baseIv : Option Bytes) : Bytes → Prop
  | iv {iv : Bytes} (hiv : layerValue p u headerParameterIV = some (.bytes iv))
      (hpart : layerValue p u headerParameterPartialIV = none)
      (hsize : iv.length = nonceSize) : DerivesNonce p u nonceSize baseIv iv
  | partialIv {partialIv base : Bytes} (hiv : layerValue p u headerParameterIV = none)
      (hpart : layerValue p u headerParameterPartialIV = some (.bytes partialIv))
      (hbase : baseIv = some base) (hsize : base.length = nonceSize)
      (hfit : partialIv.length ≤ nonceSize) :
      DerivesNonce p u nonceSize baseIv (xorBytes (partialIv.leftpad nonceSize 0) base)

section

variable {p u : Header} {nonceSize : Nat} {baseIv : Option Bytes} {n : Bytes}

theorem nonceFromPartialIv_eq_ok {partialIv : Bytes} :
    nonceFromPartialIv partialIv nonceSize baseIv = .ok n ↔ ∃ base, baseIv = some base ∧
      base.length = nonceSize ∧ partialIv.length ≤ nonceSize ∧
        n = xorBytes (partialIv.leftpad nonceSize 0) base := by
  simp only [nonceFromPartialIv, Except.bind_eq_ok, Except.ofOption_eq_ok, Except.failIf_eq_ok,
    Except.pure_eq_ok, not_lt, ne_eq, not_not, exists_const]
  exact exists_congr fun _ => and_congr_right fun _ => and_congr_right fun _ =>
    and_congr_right fun _ => eq_comm

/-- The function computes the nonce of the layer, and fails where there is none. -/
theorem nonceFromHeaderValues_eq_ok :
    nonceFromHeaderValues p u nonceSize baseIv = .ok n ↔ DerivesNonce p u nonceSize baseIv n := by
  simp only [nonceFromHeaderValues, Except.bind_eq_ok, headerBytes_eq_ok]
  constructor
  · rintro ⟨iv, hiv, partialIv, hpart, _, hboth, h⟩
    rw [Except.failIf_eq_ok] at hboth
    cases iv with
    | some iv =>
      cases partialIv with
      -- both are refused before either is looked at
      | some q => simp at hboth
      | none =>
        obtain ⟨_, hsize, h⟩ := Except.bind_eq_ok.mp h
        rw [Except.failIf_eq_ok, not_not] at hsize
        cases h
        exact .iv hiv hpart hsize
    | none =>
      cases partialIv with
      | none => cases h
      | some q =>
        obtain ⟨base, hbase, hsize, hfit, rfl⟩ := nonceFromPartialIv_eq_ok.mp h
        exact .partialIv hiv hpart hbase hsize hfit
  · rintro (⟨hiv, hpart, rfl⟩ | ⟨hiv, hpart, hbase, hsize, hfit⟩)
    · refine ⟨some n, hiv, none, hpart, (), by simp, ?_⟩
      exact Except.bind_eq_ok.mpr ⟨(), Except.failIf_eq_ok.mpr (by simp), rfl⟩
    · refine ⟨none, hiv, some _, hpart, (), by simp, ?_⟩
      exact nonceFromPartialIv_eq_ok.mpr ⟨_, hbase, hsize, hfit, rfl⟩

theorem DerivesNonce.length (h : DerivesNonce p u nonceSize baseIv n) : n.length = nonceSize := by
  cases h with
  | iv _ _ hsize => exact hsize
  | partialIv _ _ _ hsize hfit => rw [xorBytes_length (by rw [leftpad_length hfit, hsize]), hsize]

/-- With one Base IV, the nonces of two Partial IVs are told apart by the numbers
these denote. -/
theorem DerivesNonce.inj {p' u' : Header} {nonceSize' : Nat} {base q q' n' : Bytes}
    (h : DerivesNonce p u nonceSize (some base) n)
    (h' : DerivesNonce p' u' nonceSize' (some base) n')
    (hq : layerValue p u headerParameterPartialIV = some (.bytes q))
    (hq' : layerValue p' u' headerParameterPartialIV = some (.bytes q')) :
    n = n' ↔ beNat q = beNat q' := by
  -- a layer with a Partial IV has no nonce from an IV
  rcases h with ⟨-, hpart, -⟩ | ⟨-, hpart, hbase, hsize, hfit⟩
  · rw [hq] at hpart
    cases hpart
  rcases h' with ⟨-, hpart', -⟩ | ⟨-, hpart', hbase', hsize', hfit'⟩
  · rw [hq'] at hpart'
    cases hpart'
  rw [hq] at hpart
  rw [hq'] at hpart'
  cases hpart
  cases hpart'
  cases hbase
  cases hbase'
  subst hsize
  subst hsize'
  rw [xorBytes_inj (leftpad_length hfit) (leftpad_length hfit'), leftpad_inj hfit hfit']

end

/-- A layer without a usable IV or Partial IV gets an error; otherwise its nonce has
the size asked for, and is its IV or comes from its Partial IV, in which case it
tells the number of the Partial IV. -/
theorem nonceFromHeaderValues_derives (p u : Header) (nonceSize : Nat) (baseIv : Option Bytes) :
    (∀ n, nonceFromHeaderValues p u nonceSize baseIv = .ok n →
      n.length = nonceSize ∧
      (p.containsKey headerParameterIV ∨ u.containsKey headerParameterIV →
        layerValue p u headerParameterIV = some (.bytes n) ∧
          p.get headerParameterPartialIV = none ∧ u.get headerParameterPartialIV = none) ∧
      (p.get headerParameterIV = none → u.get headerParameterIV = none →
        ∃ partialIv base, layerValue p u headerParameterPartialIV = some (.bytes partialIv) ∧
          baseIv = some base ∧ n = xorBytes (partialIv.leftpad nonceSize 0) base)) ∧
    (∀ p' u' nonceSize' q q' n n', baseIv.isSome →
      layerValue p u headerParameterPartialIV = some (.bytes q) →
      layerValue p' u' headerParameterPartialIV = some (.bytes q') →
      nonceFromHeaderValues p u nonceSize baseIv = .ok n →
      nonceFromHeaderValues p' u' nonceSize' baseIv = .ok n' →
      (n = n' ↔ beNat q = beNat q')) ∧
    ((∃ e, nonceFromHeaderValues p u nonceSize baseIv = .error e) ↔
      ¬ ((∃ iv, layerValue p u headerParameterIV = some (.bytes iv) ∧ iv.length = nonceSize ∧
          layerValue p u headerParameterPartialIV = none) ∨
        ∃ partialIv base, layerValue p u headerParameterIV = none ∧
          layerValue p u headerParameterPartialIV = some (.bytes partialIv) ∧
          baseIv = some base ∧ base.length = nonceSize ∧ partialIv.length ≤ nonceSize)) := by
  refine ⟨?_, ?_, ?_⟩
  · intro n h
    have h := nonceFromHeaderValues_eq_ok.mp h
    refine ⟨h.length, ?_, ?_⟩
    · intro hkey
      rcases h with ⟨hiv, hpart, -⟩ | ⟨hiv, -, -, -, -⟩
      · exact ⟨hiv, layerValue_eq_none.mp hpart⟩
      · obtain ⟨hp, hu⟩ := layerValue_eq_none.mp hiv
        simp [BTreeMap.containsKey, hp, hu] at hkey
    · intro hp hu
      rcases h with ⟨hiv, -, -⟩ | ⟨-, hpart, hbase, -, -⟩
      · rw [layerValue_eq_none.mpr ⟨hp, hu⟩] at hiv
        cases hiv
      · exact ⟨_, _, hpart, hbase, rfl⟩
  · intro p' u' nonceSize' q q' n n' hsome hq hq' h h'
    obtain ⟨base, rfl⟩ := Option.isSome_iff_exists.mp hsome
    exact (nonceFromHeaderValues_eq_ok.mp h).inj (nonceFromHeaderValues_eq_ok.mp h') hq hq'
  · have herror : (∃ e, nonceFromHeaderValues p u nonceSize baseIv = .error e) ↔
        ¬ ∃ n, DerivesNonce p u nonceSize baseIv n := by
      simp only [← nonceFromHeaderValues_eq_ok]
      cases nonceFromHeaderValues p u nonceSize baseIv <;> simp
    rw [herror, not_iff_not]
    constructor
    · rintro ⟨n, ⟨hiv, hpart, hsize⟩ | ⟨hiv, hpart, hbase, hsize, hfit⟩⟩
      · exact .inl ⟨n, hiv, hsize, hpart⟩
      · exact .inr ⟨_, _, hiv, hpart, hbase, hsize, hfit⟩
    · rintro (⟨iv, hiv, hsize, hpart⟩ | ⟨q, base, hiv, hpart, hbase, hsize, hfit⟩)
      · exact ⟨iv, .iv hiv hpart hsize⟩
      · exact ⟨_, .partialIv hiv hpart hbase hsize hfit⟩

/-- An empty Partial IV is not refused: it denotes zero, and the nonce is the Base IV. -/
theorem nonceFromHeaderValues_empty_partialIv :
    ¬ ∀ (p u : Header) (nonceSize : Nat) (baseIv : Option Bytes),
      layerValue p u headerParameterPartialIV = some (.bytes []) →
        ∃ e, nonceFromHeaderValues p u nonceSize baseIv = .error e := by
  intro h
  obtain ⟨e, he⟩ := h ∅ ((∅ : Header).insert headerParameterPartialIV (.bytes [])) 2
    (some [7, 9]) rfl
  have hok : nonceFromHeaderValues ∅ ((∅ : Header).insert headerParameterPartialIV (.bytes [])) 2
      (some [7, 9]) = .ok [7, 9] := rfl
  rw [hok] at he
  cases he

end Cose2
