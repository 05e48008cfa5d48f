import Cose2.SdCwt.Agree

/-! # Views of a claim

A view of a disclosed value leaves out some of its map entries and array elements,
with hashes in their place, and may contain hashes of nothing at all.  The
comparison of claims accepts any two views of one value, accepts both ways or neither, and
decides equality of the canonical encodings where nothing is hidden (`ComparesViews`).

It does so for maps with distinct labels, which is what restoration makes.  Where a
key is repeated, the last value counts on the right side and none but the first
finds a counterpart on the left side, so the two orders of arguments differ.
-/
namespace Cose2.SdCwt

open Cbor

/-! ### Disclosed values -/

/-- Nothing is hidden in the value, and the keys of its maps are distinct labels. -/
inductive Disclosed : Value → Prop
  | scalar {v : Value} : IsScalar v → isRedactedClaimKeysLabel v = false → Disclosed v
  | tag {t : UInt64} {v : Value} : ¬ IsReservedTag t → Disclosed v → Disclosed (.tag t v)
  | array {vs : List Value} : (∀ v ∈ vs, Disclosed v) → Disclosed (.array vs)
  | map {es : List (Value × Value)} : (∀ e ∈ es, ∃ l, labelFromValue e.1 = .ok l) →
    (es.map Prod.fst).Nodup → (∀ e ∈ es, Disclosed e.2) → Disclosed (.map es)

/-- Nothing is hidden in the value. -/
inductive Unmarked : Value → Prop
  | scalar {v : Value} : IsScalar v → isRedactedClaimKeysLabel v = false → Unmarked v
  | tag {t : UInt64} {v : Value} : ¬ IsReservedTag t → Unmarked v → Unmarked (.tag t v)
  | array {vs : List Value} : (∀ v ∈ vs, Unmarked v) → Unmarked (.array vs)
  | map {es : List (Value × Value)} : (∀ e ∈ es, isVisible e = true) →
    (∀ e ∈ es, Unmarked e.2) → Unmarked (.map es)

/-- Every bignum is written in its shortest form. -/
inductive ShortBignums : Value → Prop
  | scalar {v : Value} : IsScalar v → ShortBignums v
  | tag {t : UInt64} {v : Value} : Value.reduceTag t v.norm = .tag t v.norm → ShortBignums v →
    ShortBignums (.tag t v)
  | array {vs : List Value} : (∀ v ∈ vs, ShortBignums v) → ShortBignums (.array vs)
  | map {es : List (Value × Value)} : (∀ e ∈ es, ShortBignums e.2) → ShortBignums (.map es)

theorem Disclosed.not_redacted {v : Value} (h : Disclosed v) : isRedactedElement v = false := by
  cases h with
  | scalar hs => cases v <;> first | rfl | exact hs.elim
  | tag ht =>
    simp only [isRedactedElement, decide_eq_false_iff_not]
    exact fun h => ht (.inl h)
  | array | map => rfl

theorem isVisible_of_label {e : Value × Value} {l : Label} (h : labelFromValue e.1 = .ok l) :
    isVisible e = true := by
  rw [isVisible, labelFromValue_ok h]
  exact toValue_visible l e.2

theorem Disclosed.labelled {v : Value} (h : Disclosed v) : Labelled v := by
  induction h with
  | scalar hs => exact .scalar hs
  | tag _ _ ih => exact .tag ih
  | array _ ih => exact .array fun v hv _ => ih v hv
  | map hkeys hnodup _ ih =>
    exact .map (fun e he _ => hkeys e he) (hnodup.sublist (List.filter_sublist.map _))
      fun e he _ => ih e he

/-! ### Where nothing is hidden -/

theorem norm_of_label {v : Value} {l : Label} (h : labelFromValue v = .ok l) : v.norm = v := by
  rw [labelFromValue_ok h, Label.norm_toValue]

/-- Lists of the same length are alike up to `f` when they are element by element. -/
theorem map_eq_map_iff_zip {α β : Type} {f : α → β} {as bs : List α}
    (h : as.length = bs.length) :
    as.map f = bs.map f ↔ ∀ p ∈ as.zip bs, f p.1 = f p.2 := by
  induction as generalizing bs with
  | nil =>
    rw [List.length_nil, eq_comm, List.length_eq_zero_iff] at h
    simp [h]
  | cons a as ih =>
    cases bs with
    | nil => cases h
    | cons b bs =>
      rw [List.map_cons, List.map_cons, List.zip_cons_cons, List.forall_mem_cons,
        List.cons.injEq, ih (Nat.succ.inj h)]

/-- Two entries of a map with the same key are the same. -/
theorem eq_of_key {es : List (Value × Value)} (hnodup : (es.map Prod.fst).Nodup)
    {e e' : Value × Value} (he : e ∈ es) (he' : e' ∈ es) (h : e.1 = e'.1) : e = e' :=
  List.inj_on_of_nodup_map hnodup he he' h

/-- Entries with distinct labels sort alike when they are the same up to order. -/
theorem sortEntries_eq_of_perm {es fs : List (Value × Value)}
    (hlabels : ∀ e ∈ es, e.1.Writable) (hnodup : (es.map Prod.fst).Nodup) (h : es.Perm fs) :
    Value.sortEntries es = Value.sortEntries fs := by
  have hperm : (Value.sortEntries es).Perm (Value.sortEntries fs) :=
    ((Value.sortEntries_perm es).trans h).trans (Value.sortEntries_perm fs).symm
  refine hperm.eq_of_pairwise (fun a b ha hb hab hba => ?_)
    (List.pairwise_insertionSort Value.KeyBefore es)
    (List.pairwise_insertionSort Value.KeyBefore fs)
  have ha' := Value.mem_sortEntries.mp ha
  have hb' := h.mem_iff.mpr (Value.mem_sortEntries.mp hb)
  have hkey := Value.encode_inj (hlabels a ha') (hlabels b hb') (before_antisymm hab hba)
  exact eq_of_key hnodup ha' hb' hkey

/-- Disclosed maps with the same keys and values normalize alike. -/
theorem norm_map_eq {left right : List (Value × Value)}
    (hl : ∀ e ∈ left, ∃ l, labelFromValue e.1 = .ok l) (hln : (left.map Prod.fst).Nodup)
    (hr : ∀ e ∈ right, ∃ l, labelFromValue e.1 = .ok l) (hrn : (right.map Prod.fst).Nodup)
    (hw : ∀ e ∈ left, e.1.Writable)
    (hvalues : ∀ e ∈ left, ∀ e' ∈ right, e'.1 = e.1 → e.2.norm = e'.2.norm)
    (hleft : ∀ e ∈ left, ∃ e' ∈ right, e'.1 = e.1)
    (hright : ∀ e ∈ right, ∃ e' ∈ left, e'.1 = e.1) :
    (Value.map left).norm = (Value.map right).norm := by
  have hnorm {es : List (Value × Value)} (h : ∀ e ∈ es, ∃ l, labelFromValue e.1 = .ok l) :
      Value.normEntries es = es.map fun e => (e.1, e.2.norm) := by
    rw [Value.normEntries_eq]
    refine List.map_congr_left fun e he => ?_
    obtain ⟨l, hl⟩ := h e he
    rw [norm_of_label hl]
  have hkeys (es : List (Value × Value)) :
      (es.map fun e => (e.1, e.2.norm)).map Prod.fst = es.map Prod.fst := by
    rw [List.map_map]
    rfl
  have hperm : (left.map fun e => (e.1, e.2.norm)).Perm
      (right.map fun e => (e.1, e.2.norm)) := by
    have hnodup {es : List (Value × Value)} (h : (es.map Prod.fst).Nodup) :
        (es.map fun e => (e.1, e.2.norm)).Nodup := by
      apply List.Nodup.of_map Prod.fst
      rwa [hkeys]
    refine (List.perm_ext_iff_of_nodup (hnodup hln) (hnodup hrn)).mpr fun p => ?_
    rw [List.mem_map, List.mem_map]
    constructor
    · rintro ⟨e, he, rfl⟩
      obtain ⟨e', he', hkey⟩ := hleft e he
      exact ⟨e', he', by rw [hkey, hvalues e he e' he' hkey]⟩
    · rintro ⟨e, he, rfl⟩
      obtain ⟨e', he', hkey⟩ := hright e he
      exact ⟨e', he', by rw [hkey, hvalues e' he' e he hkey.symm]⟩
  rw [Value.norm, Value.norm, hnorm hl, hnorm hr]
  refine congrArg Value.map (sortEntries_eq_of_perm (fun p hp => ?_) (by rwa [hkeys]) hperm)
  obtain ⟨e, he, rfl⟩ := List.mem_map.mp hp
  exact hw e he

theorem not_hidden {es : List (Value × Value)}
    (h : ∀ e ∈ es, ∃ l, labelFromValue e.1 = .ok l) : ¬ Hidden es := by
  rintro ⟨e, he, hv⟩
  obtain ⟨l, hl⟩ := h e he
  rw [isVisible_of_label hl] at hv
  cases hv

theorem encodable_scalar {c : SdCbor2} (hrecursion : 0 < c.recursionLimit) {v : Value}
    (hv : IsScalar v) (hw : v.Writable) : Encodable c v := by
  have hchildren : v.norm.toTree.children = [] := by
    cases v with
    | map | array | tag => exact hv.elim
    | integer | bytes | text | float | bool | null | simple => rfl
  refine ⟨hw, Value.duplicateFree_of_children hchildren ?_, ?_⟩
  · cases v with
    | map | array | tag => exact hv.elim
    | integer | bytes | text | float | bool | null | simple => rintro _ ⟨⟩
  · cases v with
    | map | array | tag => exact hv.elim
    | integer | bytes | text | float | bool | null | simple => exact hrecursion

theorem SameEncoding.norm_eq {c : SdCbor2} (he : c.EncodesCanonically) {v w : Value}
    (h : SameEncoding c v w) (hv : v.Writable) (hw : w.Writable) : v.norm = w.norm := by
  obtain ⟨bs, hvbs, hwbs⟩ := h
  rw [← Value.canonical_inj hv hw, ← he.writes (Except.mapError_eq_ok.mp hvbs),
    ← he.writes (Except.mapError_eq_ok.mp hwbs)]

theorem sameEncoding_of_norm_eq {c : SdCbor2} (he : c.EncodesCanonically) {v w : Value}
    (hv : Encodable c v) (hw : Encodable c w) (h : v.norm = w.norm) : SameEncoding c v w := by
  refine ⟨v.canonical, hv.canonicalVec he, ?_⟩
  rw [Value.canonical, h]
  exact hw.canonicalVec he

theorem known_of_disclosed {vs : List Value} (h : ∀ v ∈ vs, Disclosed v) :
    known vs = vs.length := by
  rw [known, List.countP_eq_length]
  intro v hv
  rw [(h v hv).not_redacted]
  rfl

/-- Disclosed values that agree are the same data. -/
theorem Agree.norm_eq {c : SdCbor2} (he : c.EncodesCanonically) {left right : Value}
    (h : Agree (SameEncoding c) left right) (hl : Disclosed left)
    (hr : Disclosed right) (hlw : left.Writable) (hrw : right.Writable) :
    left.norm = right.norm := by
  induction h with
  | @map left right _ hleft hright ih =>
    cases hl with
    | scalar h => exact h.elim
    | map hlkeys hln hlvalues =>
      cases hr with
      | scalar h => exact h.elim
      | map hrkeys hrn hrvalues =>
        rw [Value.writable_map] at hlw hrw
        have hvis {es : List (Value × Value)} (h : ∀ e ∈ es, ∃ l, labelFromValue e.1 = .ok l)
            (e : Value × Value) (he : e ∈ es) : isVisible e = true := by
          obtain ⟨l, hl⟩ := h e he
          exact isVisible_of_label hl
        refine norm_map_eq hlkeys hln hrkeys hrn (fun e he => (hlw.2 e he).1)
          (fun e he e' he' hkey => ?_) (fun e he => ?_) (fun e he => ?_)
        · exact ih e he (hvis hlkeys e he) e' he' hkey (hlvalues e he) (hrvalues e' he')
            (hlw.2 e he).2 (hrw.2 e' he').2
        · rcases hleft with h | h
          · exact absurd h (not_hidden hrkeys)
          · exact h e he (hvis hlkeys e he)
        · rcases hright with h | h
          · exact absurd h (not_hidden hlkeys)
          · exact h e he (hvis hrkeys e he)
  | @array left right hleft hright _ _ ih _ =>
    cases hl with
    | scalar h => exact h.elim
    | array hl =>
      cases hr with
      | scalar h => exact h.elim
      | array hr =>
        rw [Value.writable_array] at hlw hrw
        have hlk := known_of_disclosed hl
        have hrk := known_of_disclosed hr
        rw [knownPrefix_of_known hlk, knownPrefix_of_known hrk] at ih
        rw [Value.norm, Value.norm, Value.normItems_eq, Value.normItems_eq]
        refine congrArg Value.array ((map_eq_map_iff_zip (by omega)).mpr fun p hp => ?_)
        obtain ⟨h1, h2⟩ := List.of_mem_zip (a := p.1) (b := p.2) hp
        exact ih p hp (hl _ h1) (hr _ h2) (hlw.2 _ h1) (hrw.2 _ h2)
  | tag _ ih =>
    cases hl with
    | scalar h => exact h.elim
    | tag _ hl =>
      cases hr with
      | scalar h => exact h.elim
      | tag _ hr =>
        rw [Value.writable_tag] at hlw hrw
        rw [Value.norm, Value.norm, ih hl hr hlw hrw]
  | leaf _ hsame => exact hsame.norm_eq he hlw hrw

/-- Values that are not compared part by part are scalars, if they are the same data and their
bignums are in their shortest form. -/
theorem scalars_of_norm_eq {left right : Value} (hshape : ¬ SameShape left right)
    (hls : ShortBignums left) (hrs : ShortBignums right) (h : left.norm = right.norm) :
    IsScalar left ∧ IsScalar right := by
  have scalar {v : Value} (hv : IsScalar v) : IsScalar v.norm := by
    cases v with
    | map | array | tag => exact hv.elim
    | integer | bytes | text | float | bool | null | simple => trivial
  cases hls with
  | scalar hl =>
    have hnorm := scalar hl
    rw [h] at hnorm
    cases hrs with
    | scalar hr => exact ⟨hl, hr⟩
    | tag ht =>
      rw [Value.norm, ht] at hnorm
      exact hnorm.elim
    | array | map => exact hnorm.elim
  | tag ht =>
    rw [Value.norm, ht] at h
    cases hrs with
    | scalar hr =>
      have hnorm := scalar hr
      rw [← h] at hnorm
      exact hnorm.elim
    | tag ht' =>
      rw [Value.norm, ht'] at h
      exact absurd (Value.tag.inj h).1 hshape
    | array | map => cases h
  | array =>
    rw [Value.norm] at h
    cases hrs with
    | scalar hr =>
      have hnorm := scalar hr
      rw [← h] at hnorm
      exact hnorm.elim
    | tag ht =>
      rw [Value.norm, ht] at h
      cases h
    | array => exact absurd trivial hshape
    | map => cases h
  | map =>
    rw [Value.norm] at h
    cases hrs with
    | scalar hr =>
      have hnorm := scalar hr
      rw [← h] at hnorm
      exact hnorm.elim
    | tag ht =>
      rw [Value.norm, ht] at h
      cases h
    | array => cases h
    | map => exact absurd trivial hshape

/-- The same data agrees, if its bignums are in their shortest form. -/
theorem agree_of_norm_eq {c : SdCbor2} (he : c.EncodesCanonically)
    (hrecursion : 0 < c.recursionLimit) {left right : Value} (hl : Disclosed left)
    (hr : Disclosed right) (hls : ShortBignums left) (hrs : ShortBignums right)
    (hlw : left.Writable) (hrw : right.Writable) (h : left.norm = right.norm) :
    Agree (SameEncoding c) left right := by
  have leaf {left right : Value} (hshape : ¬ SameShape left right) (hls : ShortBignums left)
      (hrs : ShortBignums right) (hlw : left.Writable) (hrw : right.Writable)
      (h : left.norm = right.norm) : Agree (SameEncoding c) left right := by
    obtain ⟨hl, hr⟩ := scalars_of_norm_eq hshape hls hrs h
    exact .leaf hshape (sameEncoding_of_norm_eq he (encodable_scalar hrecursion hl hlw)
      (encodable_scalar hrecursion hr hrw) h)
  induction left generalizing right with
  | map left ih =>
    cases right with
    | map right =>
      cases hl with
      | scalar h => exact h.elim
      | map hlkeys hln hlvalues =>
        cases hr with
        | scalar h => exact h.elim
        | map hrkeys hrn hrvalues =>
          cases hls with
          | scalar h => exact h.elim
          | map hls =>
            cases hrs with
            | scalar h => exact h.elim
            | map hrs =>
              rw [Value.writable_map] at hlw hrw
              rw [Value.norm, Value.norm, Value.map.injEq] at h
              -- entries with the same key and equally normalized values on the other side
              have hmem {es fs : List (Value × Value)}
                  (hes : ∀ e ∈ es, ∃ l, labelFromValue e.1 = .ok l)
                  (hfs : ∀ e ∈ fs, ∃ l, labelFromValue e.1 = .ok l)
                  (h : Value.sortEntries (Value.normEntries es) =
                    Value.sortEntries (Value.normEntries fs))
                  (e : Value × Value) (he : e ∈ es) :
                  ∃ e' ∈ fs, e'.1 = e.1 ∧ e'.2.norm = e.2.norm := by
                have hin := Value.mem_sort_norm.mpr ⟨e, he, rfl⟩
                rw [h, Value.mem_sort_norm] at hin
                obtain ⟨e', he', heq⟩ := hin
                obtain ⟨l, hl⟩ := hes e he
                obtain ⟨l', hl'⟩ := hfs e' he'
                rw [norm_of_label hl, norm_of_label hl', Prod.mk.injEq] at heq
                exact ⟨e', he', heq⟩
              refine .map (fun e he _ e' he' hkey => ?_) (.inr fun e he _ => ?_)
                (.inr fun e he _ => ?_)
              · obtain ⟨e'', he'', hkey', hnorm⟩ := hmem hlkeys hrkeys h e he
                obtain rfl := eq_of_key hrn he' he'' (hkey.trans hkey'.symm)
                exact (ih e he).2 (hlvalues e he) (hrvalues e' he') (hls e he) (hrs e' he')
                  (hlw.2 e he).2 (hrw.2 e' he').2 hnorm.symm
              · obtain ⟨e', he', hkey, -⟩ := hmem hlkeys hrkeys h e he
                exact ⟨e', he', hkey⟩
              · obtain ⟨e', he', hkey, -⟩ := hmem hrkeys hlkeys h.symm e he
                exact ⟨e', he', hkey⟩
    | _ => exact leaf (by exact id) hls hrs hlw hrw h
  | array left ih =>
    cases right with
    | array right =>
      cases hl with
      | scalar h => exact h.elim
      | array hl =>
        cases hr with
        | scalar h => exact h.elim
        | array hr =>
          cases hls with
          | scalar h => exact h.elim
          | array hls =>
            cases hrs with
            | scalar h => exact h.elim
            | array hrs =>
              rw [Value.writable_array] at hlw hrw
              rw [Value.norm, Value.norm, Value.array.injEq, Value.normItems_eq,
                Value.normItems_eq] at h
              have hlength : left.length = right.length := by
                simpa using congrArg List.length h
              have hagree (p : Value × Value) (hp : p ∈ left.zip right) :
                  Agree (SameEncoding c) p.1 p.2 := by
                obtain ⟨h1, h2⟩ := List.of_mem_zip (a := p.1) (b := p.2) hp
                exact ih _ h1 (hl _ h1) (hr _ h2) (hls _ h1) (hrs _ h2) (hlw.2 _ h1) (hrw.2 _ h2)
                  ((map_eq_map_iff_zip hlength).mp h p hp)
              have hlk := known_of_disclosed hl
              have hrk := known_of_disclosed hr
              have hlrk : known left.reverse = left.reverse.length :=
                known_of_disclosed fun v hv => hl v (List.mem_reverse.mp hv)
              have hrrk : known right.reverse = right.reverse.length :=
                known_of_disclosed fun v hv => hr v (List.mem_reverse.mp hv)
              refine .array (by omega) (by omega) (fun p hp => ?_) (fun p hp => ?_)
              · rw [knownPrefix_of_known hlk, knownPrefix_of_known hrk] at hp
                exact hagree p hp
              · rw [knownPrefix_of_known hlrk, knownPrefix_of_known hrrk, List.zip,
                  ← List.reverse_zipWith hlength, List.mem_reverse] at hp
                exact hagree p hp
    | _ => exact leaf (by exact id) hls hrs hlw hrw h
  | tag t left ih =>
    by_cases hshape : SameShape (.tag t left) right
    · cases right with
      | tag t' right =>
        obtain rfl : t = t' := hshape
        cases hl with
        | scalar h => exact h.elim
        | tag _ hl =>
          cases hr with
          | scalar h => exact h.elim
          | tag _ hr =>
            cases hls with
            | scalar h => exact h.elim
            | tag hlt hls =>
              cases hrs with
              | scalar h => exact h.elim
              | tag hrt hrs =>
                rw [Value.norm, Value.norm, hlt, hrt, Value.tag.injEq] at h
                rw [Value.writable_tag] at hlw hrw
                exact .tag (ih hl hr hls hrs hlw hrw h.2)
      | _ => exact hshape.elim
    · exact leaf hshape hls hrs hlw hrw h
  | integer | bytes | text | float | bool | null | simple =>
    exact leaf (by exact id) hls hrs hlw hrw h

/-! ### Views -/

mutual
/-- `View v w`: `w` shows some of `v`. -/
inductive View : Value → Value → Prop
  | scalar {v : Value} : IsScalar v → View v v
  | tag {t : UInt64} {v w : Value} : View v w → View (.tag t v) (.tag t w)
  | array {vs ws : List Value} : ViewItems vs ws → View (.array vs) (.array ws)
  | map {es fs : List (Value × Value)} : ViewEntries es fs false → View (.map es) (.map fs)
  /-- A list of hashes stands for the entries that are left out, or for none at all. -/
  | redacted {es fs fs' : List (Value × Value)} {hidden : Bool} {hashes : List Bytes} :
    ViewEntries es (fs ++ fs') hidden →
    View (.map es) (.map (fs ++ (redactedClaimKeysLabel, .array (hashes.map .bytes)) :: fs'))

/-- Elements that are kept, replaced by a hash, or inserted as a decoy. -/
inductive ViewItems : List Value → List Value → Prop
  | nil : ViewItems [] []
  | keep {v w : Value} {vs ws : List Value} : View v w → ViewItems vs ws →
    ViewItems (v :: vs) (w :: ws)
  | hide {v : Value} {hash : Bytes} {vs ws : List Value} : ViewItems vs ws →
    ViewItems (v :: vs) (redactedElement hash :: ws)
  | decoy {hash : Bytes} {vs ws : List Value} : ViewItems vs ws →
    ViewItems vs (redactedElement hash :: ws)

/-- Entries that are kept or left out, and whether any is left out. -/
inductive ViewEntries : List (Value × Value) → List (Value × Value) → Bool → Prop
  | nil : ViewEntries [] [] false
  | keep {k v w : Value} {es fs : List (Value × Value)} {hidden : Bool} : View v w →
    ViewEntries es fs hidden → ViewEntries ((k, v) :: es) ((k, w) :: fs) hidden
  | hide {e : Value × Value} {es fs : List (Value × Value)} {hidden : Bool} :
    ViewEntries es fs hidden → ViewEntries (e :: es) fs true
end

/-- What is kept of a map are views of its entries. -/
theorem ViewEntries.mem {es fs : List (Value × Value)} {hidden : Bool}
    (h : ViewEntries es fs hidden) {f : Value × Value} (hf : f ∈ fs) :
    ∃ e ∈ es, f.1 = e.1 ∧ View e.2 f.2 := by
  induction es generalizing fs hidden with
  | nil =>
    cases h
    cases hf
  | cons e es ih =>
    cases h with
    | keep hv h =>
      rcases List.mem_cons.mp hf with rfl | hf
      · exact ⟨_, List.mem_cons_self, rfl, hv⟩
      · obtain ⟨e, he, hfe⟩ := ih h hf
        exact ⟨e, List.mem_cons_of_mem _ he, hfe⟩
    | hide h =>
      obtain ⟨e, he, hfe⟩ := ih h hf
      exact ⟨e, List.mem_cons_of_mem _ he, hfe⟩

/-- Where nothing is left out every key is kept. -/
theorem ViewEntries.keys {es fs : List (Value × Value)} (h : ViewEntries es fs false) :
    fs.map Prod.fst = es.map Prod.fst := by
  induction es generalizing fs with
  | nil =>
    cases h
    rfl
  | cons e es ih =>
    cases h with
    | keep _ h => rw [List.map_cons, List.map_cons, ih h]

theorem ViewEntries.keys_sublist {es fs : List (Value × Value)} {hidden : Bool}
    (h : ViewEntries es fs hidden) : (fs.map Prod.fst).Sublist (es.map Prod.fst) := by
  induction es generalizing fs hidden with
  | nil =>
    cases h
    exact .slnil
  | cons e es ih =>
    cases h with
    | keep _ h => exact (ih h).cons_cons _
    | hide h => exact (ih h).cons _

/-- The entries of a view of a map: views of entries, and all keys unless some are hidden. -/
structure MapView (es fs : List (Value × Value)) : Prop where
  visible : ∀ f ∈ fs, isVisible f = true → ∃ e ∈ es, f.1 = e.1 ∧ View e.2 f.2
  keys : Hidden fs ∨ ∀ e ∈ es, ∃ f ∈ fs, f.1 = e.1
  nodup : ((fs.filter isVisible).map Prod.fst).Sublist (es.map Prod.fst)

theorem mapView {es fs : List (Value × Value)} (h : View (.map es) (.map fs)) :
    MapView es fs := by
  cases h with
  | scalar h => exact h.elim
  | map h =>
    refine ⟨fun f hf _ => h.mem hf, .inr fun e he => ?_, ?_⟩
    · have hkey := List.mem_map_of_mem (f := Prod.fst) he
      rw [← h.keys] at hkey
      exact List.mem_map.mp hkey
    · exact (List.filter_sublist.map _).trans h.keys_sublist
  | @redacted _ fs fs' _ hashes h =>
    have hmarker : isVisible (redactedClaimKeysLabel, .array (hashes.map .bytes)) = false := rfl
    refine ⟨fun f hf hv => ?_, .inl ⟨_, by simp, hmarker⟩, ?_⟩
    · have hf' : f ∈ fs ++ fs' := by
        rcases List.mem_append.mp hf with hf | hf
        · exact List.mem_append_left _ hf
        · rcases List.mem_cons.mp hf with rfl | hf
          · rw [hmarker] at hv
            cases hv
          · exact List.mem_append_right _ hf
      exact h.mem hf'
    · rw [List.filter_append, List.filter_cons_of_neg (by rw [hmarker]; simp),
        ← List.filter_append]
      exact (List.filter_sublist.map _).trans h.keys_sublist

theorem ViewItems.known_le {vs ws : List Value} (h : ViewItems vs ws) :
    known ws ≤ vs.length ∧ vs.length ≤ ws.length := by
  induction ws generalizing vs with
  | nil =>
    cases h
    exact ⟨le_refl _, le_refl _⟩
  | cons w ws ih =>
    have hcons (b : Bool) : known (w :: ws) ≤ known ws + 1 := by
      rw [known, known, List.countP_cons]
      split_ifs <;> omega
    have hhidden (hash : Bytes) : known (redactedElement hash :: ws) = known ws := by
      rw [known, List.countP_cons_of_neg (by simp [isRedactedElement, redactedElement])]
      rfl
    cases h with
    | keep _ h =>
      have := ih h
      have := hcons true
      simp only [List.length_cons]
      omega
    | hide h =>
      have := ih h
      rw [hhidden]
      simp only [List.length_cons]
      omega
    | decoy h =>
      have := ih h
      rw [hhidden]
      simp only [List.length_cons]
      omega

/-- In front of the first hash two views show the same elements. -/
theorem ViewItems.prefixes {vs ls rs : List Value} (hl : ViewItems vs ls)
    (hr : ViewItems vs rs) (p : Value × Value) (hp : p ∈ (knownPrefix ls).zip (knownPrefix rs)) :
    ∃ v ∈ vs, View v p.1 ∧ View v p.2 := by
  induction ls generalizing vs rs with
  | nil => cases hp
  | cons l ls ih =>
    have hstop (hash : Bytes) (ws : List Value) :
        knownPrefix (redactedElement hash :: ws) = [] := by
      rw [knownPrefix, List.takeWhile_cons_of_neg (by simp [isRedactedElement, redactedElement])]
    cases hl with
    | @keep v _ _ _ hv hl =>
      cases hr with
      | @keep _ r _ rs hv' hr =>
        by_cases hk : isRedactedElement l = true ∨ isRedactedElement r = true
        · rcases hk with hk | hk
          · rw [knownPrefix, List.takeWhile_cons_of_neg (by simp [hk])] at hp
            cases hp
          · have hnil : knownPrefix (r :: rs) = [] := by
              rw [knownPrefix, List.takeWhile_cons_of_neg (by simp [hk])]
            rw [hnil, List.zip_nil_right] at hp
            cases hp
        · rw [not_or, Bool.not_eq_true, Bool.not_eq_true] at hk
          rw [knownPrefix, knownPrefix, List.takeWhile_cons_of_pos (by simp [hk.1]),
            List.takeWhile_cons_of_pos (by simp [hk.2]), List.zip_cons_cons] at hp
          rcases List.mem_cons.mp hp with rfl | hp
          · exact ⟨v, List.mem_cons_self, hv, hv'⟩
          · obtain ⟨u, hu, hview⟩ := ih hl hr hp
            exact ⟨u, List.mem_cons_of_mem _ hu, hview⟩
      | hide hr | decoy hr =>
        rw [hstop, List.zip_nil_right] at hp
        cases hp
    | hide hl | decoy hl =>
      rw [hstop] at hp
      cases hp

theorem ViewItems.append {vs vs' ws ws' : List Value} (h : ViewItems vs ws)
    (h' : ViewItems vs' ws') : ViewItems (vs ++ vs') (ws ++ ws') := by
  induction ws generalizing vs with
  | nil =>
    cases h
    exact h'
  | cons w ws ih =>
    cases h with
    | keep hv h => exact .keep hv (ih h)
    | hide h => exact .hide (ih h)
    | decoy h => exact .decoy (ih h)

/-- Views can be read from their ends as well. -/
theorem ViewItems.reverse {vs ws : List Value} (h : ViewItems vs ws) :
    ViewItems vs.reverse ws.reverse := by
  induction ws generalizing vs with
  | nil =>
    cases h
    exact .nil
  | cons w ws ih =>
    rw [List.reverse_cons]
    cases h with
    | keep hv h =>
      rw [List.reverse_cons]
      exact (ih h).append (.keep hv .nil)
    | hide h =>
      rw [List.reverse_cons]
      exact (ih h).append (.hide .nil)
    | @decoy hash _ _ h =>
      have hlast : ViewItems [] [redactedElement hash] := .decoy .nil
      have happend := (ih h).append hlast
      rwa [List.append_nil] at happend

/-- Two views of a disclosed value agree: no scalar is on one side only. -/
theorem agree_of_views {same : Value → Value → Prop}
    (hsame : ∀ {v}, IsScalar v → v.Writable → same v v) {v : Value} (hv : Disclosed v)
    {left right : Value} (hl : View v left) (hr : View v right) (hw : left.Writable) :
    Agree same left right := by
  induction v generalizing left right with
  | map es ih =>
    have hmap {w : Value} (h : View (.map es) w) : ∃ fs, w = .map fs := by
      cases h with
      | scalar h => exact h.elim
      | map | redacted => exact ⟨_, rfl⟩
    obtain ⟨ls, rfl⟩ := hmap hl
    obtain ⟨rs, rfl⟩ := hmap hr
    cases hv with
    | scalar h => exact h.elim
    | map hkeys hnodup hvalues =>
      have hl := mapView hl
      have hr := mapView hr
      have hsubset {fs gs : List (Value × Value)} (hf : MapView es fs) (hg : MapView es gs) :
          Hidden gs ∨ ∀ f ∈ fs, isVisible f = true → ∃ g ∈ gs, g.1 = f.1 := by
        rcases hg.keys with h | h
        · exact .inl h
        · refine .inr fun f hfm hv => ?_
          obtain ⟨e, he, hkey, -⟩ := hf.visible f hfm hv
          obtain ⟨g, hgm, hgkey⟩ := h e he
          exact ⟨g, hgm, hgkey.trans hkey.symm⟩
      refine .map (fun f hf hvis g hg hkey => ?_) (hsubset hl hr) (hsubset hr hl)
      obtain ⟨e, he, hfkey, hfview⟩ := hl.visible f hf hvis
      obtain ⟨e', he', hgkey, hgview⟩ := hr.visible g hg (by rwa [isVisible, hkey])
      obtain rfl := eq_of_key hnodup he he' (by rw [← hfkey, ← hgkey, hkey])
      exact (ih e he).2 (hvalues e he) hfview hgview ((Value.writable_map.mp hw).2 f hf).2
  | array vs ih =>
    have harray {w : Value} (h : View (.array vs) w) : ∃ ws, w = .array ws ∧ ViewItems vs ws := by
      cases h with
      | scalar h => exact h.elim
      | array h => exact ⟨_, rfl, h⟩
    obtain ⟨ls, rfl, hls⟩ := harray hl
    obtain ⟨rs, rfl, hrs⟩ := harray hr
    cases hv with
    | scalar h => exact h.elim
    | array hvs =>
      have := hls.known_le
      have := hrs.known_le
      have hitem {ws : List Value} {p : Value × Value}
          (hp : p ∈ (knownPrefix ws).zip (knownPrefix rs) ∨
            p ∈ (knownPrefix ws).zip (knownPrefix rs.reverse)) : p.1 ∈ ws := by
        rcases hp with hp | hp
        · exact (List.takeWhile_sublist _).subset (List.of_mem_zip (a := p.1) (b := p.2) hp).1
        · exact (List.takeWhile_sublist _).subset (List.of_mem_zip (a := p.1) (b := p.2) hp).1
      have hwritable := (Value.writable_array.mp hw).2
      refine .array (by omega) (by omega) (fun p hp => ?_) (fun p hp => ?_)
      · obtain ⟨v, hv, h1, h2⟩ := hls.prefixes hrs p hp
        exact ih v hv (hvs v hv) h1 h2 (hwritable _ (hitem (.inl hp)))
      · obtain ⟨v, hv, h1, h2⟩ := hls.reverse.prefixes hrs.reverse p hp
        have hv := List.mem_reverse.mp hv
        exact ih v hv (hvs v hv) h1 h2 (hwritable _ (List.mem_reverse.mp (hitem (.inr hp))))
  | tag t v ih =>
    cases hv with
    | scalar h => exact h.elim
    | tag _ hv =>
      cases hl with
      | scalar h => exact h.elim
      | tag hl =>
        cases hr with
        | scalar h => exact h.elim
        | tag hr => exact .tag (ih hv hl hr (Value.writable_tag.mp hw))
  | integer | bytes | text | float | bool | null | simple =>
    cases hl
    cases hr
    exact .leaf (by exact id) (hsame trivial hw)

/-- A view of a disclosed value has well-formed keys. -/
theorem View.labelled {v w : Value} (hv : Disclosed v) (h : View v w) : Labelled w := by
  induction v generalizing w with
  | map es ih =>
    have hmap : ∃ fs, w = .map fs := by
      cases h with
      | scalar h => exact h.elim
      | map | redacted => exact ⟨_, rfl⟩
    obtain ⟨fs, rfl⟩ := hmap
    cases hv with
    | scalar h => exact h.elim
    | map hkeys hnodup hvalues =>
      have h := mapView h
      refine .map (fun f hf hvis => ?_) (hnodup.sublist h.nodup) fun f hf hvis => ?_
      · obtain ⟨e, he, hkey, -⟩ := h.visible f hf hvis
        rw [hkey]
        exact hkeys e he
      · obtain ⟨e, he, -, hview⟩ := h.visible f hf hvis
        exact (ih e he).2 (hvalues e he) hview
  | array vs ih =>
    cases h with
    | scalar h => exact h.elim
    | @array _ ws h =>
      cases hv with
      | scalar h => exact h.elim
      | array hvs =>
        have hmem (w : Value) (hw : w ∈ ws) :
            isRedactedElement w = true ∨ ∃ v ∈ vs, View v w := by
          clear ih hvs
          induction ws generalizing vs with
          | nil => cases hw
          | cons w' ws ihw =>
            cases h with
            | keep hview h =>
              rcases List.mem_cons.mp hw with rfl | hw
              · exact .inr ⟨_, List.mem_cons_self, hview⟩
              · rcases ihw _ h hw with h | ⟨v, hv, h⟩
                · exact .inl h
                · exact .inr ⟨v, List.mem_cons_of_mem _ hv, h⟩
            | hide h =>
              rcases List.mem_cons.mp hw with rfl | hw
              · exact .inl rfl
              · rcases ihw _ h hw with h | ⟨v, hv, h⟩
                · exact .inl h
                · exact .inr ⟨v, List.mem_cons_of_mem _ hv, h⟩
            | decoy h =>
              rcases List.mem_cons.mp hw with rfl | hw
              · exact .inl rfl
              · exact ihw _ h hw
        refine .array fun w hw hk => ?_
        rcases hmem w hw with h | ⟨v, hv, h⟩
        · rw [h] at hk
          cases hk
        · exact ih v hv (hvs v hv) h
  | tag t v ih =>
    cases h with
    | scalar h => exact h.elim
    | tag h =>
      cases hv with
      | scalar h => exact h.elim
      | tag _ hv => exact .tag (ih hv h)
  | integer | bytes | text | float | bool | null | simple =>
    cases h
    exact .scalar trivial

/-! ### The comparison -/

section Comparison

variable (c : SdCbor2)

/-- What the comparison of claims is for. -/
structure ComparesViews : Prop where
  views : ∀ {v left right : Value}, Disclosed v → View v left → View v right →
    left.Writable → claimValuesMatch c left right = .ok true
  /-- It accepts both ways or neither. -/
  symmetric : ∀ {left right : Value}, Labelled left → Labelled right →
    (claimValuesMatch c left right = .ok true ↔ claimValuesMatch c right left = .ok true)
  /-- It says the same both ways when both values can be encoded, and does not fail. -/
  answers : ∀ {left right : Value}, Labelled left → Labelled right → left.Writable →
    right.Writable → (∃ bs, c.canonicalVec left = .ok bs) → (∃ bs, c.canonicalVec right = .ok bs) →
    ∃ same, claimValuesMatch c left right = .ok same ∧ claimValuesMatch c right left = .ok same
  exact : ∀ {left right : Value}, Disclosed left → Disclosed right → ShortBignums left →
    ShortBignums right → left.Writable → right.Writable →
    (claimValuesMatch c left right = .ok true ↔ left.canonical = right.canonical)

/-- What is claimed of the comparison, for all values. -/
structure ComparesAll : Prop where
  views : ∀ {v left right : Value}, Disclosed v → View v left → View v right →
    claimValuesMatch c left right = .ok true
  symmetric : ∀ {left right : Value}, claimValuesMatch c left right = claimValuesMatch c right left
  exact : ∀ {left right : Value}, Unmarked left → Unmarked right →
    (claimValuesMatch c left right = .ok true ↔ left.canonical = right.canonical)

variable {c}

/-- **The comparison never rejects two views of one value, accepts both ways or neither, and
decides equality where nothing is hidden.** -/
theorem comparesViews (he : c.EncodesCanonically) (hrecursion : 0 < c.recursionLimit) :
    ComparesViews c where
  views hv hl hr hlw := by
    have hsame {v : Value} (hs : IsScalar v) (hw : v.Writable) : SameEncoding c v v :=
      sameEncoding_of_norm_eq he (encodable_scalar hrecursion hs hw)
        (encodable_scalar hrecursion hs hw) rfl
    exact (claimValuesMatch_spec he (hl.labelled hv) (hr.labelled hv)).yes.mpr
      (agree_of_views hsame hv hl hr hlw)
  symmetric hl hr := ⟨claimValuesMatch_symm he hl hr, claimValuesMatch_symm he hr hl⟩
  answers hl hr hlw hrw hle hre := by
    obtain ⟨_, hle⟩ := hle
    obtain ⟨_, hre⟩ := hre
    have hleft := encodable_of_canonicalVec he hlw hle
    have hright := encodable_of_canonicalVec he hrw hre
    obtain ⟨same, hsame⟩ := (claimValuesMatch_spec he hl hr).answers ⟨hleft, hright⟩
    exact ⟨same, hsame, (claimValuesMatch_comm he hl hr hleft hright).symm.trans hsame⟩
  exact {left right} hl hr hls hrs hlw hrw := by
    rw [(claimValuesMatch_spec he hl.labelled hr.labelled).yes, Value.canonical_inj hlw hrw]
    exact ⟨fun h => h.norm_eq he hl hr hlw hrw,
      agree_of_norm_eq he hrecursion hl hr hls hrs hlw hrw⟩

theorem comparesViews_reference : ComparesViews SdCbor2.reference :=
  comparesViews Cbor2.reference_encodesCanonically (by decide)

-- a bignum with a leading zero is the same data, but not the same byte string
example : claimValuesMatch SdCbor2.reference (.tag 2 (.bytes [0x00, 0x01]))
      (.tag 2 (.bytes [0x01])) = .ok false ∧
    (Value.tag 2 (.bytes [0x00, 0x01])).canonical = (Value.tag 2 (.bytes [0x01])).canonical :=
  ⟨rfl, by decide⟩

/-- A map with an entry that is written once or twice. -/
def repeated (n : Nat) : Value :=
  .map (List.replicate n (.integer ⟨1, by omega, by omega⟩, .bool true))

theorem unmarked_repeated (n : Nat) : Unmarked (repeated n) := by
  refine .map (fun e he => ?_) fun e he => ?_
  · rw [List.eq_of_mem_replicate he]
    rfl
  · rw [List.eq_of_mem_replicate he]
    exact .scalar trivial rfl

/-- A repeated key counts once on the right side only. -/
theorem not_comparesAll : ¬ ComparesAll SdCbor2.reference := by
  intro h
  have hmatch : claimValuesMatch SdCbor2.reference (repeated 1) (repeated 2) = .ok true := rfl
  have hsame := (h.exact (unmarked_repeated 1) (unmarked_repeated 2)).mp hmatch
  exact absurd hsame (by decide)

end Comparison

end Cose2.SdCwt
