import Mathlib.Data.List.TakeWhile
import Cose2.SdCwt.ClaimMatch

/-! # What the comparison of claims decides

`Agree` says without a program when two values show nothing that sets them apart:
their visible keys and elements that can be aligned agree, and whatever has no
counterpart may be hidden on the other side.  On values with well-formed keys
`claim_values_match` accepts nothing else, and answers whenever the values can be
encoded (`claimValuesMatch_spec`).
-/

/-! ### Programs that decide -/

namespace Except

variable {ε : Type}

/-- The program answers yes exactly if `p` holds, and does answer if nothing is wrong. -/
structure Decides (x : Except ε Bool) (p fine : Prop) : Prop where
  yes : x = .ok true ↔ p
  answers : fine → ∃ b, x = .ok b

variable {x y : Except ε Bool} {p q fine fine' : Prop}

theorem Decides.congr (h : x.Decides p fine) (hpq : p ↔ q) : x.Decides q fine :=
  ⟨h.yes.trans hpq, h.answers⟩

theorem Decides.mono (h : x.Decides p fine) (hfine : fine' → fine) : x.Decides p fine' :=
  ⟨h.yes, fun h' => h.answers (hfine h')⟩

theorem decides_ok {b : Bool} (h : b = true ↔ p) : (Except.ok b : Except ε Bool).Decides p fine :=
  ⟨by rw [Except.ok.injEq, h], fun _ => ⟨b, rfl⟩⟩

/-- Two programs that decide the same question answer the same. -/
theorem Decides.eq (hx : x.Decides p fine) (hy : y.Decides p fine) (hfine : fine) : x = y := by
  obtain ⟨b, hb⟩ := hx.answers hfine
  obtain ⟨b', hb'⟩ := hy.answers hfine
  have hsame : b = true ↔ b' = true := by
    have h := hx.yes.trans hy.yes.symm
    rwa [hb, hb', Except.ok.injEq, Except.ok.injEq] at h
  rw [hb, hb', Bool.eq_iff_iff.mpr hsame]

end Except

namespace Cose2.SdCwt

open Cbor

/-! ### Values with labels -/

/-- No map, array or tag. -/
def IsScalar : Value → Prop
  | .map _ | .array _ | .tag .. => False
  | _ => True

/-- The entry is not a list of hidden claims. -/
def isVisible (e : Value × Value) : Bool := !isRedactedClaimKeysLabel e.1

/-- Some claims of a map may be hidden. -/
def Hidden (es : List (Value × Value)) : Prop := ∃ e ∈ es, isVisible e = false

/-- The visible keys of every map are distinct labels. -/
inductive Labelled : Value → Prop
  | scalar {v : Value} : IsScalar v → Labelled v
  | tag {t : UInt64} {v : Value} : Labelled v → Labelled (.tag t v)
  | array {vs : List Value} :
    (∀ v ∈ vs, isRedactedElement v = false → Labelled v) → Labelled (.array vs)
  | map {es : List (Value × Value)} :
    (∀ e ∈ es, isVisible e = true → ∃ l, labelFromValue e.1 = .ok l) →
    ((es.filter isVisible).map Prod.fst).Nodup →
    (∀ e ∈ es, isVisible e = true → Labelled e.2) → Labelled (.map es)

/-- The values are compared by what is in them. -/
def SameShape : Value → Value → Prop
  | .map _, .map _ => True
  | .array _, .array _ => True
  | .tag t _, .tag t' _ => t = t'
  | _, _ => False

/-- The elements in front of the first hidden one. -/
def knownPrefix (vs : List Value) : List Value := vs.takeWhile fun v => !isRedactedElement v

/-- The number of elements that are not hidden. -/
def known (vs : List Value) : Nat := vs.countP fun v => !isRedactedElement v

/-- Nothing that can be seen of two values sets them apart; `same` compares what is not
compared part by part. -/
inductive Agree (same : Value → Value → Prop) : Value → Value → Prop
  | map {left right : List (Value × Value)} :
    (∀ e ∈ left, isVisible e = true → ∀ e' ∈ right, e'.1 = e.1 → Agree same e.2 e'.2) →
    (Hidden right ∨ ∀ e ∈ left, isVisible e = true → ∃ e' ∈ right, e'.1 = e.1) →
    (Hidden left ∨ ∀ e ∈ right, isVisible e = true → ∃ e' ∈ left, e'.1 = e.1) →
    Agree same (.map left) (.map right)
  | array {left right : List Value} :
    known left ≤ right.length → known right ≤ left.length →
    (∀ p ∈ (knownPrefix left).zip (knownPrefix right), Agree same p.1 p.2) →
    (∀ p ∈ (knownPrefix left.reverse).zip (knownPrefix right.reverse), Agree same p.1 p.2) →
    Agree same (.array left) (.array right)
  | tag {t : UInt64} {left right : Value} :
    Agree same left right → Agree same (.tag t left) (.tag t right)
  | leaf {left right : Value} : ¬ SameShape left right → same left right → Agree same left right

/-! ### Symmetry -/

theorem SameShape.symm {left right : Value} (h : SameShape left right) :
    SameShape right left := by
  cases left with
  | map left | array left =>
    cases right <;> first | exact trivial | exact h.elim
  | tag t left =>
    cases right <;> first | exact Eq.symm h | exact h.elim
  | integer | bytes | text | float | bool | null | simple => exact h.elim

theorem mem_zip_swap {α β : Type} {as : List α} {bs : List β} {p : β × α}
    (h : p ∈ bs.zip as) : (p.2, p.1) ∈ as.zip bs := by
  rw [← List.zip_swap, List.mem_map] at h
  obtain ⟨q, hq, rfl⟩ := h
  exact hq

theorem Agree.symm {same : Value → Value → Prop} (hsame : ∀ {v w}, same v w → same w v)
    {left right : Value} (h : Agree same left right) : Agree same right left := by
  induction h with
  | @map left right _ hleft hright ih =>
    refine .map (fun e he hv e' he' hkey => ?_) hright hleft
    have hv' : isVisible e' = true := by rwa [isVisible, hkey]
    exact ih e' he' hv' e he hkey.symm
  | array hleft hright _ _ ihp ihs =>
    refine .array hright hleft (fun p hp => ?_) (fun p hp => ?_)
    · exact ihp _ (mem_zip_swap hp)
    · exact ihs _ (mem_zip_swap hp)
  | tag _ ih => exact .tag ih
  | leaf hshape hleaf => exact .leaf (fun h => hshape h.symm) (hsame hleaf)

/-! ### The comparison of two maps -/

section Maps

/-- The visible entries of a map, by label. -/
def VisibleAs (es : List (Value × Value)) (ls : List (Label × Value)) : Prop :=
  es.filter isVisible = ls.map (fun e => (e.1.toValue, e.2)) ∧
    ∀ e ∈ ls, labelFromValue e.1.toValue = .ok e.1

theorem visibleAs_of_labels {es : List (Value × Value)}
    (h : ∀ e ∈ es, isVisible e = true → ∃ l, labelFromValue e.1 = .ok l) :
    ∃ ls, VisibleAs es ls := by
  induction es with
  | nil => exact ⟨[], rfl, by simp⟩
  | cons e es ih =>
    rw [List.forall_mem_cons] at h
    obtain ⟨ls, hls, hlabels⟩ := ih h.2
    by_cases hv : isVisible e = true
    · obtain ⟨l, hl⟩ := h.1 hv
      refine ⟨(l, e.2) :: ls, ?_, ?_⟩
      · rw [List.filter_cons_of_pos hv, hls, List.map_cons, ← labelFromValue_ok hl]
      · rw [List.forall_mem_cons]
        exact ⟨by rwa [← labelFromValue_ok hl], hlabels⟩
    · exact ⟨ls, by rw [List.filter_cons_of_neg hv, hls], hlabels⟩

theorem VisibleAs.mem {es : List (Value × Value)} {ls : List (Label × Value)}
    (h : VisibleAs es ls) {e : Value × Value} :
    (e ∈ es ∧ isVisible e = true) ↔ ∃ e' ∈ ls, (e'.1.toValue, e'.2) = e := by
  rw [← List.mem_filter, h.1, List.mem_map]

theorem VisibleAs.nodup {es : List (Value × Value)} {ls : List (Label × Value)}
    (h : VisibleAs es ls) (hnodup : ((es.filter isVisible).map Prod.fst).Nodup) :
    (ls.map Prod.fst).Nodup := by
  rw [h.1, List.map_map] at hnodup
  have hmap : ls.map (Prod.fst ∘ fun e => (e.1.toValue, e.2)) =
      (ls.map Prod.fst).map Label.toValue := by
    rw [List.map_map]
    rfl
  rw [hmap] at hnodup
  exact hnodup.of_map _

theorem toValue_visible (l : Label) (v : Value) : isVisible (l.toValue, v) = true := by
  cases l <;> rfl

/-- Collecting the right map skips what is hidden. -/
theorem labelledValues_eq {es : List (Value × Value)} {ls : List (Label × Value)}
    (h : VisibleAs es ls) (m : BTreeMap Label Value) :
    labelledValues es m = .ok (m.insertAll ls) := by
  induction es generalizing ls m with
  | nil =>
    have hnil : ls = [] := by simpa [VisibleAs] using h.1.symm
    rw [hnil]
    rfl
  | cons e es ih =>
    obtain ⟨key, value⟩ := e
    by_cases hv : isVisible (key, value) = true
    · obtain ⟨hfilter, hlabels⟩ := h
      rw [List.filter_cons_of_pos hv] at hfilter
      obtain ⟨⟨l, v⟩, ls, rfl, he, hls⟩ := List.map_eq_cons_iff.mp hfilter.symm
      rw [List.forall_mem_cons] at hlabels
      simp only [Prod.mk.injEq] at he
      obtain ⟨rfl, rfl⟩ := he
      have hkey : isRedactedClaimKeysLabel l.toValue = false := by
        simpa [isVisible] using hv
      rw [labelledValues, hkey, if_neg (by simp), hlabels.1, Except.ok_bind,
        ih ⟨hls.symm, hlabels.2⟩]
      rfl
    · have hkey : isRedactedClaimKeysLabel key = true := by simpa [isVisible] using hv
      rw [labelledValues, if_pos hkey]
      exact ih ⟨by rw [← h.1, List.filter_cons_of_neg hv], h.2⟩ m

/-- The loop goes on after a comparison that answers yes only. -/
theorem eq_true_of_matched {x : Except Error Bool} {m' : BTreeMap Label Value}
    {rest : Except Error (Option (BTreeMap Label Value))}
    (h : (x >>= fun same => if (!same) = true then pure none else rest) = .ok (some m')) :
    x = .ok true := by
  obtain ⟨b, hb, h⟩ := Except.bind_eq_ok.mp h
  cases b with
  | true => exact hb
  | false => cases h

/-- The loop over the left map ends with the right entries that have no counterpart,
unless an entry disagrees or is missing on the right. -/
theorem matchEntries_spec (rightHidden : Bool) {es : List (Value × Value)} {f : Value → Matcher}
    {P : Value → Value → Prop} {fine : Prop} {ls : List (Label × Value)}
    (h : VisibleAs es ls) (hnodup : (ls.map Prod.fst).Nodup) (m : BTreeMap Label Value)
    (hf : ∀ e ∈ ls, ∀ w, m.get e.1 = some w → (f e.2 w).Decides (P e.2 w) fine) :
    (fine → ∃ r, matchEntries rightHidden (es.map fun e => (e.1, f e.2)) m = .ok r) ∧
      ((∃ m', matchEntries rightHidden (es.map fun e => (e.1, f e.2)) m = .ok (some m')) ↔
        ∀ e ∈ ls, (∀ w, m.get e.1 = some w → P e.2 w) ∧
          (m.get e.1 = none → rightHidden = true)) ∧
      ∀ m', matchEntries rightHidden (es.map fun e => (e.1, f e.2)) m = .ok (some m') → ∀ l w,
        m'.get l = some w ↔ l ∉ ls.map Prod.fst ∧ m.get l = some w := by
  induction es generalizing ls m with
  | nil =>
    have hnil : ls = [] := by simpa [VisibleAs] using h.1.symm
    subst hnil
    exact ⟨fun _ => ⟨some m, rfl⟩, by simp [matchEntries], by simp [matchEntries]⟩
  | cons e es ih =>
    obtain ⟨key, value⟩ := e
    rw [List.map_cons, matchEntries]
    by_cases hv : isVisible (key, value) = true
    · obtain ⟨hfilter, hlabels⟩ := h
      rw [List.filter_cons_of_pos hv] at hfilter
      obtain ⟨⟨l, v⟩, ls, rfl, he, hls⟩ := List.map_eq_cons_iff.mp hfilter.symm
      rw [List.forall_mem_cons] at hlabels
      simp only [Prod.mk.injEq] at he
      obtain ⟨rfl, rfl⟩ := he
      have hkey : isRedactedClaimKeysLabel l.toValue = false := by
        simpa [isVisible] using hv
      have hvis : VisibleAs es ls := ⟨hls.symm, hlabels.2⟩
      rw [List.map_cons, List.nodup_cons] at hnodup
      rw [List.forall_mem_cons] at hf
      rw [if_neg (by simp [hkey]), hlabels.1, Except.ok_bind]
      have hne (e : Label × Value) (he : e ∈ ls) : e.1 ≠ l := by
        rintro rfl
        exact hnodup.1 (List.mem_map.mpr ⟨e, he, rfl⟩)
      cases hget : m.get l with
      | none =>
        by_cases hhidden : rightHidden = true
        · obtain ⟨hok, hiff, hrest⟩ := ih hvis hnodup.2 m hf.2
          subst hhidden
          refine ⟨hok, hiff.trans ?_, fun m' hm' l' w => ?_⟩
          · simp [hget]
          · rw [hrest m' hm', List.map_cons, List.mem_cons]
            by_cases hl : l' = l
            · subst hl
              simp [hget]
            · simp [hl]
        · rw [Bool.not_eq_true] at hhidden
          subst hhidden
          refine ⟨fun _ => ⟨none, rfl⟩, iff_of_false ?_ fun hall => ?_, ?_⟩
          · rintro ⟨m', ⟨⟩⟩
          · cases (hall _ List.mem_cons_self).2 hget
          · rintro m' ⟨⟩
      | some w =>
        have hdecides := hf.1 w hget
        by_cases hp : P v w
        · have hyes : f v w = .ok true := hdecides.yes.mpr hp
          have hf' : ∀ e ∈ ls, ∀ w, (m.remove l).get e.1 = some w →
              (f e.2 w).Decides (P e.2 w) fine := by
            intro e he w hw
            rw [BTreeMap.get_remove, if_neg (hne e he)] at hw
            exact hf.2 e he w hw
          obtain ⟨hok, hiff, hrest⟩ := ih hvis hnodup.2 (m.remove l) hf'
          dsimp only
          rw [hyes, Except.ok_bind]
          refine ⟨hok, hiff.trans ?_, fun m' hm' l' w => ?_⟩
          · rw [List.forall_mem_cons]
            have hrest : (∀ e ∈ ls, (∀ w, (m.remove l).get e.1 = some w → P e.2 w) ∧
                ((m.remove l).get e.1 = none → rightHidden = true)) ↔
                ∀ e ∈ ls, (∀ w, m.get e.1 = some w → P e.2 w) ∧
                  (m.get e.1 = none → rightHidden = true) := by
              refine forall₂_congr fun e he => ?_
              rw [BTreeMap.get_remove, if_neg (hne e he)]
            rw [hrest, and_iff_right]
            simp only [hget, Option.some.injEq, forall_eq', reduceCtorEq, false_implies,
              and_true]
            exact hp
          · rw [hrest m' hm', BTreeMap.get_remove, List.map_cons, List.mem_cons]
            by_cases hl : l' = l
            · simp [hl]
            · simp [hl]
        · -- the loop ends here, with a mismatch or with the error of the comparison
          have hno : f v w ≠ .ok true := fun hyes => hp (hdecides.yes.mp hyes)
          dsimp only
          refine ⟨fun hfine => ?_, iff_of_false ?_ fun hall => ?_, fun m' hm' => ?_⟩
          · obtain ⟨b, hb⟩ := hdecides.answers hfine
            cases b with
            | true => exact absurd hb hno
            | false => exact ⟨none, by rw [hb]; rfl⟩
          · rintro ⟨m', hm'⟩
            exact hno (eq_true_of_matched hm')
          · exact hp ((hall _ List.mem_cons_self).1 w hget)
          · exact absurd (eq_true_of_matched hm') hno
    · have hkey : isRedactedClaimKeysLabel key = true := by simpa [isVisible] using hv
      rw [if_pos hkey]
      exact ih ⟨by rw [← h.1, List.filter_cons_of_neg hv], h.2⟩ hnodup m hf

variable {left right : List (Value × Value)} {ll rl : List (Label × Value)}

theorem any_hidden {es : List (Value × Value)} :
    (es.any fun e => isRedactedClaimKeysLabel e.1) = true ↔ Hidden es := by
  rw [List.any_eq_true, Hidden]
  simp [isVisible]

/-- Every visible entry on one side has its key on the other side. -/
theorem keys_subset_iff (hl : VisibleAs left ll) (hr : VisibleAs right rl) :
    (∀ e ∈ ll, e.1 ∈ rl.map Prod.fst) ↔
      ∀ e ∈ left, isVisible e = true → ∃ e' ∈ right, e'.1 = e.1 := by
  constructor
  · intro h e he hv
    obtain ⟨e', he', rfl⟩ := hl.mem.mp ⟨he, hv⟩
    obtain ⟨e'', he'', hkey⟩ := List.mem_map.mp (h e' he')
    refine ⟨_, (hr.mem.mpr ⟨e'', he'', rfl⟩).1, ?_⟩
    rw [hkey]
  · intro h e he
    obtain ⟨hmem, hv⟩ := hl.mem.mpr ⟨e, he, rfl⟩
    obtain ⟨e', he', hkey⟩ := h _ hmem hv
    have hv' : isVisible e' = true := by
      rw [isVisible, hkey]
      exact toValue_visible e.1 e.2
    obtain ⟨e'', he'', rfl⟩ := hr.mem.mp ⟨he', hv'⟩
    rw [← Label.toValue_injective hkey]
    exact List.mem_map.mpr ⟨e'', he'', rfl⟩

/-- Entries with the same visible key are entries with the same label. -/
theorem values_iff (hl : VisibleAs left ll) (hr : VisibleAs right rl)
    {P : Value → Value → Prop} :
    (∀ e ∈ ll, ∀ w, (e.1, w) ∈ rl → P e.2 w) ↔
      ∀ e ∈ left, isVisible e = true → ∀ e' ∈ right, e'.1 = e.1 → P e.2 e'.2 := by
  constructor
  · intro h e he hv e' he' hkey
    have hv' : isVisible e' = true := by rwa [isVisible, hkey]
    obtain ⟨a, ha, rfl⟩ := hl.mem.mp ⟨he, hv⟩
    obtain ⟨b, hb, rfl⟩ := hr.mem.mp ⟨he', hv'⟩
    apply h a ha
    rw [← Label.toValue_injective hkey]
    exact hb
  · intro h e he w hw
    obtain ⟨hmem, hv⟩ := hl.mem.mpr ⟨e, he, rfl⟩
    obtain ⟨hmem', -⟩ := hr.mem.mpr ⟨(e.1, w), hw, rfl⟩
    exact h _ hmem hv _ hmem' rfl

/-- The comparison of maps decides whether their visible entries agree. -/
theorem mapsMatch_decides {f : Value → Matcher} {P : Value → Value → Prop} {fine : Prop}
    (hl : VisibleAs left ll) (hnl : (ll.map Prod.fst).Nodup)
    (hr : VisibleAs right rl) (hnr : (rl.map Prod.fst).Nodup)
    (hf : ∀ e ∈ left, isVisible e = true → ∀ e' ∈ right, e'.1 = e.1 →
      (f e.2 e'.2).Decides (P e.2 e'.2) fine) :
    (mapsMatch (left.map fun e => (e.1, f e.2)) right).Decides
      ((∀ e ∈ left, isVisible e = true → ∀ e' ∈ right, e'.1 = e.1 → P e.2 e'.2) ∧
        (Hidden right ∨ ∀ e ∈ left, isVisible e = true → ∃ e' ∈ right, e'.1 = e.1) ∧
        (Hidden left ∨ ∀ e ∈ right, isVisible e = true → ∃ e' ∈ left, e'.1 = e.1)) fine := by
  have hget (l : Label) (w : Value) :
      ((∅ : BTreeMap Label Value).insertAll rl).get l = some w ↔ (l, w) ∈ rl := by
    rw [BTreeMap.get_insertAll hnr]
    simp
  have hnone (l : Label) :
      ((∅ : BTreeMap Label Value).insertAll rl).get l = none ↔ l ∉ rl.map Prod.fst := by
    rw [Option.eq_none_iff_forall_ne_some]
    simp only [ne_eq, hget, List.mem_map, not_exists, not_and]
    exact ⟨fun h e he hl => h e.2 (by rwa [← hl]), fun h w hw => h (l, w) hw rfl⟩
  rw [← values_iff hl hr (P := P), ← keys_subset_iff hl hr, ← keys_subset_iff hr hl]
  have hf := (values_iff hl hr (P := fun v w => (f v w).Decides (P v w) fine)).mpr hf
  obtain ⟨hok, hiff, hrest⟩ := matchEntries_spec
    (right.any fun e => isRedactedClaimKeysLabel e.1) hl hnl
    ((∅ : BTreeMap Label Value).insertAll rl) fun e he w hw => hf e he w ((hget e.1 w).mp hw)
  simp only [hget, hnone, any_hidden] at hiff hrest
  have hany : ((left.map fun e => (e.1, f e.2)).any fun e => isRedactedClaimKeysLabel e.1) =
      left.any fun e => isRedactedClaimKeysLabel e.1 := by
    rw [List.any_map]
    rfl
  rw [mapsMatch, labelledValues_eq hr, Except.ok_bind]
  -- what the loop leaves over must be hidden on the left
  have hempty {m' : BTreeMap Label Value}
      (hm' : matchEntries (right.any fun e => isRedactedClaimKeysLabel e.1)
        (left.map fun e => (e.1, f e.2)) ((∅ : BTreeMap Label Value).insertAll rl) =
          .ok (some m')) :
      m'.entries.isEmpty = true ↔ ∀ e ∈ rl, e.1 ∈ ll.map Prod.fst := by
    rw [List.isEmpty_iff, List.eq_nil_iff_forall_not_mem]
    constructor
    · intro h e he
      by_contra hmem
      exact h (e.1, e.2) (BTreeMap.get_eq_some.mp ((hrest m' hm' e.1 e.2).mpr ⟨hmem, he⟩))
    · intro h e he
      obtain ⟨hmem, hrl⟩ := (hrest m' hm' e.1 e.2).mp (BTreeMap.get_eq_some.mpr he)
      exact hmem (h e hrl)
  refine ⟨⟨fun h => ?_, fun h => ?_⟩, fun hfine => ?_⟩
  · obtain ⟨r, hr', h⟩ := Except.bind_eq_ok.mp h
    cases r with
    | none => cases h
    | some m' =>
      have hall := hiff.mp ⟨m', hr'⟩
      have hleft : Hidden right ∨ ∀ e ∈ ll, e.1 ∈ rl.map Prod.fst := by
        by_cases hh : Hidden right
        · exact .inl hh
        · exact .inr fun e he => not_not.mp fun hmem => hh ((hall e he).2 hmem)
      have hover := Except.pure_eq_ok.mp h
      rw [Bool.or_eq_true, hany, any_hidden, hempty hr'] at hover
      exact ⟨fun e he => (hall e he).1, hleft, hover⟩
  · obtain ⟨hvalues, hleft, hright⟩ := h
    obtain ⟨m', hm'⟩ := hiff.mpr fun e he => ⟨hvalues e he, fun hmem =>
      hleft.resolve_right fun hkeys => hmem (hkeys e he)⟩
    refine Except.bind_eq_ok.mpr ⟨_, hm', Except.pure_eq_ok.mpr ?_⟩
    rw [Bool.or_eq_true, hany, any_hidden, hempty hm']
    exact hright
  · obtain ⟨r, hr'⟩ := hok hfine
    rw [hr', Except.ok_bind]
    cases r with
    | none => exact ⟨_, rfl⟩
    | some m' => exact ⟨_, rfl⟩

end Maps

/-! ### The comparison of two arrays -/

section Arrays

/-- A loop over pairs decides whether all of them match. -/
theorem allMatch_decides {f : Value → Matcher} {P : Value → Value → Prop} {fine : Prop}
    {ps : List (Value × Value)} (hf : ∀ p ∈ ps, (f p.1 p.2).Decides (P p.1 p.2) fine) :
    (allMatch (ps.map fun p => (f p.1, p.2))).Decides (∀ p ∈ ps, P p.1 p.2) fine := by
  induction ps with
  | nil => exact Except.decides_ok (by simp)
  | cons p ps ih =>
    rw [List.forall_mem_cons] at hf
    obtain ⟨hyes, hanswers⟩ := hf.1
    have hrest := ih hf.2
    rw [List.map_cons, allMatch, List.forall_mem_cons, ← hyes]
    refine ⟨⟨fun h => ?_, fun h => ?_⟩, fun hfine => ?_⟩
    · obtain ⟨b, hb, h⟩ := Except.bind_eq_ok.mp h
      cases b with
      | true => exact ⟨hb, hrest.yes.mp h⟩
      | false => cases h
    · rw [h.1, Except.ok_bind]
      exact hrest.yes.mpr h.2
    · obtain ⟨b, hb⟩ := hanswers hfine
      rw [hb, Except.ok_bind]
      cases b with
      | true => exact hrest.answers hfine
      | false => exact ⟨false, rfl⟩

theorem zip_map_fst {f : Value → Matcher} (vs ws : List Value) :
    (vs.map f).zip ws = (vs.zip ws).map fun p => (f p.1, p.2) := by
  rw [List.zip_map_left]
  rfl

/-- When no element is hidden, all of them stand in front of the first hidden one. -/
theorem knownPrefix_of_known {vs : List Value} (h : known vs = vs.length) :
    knownPrefix vs = vs := by
  rw [known, List.countP_eq_length] at h
  exact List.takeWhile_eq_self_iff.mpr h

/-- The comparison of arrays decides whether what can be aligned agrees. -/
theorem arraysMatch_decides {f : Value → Matcher} {P : Value → Value → Prop} {fine : Prop}
    {left right : List Value}
    (hf : ∀ v ∈ left, isRedactedElement v = false → ∀ w ∈ right, isRedactedElement w = false →
      (f v w).Decides (P v w) fine) :
    (arraysMatch (left.map fun v => (isRedactedElement v, f v)) right).Decides
      (known left ≤ right.length ∧ known right ≤ left.length ∧
        (∀ p ∈ (knownPrefix left).zip (knownPrefix right), P p.1 p.2) ∧
        ∀ p ∈ (knownPrefix left.reverse).zip (knownPrefix right.reverse), P p.1 p.2) fine := by
  have hknown (vs : List Value) (v : Value) (hv : v ∈ knownPrefix vs) :
      v ∈ vs ∧ isRedactedElement v = false := by
    refine ⟨(List.takeWhile_sublist _).subset hv, ?_⟩
    simpa using List.mem_takeWhile_imp hv
  have hprefix (p : Value × Value) (hp : p ∈ (knownPrefix left).zip (knownPrefix right)) :
      (f p.1 p.2).Decides (P p.1 p.2) fine := by
    obtain ⟨h1, h2⟩ := List.of_mem_zip (a := p.1) (b := p.2) hp
    obtain ⟨h1, h1'⟩ := hknown _ _ h1
    obtain ⟨h2, h2'⟩ := hknown _ _ h2
    exact hf _ h1 h1' _ h2 h2'
  have hsuffix (p : Value × Value)
      (hp : p ∈ (knownPrefix left.reverse).zip (knownPrefix right.reverse)) :
      (f p.1 p.2).Decides (P p.1 p.2) fine := by
    obtain ⟨h1, h2⟩ := List.of_mem_zip (a := p.1) (b := p.2) hp
    obtain ⟨h1, h1'⟩ := hknown _ _ h1
    obtain ⟨h2, h2'⟩ := hknown _ _ h2
    exact hf _ (List.mem_reverse.mp h1) h1' _ (List.mem_reverse.mp h2) h2'
  have hcount : (left.map fun v => (isRedactedElement v, f v)).countP (fun e => !e.1) =
      known left := by
    rw [List.countP_map]
    rfl
  have htake (vs : List Value) :
      ((vs.map fun v => (isRedactedElement v, f v)).takeWhile fun e => !e.1).map Prod.snd =
        (knownPrefix vs).map f := by
    rw [List.takeWhile_map, List.map_map]
    rfl
  rw [arraysMatch]
  simp only [hcount, List.length_map, ← List.map_reverse, htake, zip_map_fst]
  change (if right.length < known left ∨ left.length < known right then Except.ok false
    else _).Decides _ _
  by_cases hlen : right.length < known left ∨ left.length < known right
  · rw [if_pos hlen]
    refine Except.decides_ok (iff_of_false (by simp) fun h => ?_)
    rcases hlen with hlen | hlen
    · exact absurd h.1 (by omega)
    · exact absurd h.2.1 (by omega)
  · rw [if_neg hlen]
    rw [not_or, not_lt, not_lt] at hlen
    change (if known left = left.length ∧ known right = right.length then _
      else allMatch (((knownPrefix left).zip (knownPrefix right)).map (fun p => (f p.1, p.2)) ++
        ((knownPrefix left.reverse).zip (knownPrefix right.reverse)).map
          fun p => (f p.1, p.2))).Decides _ _
    by_cases hall : known left = left.length ∧ known right = right.length
    · -- nothing is hidden, so the prefixes are the arrays and the suffixes say nothing more
      rw [if_pos hall]
      have hlength : left.length = right.length := by omega
      have hreverse : known left.reverse = left.reverse.length ∧
          known right.reverse = right.reverse.length := by
        rw [known, known, List.countP_reverse, List.countP_reverse, List.length_reverse,
          List.length_reverse]
        exact hall
      rw [knownPrefix_of_known hall.1, knownPrefix_of_known hall.2] at hprefix ⊢
      have hzip : left.reverse.zip right.reverse = (left.zip right).reverse :=
        (List.reverse_zipWith hlength).symm
      rw [knownPrefix_of_known hreverse.1, knownPrefix_of_known hreverse.2, hzip, List.map_map,
        show (Prod.snd ∘ fun v => (isRedactedElement v, f v)) = f from rfl, zip_map_fst]
      refine (allMatch_decides hprefix).congr ?_
      rw [and_iff_right hlen.1, and_iff_right hlen.2]
      simp only [List.mem_reverse]
      exact ⟨fun h => ⟨h, h⟩, fun h => h.1⟩
    · rw [if_neg hall, ← List.map_append]
      refine (allMatch_decides (P := P) fun p hp => ?_).congr ?_
      · rcases List.mem_append.mp hp with hp | hp
        · exact hprefix p hp
        · exact hsuffix p hp
      · rw [List.forall_mem_append, and_iff_right hlen.1, and_iff_right hlen.2]

end Arrays

/-! ### Two values -/

section Values

variable {c : SdCbor2}

/-- Both values are encoded, and alike. -/
def SameEncoding (c : SdCbor2) (v w : Value) : Prop :=
  ∃ bs, c.canonicalVec v = .ok bs ∧ c.canonicalVec w = .ok bs

theorem SameEncoding.symm {v w : Value} (h : SameEncoding c v w) : SameEncoding c w v := by
  obtain ⟨bs, hv, hw⟩ := h
  exact ⟨bs, hw, hv⟩

/-- What can be encoded deterministically, and with it all that is inside. -/
structure Encodable (c : SdCbor2) (v : Value) : Prop where
  writable : v.Writable
  duplicateFree : v.DuplicateFree
  shallow : v.toTree.depth < c.recursionLimit

theorem Encodable.child {v u : Value} (h : Encodable c v) (hu : u ∈ v.children) :
    Encodable c u := by
  have hmem : u.toTree ∈ v.toTree.children := by
    rw [Value.children_toTree]
    exact List.mem_map_of_mem hu
  exact ⟨(Tree.all_iff.mp h.writable).2 _ hmem, h.duplicateFree.child hu,
    (Value.depth_lt_of_mem_children hu).trans h.shallow⟩

theorem Encodable.canonicalVec (he : c.EncodesCanonically) {v : Value} (h : Encodable c v) :
    c.canonicalVec v = .ok v.canonical :=
  Except.mapError_eq_ok.mpr (he.canonical h.writable h.duplicateFree h.shallow)

theorem encodable_of_canonicalVec (he : c.EncodesCanonically) {v : Value} (hw : v.Writable)
    {bs : Bytes} (h : c.canonicalVec v = .ok bs) : Encodable c v := by
  have hok := Except.mapError_eq_ok.mp h
  exact ⟨hw, he.distinct hok, he.shallow hok⟩

theorem sameCanonical_decides (he : c.EncodesCanonically) {v w : Value} :
    (sameCanonical c v w).Decides (SameEncoding c v w) (Encodable c v ∧ Encodable c w) := by
  rw [sameCanonical]
  refine ⟨⟨fun h => ?_, ?_⟩, ?_⟩
  · obtain ⟨bs, hbs, h⟩ := Except.bind_eq_ok.mp h
    obtain ⟨bs', hbs', h⟩ := Except.bind_eq_ok.mp h
    obtain rfl : bs = bs' := of_decide_eq_true (Except.pure_eq_ok.mp h)
    exact ⟨bs, hbs, hbs'⟩
  · rintro ⟨bs, hv, hw⟩
    rw [hv, Except.ok_bind, hw, Except.ok_bind, Except.pure_eq_ok]
    exact decide_eq_true rfl
  · rintro ⟨hv, hw⟩
    rw [hv.canonicalVec he, Except.ok_bind, hw.canonicalVec he, Except.ok_bind]
    exact ⟨_, rfl⟩

/-- Values that are compared as a whole. -/
theorem claimValuesMatch_leaf {left right : Value} (h : ¬ SameShape left right) :
    claimValuesMatch c left right = sameCanonical c left right := by
  cases left with
  | map left | array left =>
    cases right <;> first | rfl | exact absurd trivial h
  | tag t left =>
    cases right with
    | tag t' right =>
      rw [claimValuesMatch]
      exact if_neg h
    | _ => rfl
  | integer | bytes | text | float | bool | null | simple => rfl

theorem agree_iff_of_leaf {same : Value → Value → Prop} {left right : Value}
    (h : ¬ SameShape left right) : Agree same left right ↔ same left right := by
  constructor
  · intro hagree
    cases hagree with
    | map | array => exact absurd trivial h
    | tag => exact absurd rfl h
    | leaf _ hsame => exact hsame
  · exact .leaf h

/-- **On values with well-formed keys `claim_values_match` accepts exactly what nothing that
can be seen sets apart.**  It fails only on values that cannot be encoded. -/
theorem claimValuesMatch_spec (he : c.EncodesCanonically) {left right : Value}
    (hl : Labelled left) (hr : Labelled right) :
    (claimValuesMatch c left right).Decides (Agree (SameEncoding c) left right)
      (Encodable c left ∧ Encodable c right) := by
  induction left generalizing right with
  | map left ih =>
    cases right with
    | map right =>
      cases hl with
      | scalar h => exact h.elim
      | map hlkeys hlnodup hlvalues =>
        cases hr with
        | scalar h => exact h.elim
        | map hrkeys hrnodup hrvalues =>
          obtain ⟨ll, hll⟩ := visibleAs_of_labels hlkeys
          obtain ⟨rl, hrl⟩ := visibleAs_of_labels hrkeys
          rw [claimValuesMatch, entryMatchers_eq]
          refine (mapsMatch_decides (P := Agree (SameEncoding c)) hll (hll.nodup hlnodup) hrl
            (hrl.nodup hrnodup) fun e hmem hv e' hmem' hkey => ?_).congr ?_
          · have hv' : isVisible e' = true := by rwa [isVisible, hkey]
            refine ((ih e hmem).2 (hlvalues e hmem hv) (hrvalues e' hmem' hv')).mono ?_
            rintro ⟨hleft, hright⟩
            exact ⟨hleft.child (List.mem_flatMap.mpr ⟨e, hmem, by simp⟩),
              hright.child (List.mem_flatMap.mpr ⟨e', hmem', by simp⟩)⟩
          · constructor
            · intro h
              exact .map h.1 h.2.1 h.2.2
            · intro h
              cases h with
              | map h1 h2 h3 => exact ⟨h1, h2, h3⟩
              | leaf h => exact absurd trivial h
    | _ =>
      rw [claimValuesMatch_leaf (by exact id), agree_iff_of_leaf (by exact id)]
      exact sameCanonical_decides he
  | array left ih =>
    cases right with
    | array right =>
      cases hl with
      | scalar h => exact h.elim
      | array hlitems =>
        cases hr with
        | scalar h => exact h.elim
        | array hritems =>
          rw [claimValuesMatch, itemMatchers_eq]
          refine (arraysMatch_decides (P := Agree (SameEncoding c))
            fun v hv hk w hw hk' => ?_).congr ?_
          · refine (ih v hv (hlitems v hv hk) (hritems w hw hk')).mono ?_
            rintro ⟨hleft, hright⟩
            exact ⟨hleft.child hv, hright.child hw⟩
          · constructor
            · intro h
              exact .array h.1 h.2.1 h.2.2.1 h.2.2.2
            · intro h
              cases h with
              | array h1 h2 h3 h4 => exact ⟨h1, h2, h3, h4⟩
              | leaf h => exact absurd trivial h
    | _ =>
      rw [claimValuesMatch_leaf (by exact id), agree_iff_of_leaf (by exact id)]
      exact sameCanonical_decides he
  | tag t left ih =>
    by_cases hshape : SameShape (.tag t left) right
    · cases right with
      | tag t' right =>
        obtain rfl : t = t' := hshape
        cases hl with
        | scalar h => exact h.elim
        | tag hl =>
          cases hr with
          | scalar h => exact h.elim
          | tag hr =>
            rw [claimValuesMatch, if_pos rfl]
            refine ((ih hl hr).congr ?_).mono ?_
            · constructor
              · exact .tag
              · intro h
                cases h with
                | tag h => exact h
                | leaf h => exact absurd rfl h
            · rintro ⟨hleft, hright⟩
              exact ⟨hleft.child (List.mem_singleton_self _),
                hright.child (List.mem_singleton_self _)⟩
      | _ => exact hshape.elim
    · rw [claimValuesMatch_leaf hshape, agree_iff_of_leaf hshape]
      exact sameCanonical_decides he
  | integer | bytes | text | float | bool | null | simple =>
    rw [claimValuesMatch_leaf (by exact id), agree_iff_of_leaf (by exact id)]
    exact sameCanonical_decides he

/-- The comparison accepts both ways or neither. -/
theorem claimValuesMatch_symm (he : c.EncodesCanonically) {left right : Value}
    (hl : Labelled left) (hr : Labelled right)
    (h : claimValuesMatch c left right = .ok true) : claimValuesMatch c right left = .ok true :=
  (claimValuesMatch_spec he hr hl).yes.mpr
    (((claimValuesMatch_spec he hl hr).yes.mp h).symm SameEncoding.symm)

/-- Of values that are encoded, it says the same both ways. -/
theorem claimValuesMatch_comm (he : c.EncodesCanonically) {left right : Value}
    (hl : Labelled left) (hr : Labelled right) (hle : Encodable c left)
    (hre : Encodable c right) : claimValuesMatch c left right = claimValuesMatch c right left := by
  have hright := (claimValuesMatch_spec he hr hl).congr
    ⟨Agree.symm SameEncoding.symm, Agree.symm SameEncoding.symm⟩
  exact (claimValuesMatch_spec he hl hr).eq (hright.mono fun _ => ⟨hre, hle⟩) ⟨hle, hre⟩

end Values
end Cose2.SdCwt
