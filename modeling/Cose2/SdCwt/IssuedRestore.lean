import Cose2.SdCwt.IssuedShape
import Cose2.SdCwt.Selection

/-! # Restoring what is issued

A holder who has all disclosures of an issued value meets each of them once.  Its
restoration enters the issued value and all disclosed values, no deeper than issuance did.
-/
namespace Cose2.SdCwt

open Cbor

/-- The items of the disclosed value. -/
def Disclosure.valueItems (d : Disclosure) : Nat := (d.kind.value.map SdCwt.items).getD 0

/-- The items of all disclosed values. -/
def allValueItems (ds : List Disclosure) : Nat := (ds.map Disclosure.valueItems).sum

theorem allValueItems_append (ds ds' : List Disclosure) :
    allValueItems (ds ++ ds') = allValueItems ds + allValueItems ds' := by
  rw [allValueItems, List.map_append, List.sum_append, allValueItems, allValueItems]

theorem allValueItems_cons (d : Disclosure) (ds : List Disclosure) :
    allValueItems (d :: ds) = d.valueItems + allValueItems ds := by
  rw [allValueItems, List.map_cons, List.sum_cons, allValueItems]

theorem usedUp_append (ms ms' : List Meeting) : usedUp (ms ++ ms') = usedUp ms ++ usedUp ms' :=
  List.filterMap_append

theorem usedUp_some (m : Marker) (d : Disclosure) (ms : List Meeting) :
    usedUp ((m, some d) :: ms) = d :: usedUp ms := rfl

/-! ### The items visited -/

section Visits

variable {limits : ProcessingLimits} {validate : Bool} {depth : Nat}
  {next : Value → Value → List Meeting → Nat → Prop}
  (hnext : ∀ v out ms n, next v out ms n → n = items v + allValueItems (usedUp ms))
include hnext

theorem EntriesRestore.visits {es out : List (Value × Value)} {labels : List Label}
    {lists : List (List Bytes)} {ms : List Meeting} {n : Nat}
    (h : EntriesRestore limits next depth es out labels lists ms n) :
    n = items.itemsEntries es + allValueItems (usedUp ms) := by
  induction h with
  | nil => rfl
  | @hashes key list es out labels lists ms n hkey _ _ _ _ ih =>
    have hscalar : IsScalar key := by
      rw [isRedactedClaimKeysLabel_iff.mp hkey]
      trivial
    rw [ih, items.itemsEntries, items, itemsAll_hashes, items_scalar hscalar]
    omega
  | @claim key value value' label es out labels lists ms ms' n n' _ hlabel _ hvalue _ ih =>
    have hkey : IsKey key := .inr ⟨label, hlabel⟩
    rw [hnext _ _ _ _ hvalue, ih, items.itemsEntries, items_scalar hkey.scalar, usedUp_append,
      allValueItems_append]
    omega

theorem HashesRestore.visits {hashes undisclosed : List Bytes} {out : List (Value × Value)}
    {labels : List Label} {ms : List Meeting} {n : Nat}
    (h : HashesRestore validate next depth hashes out labels undisclosed ms n) :
    n = allValueItems (usedUp ms) := by
  induction h with
  | nil => rfl
  | @claim hash salt d key value value' hs undisclosed out labels ms ms' n n' hkind _ hvalue _ ih =>
    have hd : d.valueItems = items value := by
      rw [Disclosure.valueItems, hkind]
      rfl
    rw [hnext _ _ _ _ hvalue, ih, usedUp_some, usedUp_append, allValueItems_cons,
      allValueItems_append, hd]
    omega
  | @decoy hash salt d hs undisclosed out labels ms n hkind _ ih =>
    have hd : d.valueItems = 0 := by
      rw [Disclosure.valueItems, hkind]
      rfl
    rw [ih, usedUp_some, allValueItems_cons, hd, Nat.zero_add]
  | undisclosed _ ih => exact ih

theorem ItemRestores.visits {item : Value} {out : List Value} {ms : List Meeting} {n : Nat}
    (h : ItemRestores limits validate next depth item out ms n) :
    n = items item + allValueItems (usedUp ms) := by
  cases h with
  | keep _ hvalue => exact hnext _ _ _ _ hvalue
  | @disclosed hash salt d value value' ms n _ hkind hvalue =>
    have hd : d.valueItems = items value := by
      rw [Disclosure.valueItems, hkind]
      rfl
    have htwo : items (redactedElement hash) = 2 := rfl
    rw [hnext _ _ _ _ hvalue, usedUp_some, allValueItems_cons, hd, htwo]
  | @decoy hash salt d _ hkind =>
    have hd : d.valueItems = 0 := by
      rw [Disclosure.valueItems, hkind]
      rfl
    rw [usedUp_some, allValueItems_cons, hd]
    rfl
  | undisclosed => rfl

theorem ItemsRestore.visits {vs out : List Value} {ms : List Meeting} {n : Nat}
    (h : ItemsRestore limits validate next depth vs out ms n) :
    n = items.itemsAll vs + allValueItems (usedUp ms) := by
  induction h with
  | nil => rfl
  | cons hitem _ ih =>
    rw [hitem.visits hnext, ih, items.itemsAll, usedUp_append, allValueItems_append]
    omega

theorem ValueRestores.visits {v out : Value} {ms : List Meeting} {n : Nat}
    (h : ValueRestores limits validate next depth v out ms n) :
    n = items v + allValueItems (usedUp ms) := by
  cases h with
  | map _ hentries _ hhashes =>
    rw [hentries.visits hnext, hhashes.visits hnext, items, usedUp_append, allValueItems_append]
    omega
  | array _ hitems =>
    rw [hitems.visits hnext, items]
    omega
  | tag _ hvalue =>
    rw [hnext _ _ _ _ hvalue, items]
    omega
  | scalar hs =>
    rw [items_scalar hs]
    rfl

omit hnext in
/-- Restoration visits the items of the value and of the disclosed values. -/
theorem Restores.visits {levels : Nat} {v out : Value} {ms : List Meeting} {n : Nat}
    (h : Restores limits validate levels depth v out ms n) :
    n = items v + allValueItems (usedUp ms) := by
  induction levels generalizing depth v out ms n with
  | zero => exact h.elim
  | succ levels ih => exact ValueRestores.visits (fun _ _ _ _ h => ih h) h

end Visits

/-! ### Meeting the disclosures -/

/-- The markers met use up just these disclosures, each by its digest. -/
structure Uses (hasher : RedactionHasher) (ms : List Meeting) (ds : List Disclosure) : Prop where
  found : (ms.map Prod.snd).Perm (ds.map some)
  digests : ∀ m ∈ ms, ∀ d, m.2 = some d → d.redactedHash hasher = m.1.hash

section Answered

variable (hasher : RedactionHasher) (shown : Disclosure → Bool)

/-- How a disclosure is met: by its digest, and it is used up if it is shown. -/
def Disclosure.meeting (d : Disclosure) : Bytes × Option Disclosure :=
  (d.redactedHash hasher, if shown d then some d else none)

/-- The markers are met for some of the disclosures; and for all if all are shown. -/
structure Answered (ms : List Meeting) (ds : List Disclosure) : Prop where
  among : (ms.map fun m => (m.1.hash, m.2)).Subperm (ds.map fun d => d.meeting hasher shown)
  all : (∀ d ∈ ds, shown d = true) →
    (ms.map fun m => (m.1.hash, m.2)).Perm (ds.map fun d => d.meeting hasher shown)

variable {hasher shown} {ms ms' : List Meeting} {ds ds' : List Disclosure}

theorem Answered.nil : Answered hasher shown [] [] := ⟨.refl _, fun _ => .refl _⟩

theorem Answered.append (h : Answered hasher shown ms ds) (h' : Answered hasher shown ms' ds') :
    Answered hasher shown (ms ++ ms') (ds ++ ds') := by
  refine ⟨?_, fun hall => ?_⟩
  · rw [List.map_append, List.map_append]
    exact h.among.append h'.among
  · rw [List.forall_mem_append] at hall
    rw [List.map_append, List.map_append]
    exact (h.all hall.1).append (h'.all hall.2)

theorem Answered.cons {d : Disclosure} {m : Marker} {found : Option Disclosure}
    (h : Answered hasher shown ms ds)
    (hmeeting : d.meeting hasher shown = (m.hash, found)) :
    Answered hasher shown ((m, found) :: ms) (d :: ds) := by
  refine ⟨?_, fun hall => ?_⟩
  · rw [List.map_cons, List.map_cons, hmeeting]
    exact (List.subperm_cons _).mpr h.among
  · rw [List.map_cons, List.map_cons, hmeeting]
    exact (h.all (List.forall_mem_cons.mp hall).2).cons _

theorem Answered.perm (h : Answered hasher shown ms ds) (hms : ms.Perm ms')
    (hds : ds.Perm ds') : Answered hasher shown ms' ds' := by
  refine ⟨((hms.symm.map _).subperm.trans h.among).trans (hds.map _).subperm, fun hall => ?_⟩
  exact ((hms.symm.map _).trans (h.all fun d hd => hall d (hds.mem_iff.mp hd))).trans (hds.map _)

/-- What is below a disclosure that is not shown is not met. -/
theorem Answered.skip {d : Disclosure} (h : Answered hasher shown ms ds) (hds : ds.Sublist ds')
    (hd : d ∈ ds') (hshown : shown d = false) : Answered hasher shown ms ds' := by
  refine ⟨h.among.trans (hds.map _).subperm, fun hall => ?_⟩
  rw [hall d hd] at hshown
  cases hshown

/-- If all disclosures are shown they are used up. -/
theorem Answered.uses (h : Answered hasher shown ms ds) (hall : ∀ d ∈ ds, shown d = true) :
    Uses hasher ms ds := by
  have hperm := h.all hall
  refine ⟨?_, fun m hm d hd => ?_⟩
  · have hfound := hperm.map Prod.snd
    rw [List.map_map, List.map_map] at hfound
    refine hfound.trans (.of_eq (List.map_congr_left fun d hd => ?_))
    exact if_pos (hall d hd)
  · obtain ⟨d', hd', heq⟩ := List.mem_map.mp (hperm.mem_iff.mp (List.mem_map_of_mem hm))
    rw [Disclosure.meeting, if_pos (hall d' hd'), hd, Prod.mk.injEq, Option.some.injEq] at heq
    rw [← heq.2, heq.1]

end Answered

variable {c : SdCbor2} {limits limits' : ProcessingLimits} {hasher : RedactionHasher}

/-- A list of hashes at the end of a map. -/
theorem EntriesRestore.append_hashes {next : Value → Value → List Meeting → Nat → Prop}
    {depth : Nat} {es out : List (Value × Value)} {labels : List Label} {lists : List (List Bytes)}
    {ms : List Meeting} {n : Nat} (hs : List Bytes)
    (h : EntriesRestore limits next depth es out labels lists ms n)
    (hdepth : depth + 2 ≤ limits.maxDepth) (hlength : hs.length ≤ limits.maxContainerEntries) :
    EntriesRestore limits next depth
      (es ++ [(redactedClaimKeysLabel, .array (hs.map .bytes))]) out labels (lists ++ [hs]) ms
      (n + (2 + hs.length)) := by
  induction h with
  | nil =>
    have hcount : 0 + (2 + hs.length) = 1 + (1 + hs.length + 0) := by omega
    rw [List.nil_append, List.nil_append, hcount]
    exact .hashes rfl (by omega) hlength (fun _ => hdepth) .nil
  | @hashes key list es out labels lists ms n hkey hd hlist hdeep _ ih =>
    have hcount : 1 + (1 + list.length + n) + (2 + hs.length) =
        1 + (1 + list.length + (n + (2 + hs.length))) := by omega
    rw [List.cons_append, List.cons_append, hcount]
    exact .hashes hkey hd hlist hdeep ih
  | @claim key value value' label es out labels lists ms ms' n n' hkey hlabel hd hnext _ ih =>
    have hcount : 1 + (n + n') + (2 + hs.length) = 1 + (n + (n' + (2 + hs.length))) := by omega
    rw [List.cons_append, hcount]
    exact .claim hkey hlabel hd hnext ih

theorem ValueIssues.notRequest {R : Nat → Value → Value → List Disclosure → Nat → Prop}
    {depth : Nat} {v iv : Value} {ds : List Disclosure} {n : Nat}
    (h : ValueIssues c limits hasher R depth v iv ds n) : NotRequest v := by
  have tag {t t' : UInt64} {inner : Value} (ht : t' ≠ t) :
      taggedInner t (.tag t' inner) = none := by
    rw [taggedInner, if_neg ht]
  cases h with
  | map | array => exact ⟨rfl, rfl⟩
  | tag _ ht => exact ⟨tag fun heq => ht (.inr (.inl heq)), tag fun heq => ht (.inr (.inr heq))⟩
  | scalar _ hscalar =>
    cases v with
    | integer | bytes | text | float | bool | null | simple => exact ⟨rfl, rfl⟩
    | tag | array | map => exact hscalar.elim

theorem Issues.notRequest {levels depth : Nat} {v iv : Value} {ds : List Disclosure} {n : Nat}
    (h : Issues c limits hasher levels depth v iv ds n) : NotRequest v := by
  cases levels with
  | zero => exact h.elim
  | succ levels => exact ValueIssues.notRequest h

section Walk

/-- The value is restored to what is shown of it, at a depth no greater than where it was
issued. -/
def Presentable (limits limits' : ProcessingLimits) (hasher : RedactionHasher)
    (shown : Disclosure → Bool) (depth : Nat) (v iv : Value) (ds : List Disclosure) : Prop :=
  ∀ levels depth', depth' ≤ depth → levels + depth' = limits.maxDepth + 1 →
    ∃ out ms n, Restores limits' false levels depth' iv out ms n ∧ Answered hasher shown ms ds ∧
      Shows v (ds.map shown) out

variable {shown : Disclosure → Bool}
  {R : Nat → Value → Value → List Disclosure → Nat → Prop} {depth : Nat}
  (hsame : SameShapeLimits limits limits')
  (hshape : ∀ depth v iv ds n, R depth v iv ds n → Shaped c limits hasher depth iv ds n)
  (hnot : ∀ depth v iv ds n, R depth v iv ds n → NotRequest v)
  (hR : ∀ depth v iv ds n, R depth v iv ds n →
    Presentable limits limits' hasher shown depth v iv ds)

/-- How a disclosure is met that is shown, and one that is not. -/
theorem Disclosure.meeting_cases (hasher : RedactionHasher) (shown : Disclosure → Bool)
    (d : Disclosure) :
    (shown d = true ∧ d.meeting hasher shown = (d.redactedHash hasher, some d)) ∨
      (shown d = false ∧ d.meeting hasher shown = (d.redactedHash hasher, none)) := by
  rw [meeting]
  cases shown d with
  | true => exact .inl ⟨rfl, rfl⟩
  | false => exact .inr ⟨rfl, rfl⟩

include hsame hshape hR

/-- The entries that stayed are restored first, then the hidden ones that are shown. -/
theorem EntriesIssue.presents {es out : List (Value × Value)} {labels hidden : List Label}
    {own ds : List Disclosure} {n : Nat}
    (h : EntriesIssue c limits R depth es out labels own hidden ds n) {levels depth' : Nat}
    (hle : depth' ≤ depth) (hlevels : levels + (depth' + 1) = limits.maxDepth + 1) :
    ∃ out₁ out₂ hidden' ms₁ ms₂ n₁ n₂,
      EntriesRestore limits' (Restores limits' false levels (depth' + 1)) depth' out out₁ labels []
        ms₁ n₁ ∧
      HashesRestore false (Restores limits' false levels (depth' + 1)) depth'
        (own.map fun d => d.redactedHash hasher) out₂ hidden' [] ms₂ n₂ ∧
      hidden'.Sublist hidden ∧ Answered hasher shown (ms₁ ++ ms₂) ds ∧
      ShowsEntries es (ds.map shown) (out₁ ++ out₂) := by
  induction h with
  | nil => exact ⟨[], [], [], [], [], 0, 0, .nil, .nil, .slnil, .nil, showsEntries_nil⟩
  | @redacted inner value value' salt label d es out labels hidden own ds ds' n n' _ hlabel hvalue
      hd _ ih =>
    obtain ⟨out₁, out₂, hidden', ms₁, ms₂, n₁, n₂, hentries, hhashes, hsub, hms, hshows⟩ := ih
    obtain ⟨v, ms, _, hrestores, hms', hshows'⟩ := hR _ _ _ _ _ hvalue levels (depth' + 1)
      (Nat.succ_le_succ hle) hlevels
    have hkind := ((Disclosure.fromKindWithLimits_ok c).mp hd).1
    have hshown := @ShowsEntries.redacted _ _ _ _ label _ _ hshows hshows' (shown d)
    rw [← List.map_cons, ← List.map_append, ← labelFromValue_ok hlabel] at hshown
    rw [List.map_cons]
    rcases d.meeting_cases hasher shown with ⟨hflag, hmeeting⟩ | ⟨hflag, hmeeting⟩
    · rw [hflag, if_pos rfl, labelFromValue_ok hlabel] at hshown
      rw [labelFromValue_ok hlabel]
      refine ⟨out₁, _, _, ms₁, _, n₁, _, hentries, .claim hkind rfl hrestores hhashes,
        hsub.cons_cons _, ?_, hshown.perm List.perm_middle.symm⟩
      have hall := (hms'.append hms).cons (m := ⟨.claimKeys, d.redactedHash hasher⟩) hmeeting
      refine hall.perm ?_ List.perm_middle.symm
      -- the entries that stayed are met before all hidden ones
      refine List.Perm.trans (.cons _ ?_) List.perm_middle.symm
      rw [← List.append_assoc, ← List.append_assoc]
      exact List.perm_append_comm.append_right _
    · rw [hflag, if_neg Bool.false_ne_true] at hshown
      refine ⟨out₁, _, _, ms₁, _, n₁, _, hentries, .undisclosed hhashes, hsub.cons _, ?_, hshown⟩
      have hall := hms.cons (m := ⟨.claimKeys, d.redactedHash hasher⟩) hmeeting
      refine (hall.perm List.perm_middle.symm (.refl _)).skip ?_ ?_ hflag
      · exact List.sublist_append_right ds (d :: ds')
      · exact List.mem_append_right _ List.mem_cons_self
  | @decoy inner salt d es out labels hidden own ds n _ hd _ ih =>
    obtain ⟨out₁, out₂, hidden', ms₁, ms₂, n₁, n₂, hentries, hhashes, hsub, hms, hshows⟩ := ih
    have hkind := ((Disclosure.fromKindWithLimits_ok c).mp hd).1
    have hshown := @ShowsEntries.decoy _ _ _ inner hshows (shown d)
    rw [← List.map_cons] at hshown
    rw [List.map_cons]
    have hall {found : Option Disclosure}
        (hmeeting : d.meeting hasher shown = (d.redactedHash hasher, found)) :
        Answered hasher shown (ms₁ ++ (⟨.claimKeys, d.redactedHash hasher⟩, found) :: ms₂)
          (d :: ds) :=
      (hms.cons (m := ⟨.claimKeys, d.redactedHash hasher⟩) hmeeting).perm List.perm_middle.symm
        (.refl _)
    rcases d.meeting_cases hasher shown with ⟨-, hmeeting⟩ | ⟨-, hmeeting⟩
    · exact ⟨out₁, out₂, hidden', ms₁, _, n₁, _, hentries, .decoy hkind hhashes, hsub,
        hall hmeeting, hshown⟩
    · exact ⟨out₁, out₂, hidden', ms₁, _, n₁, _, hentries, .undisclosed hhashes, hsub,
        hall hmeeting, hshown⟩
  | @plain key value value' label es out labels hidden own ds ds' n n' hlabel hvalue _ ih =>
    obtain ⟨out₁, out₂, hidden', ms₁, ms₂, n₁, n₂, hentries, hhashes, hsub, hms, hshows⟩ := ih
    obtain ⟨v, ms, _, hrestores, hms', hshows'⟩ := hR _ _ _ _ _ hvalue levels (depth' + 1)
      (Nat.succ_le_succ hle) hlevels
    have hdepth := (hshape _ _ _ _ _ hvalue).fits.depth_le
    have hmaxDepth := hsame.maxDepth
    have hvisible : isRedactedClaimKeysLabel key = false := by
      rw [labelFromValue_ok hlabel]
      exact (DisclosureKind.key_scalar label).2
    have hshown := hshows.plain hlabel hshows'
    rw [← List.map_append] at hshown
    refine ⟨_, out₂, hidden', _, ms₂, _, n₂, .claim hvisible hlabel (by omega) hrestores hentries,
      hhashes, hsub, ?_, hshown⟩
    rw [List.append_assoc]
    exact hms'.append hms

include hnot

/-- An element is restored to what is shown of it, if anything. -/
theorem ItemIssues.presents {item item' : Value} {ds : List Disclosure} {n : Nat}
    (h : ItemIssues c limits hasher R depth item item' ds n) {levels depth' : Nat}
    (hle : depth' ≤ depth) (hlevels : levels + (depth' + 1) = limits.maxDepth + 1) :
    ∃ out ms n, ItemRestores limits' false (Restores limits' false levels (depth' + 1)) depth'
        item' out ms n ∧ Answered hasher shown ms ds ∧
      ∀ vs flags out', ShowsItems vs flags out' →
        ShowsItems (item :: vs) (ds.map shown ++ flags) (out ++ out') := by
  have hmaxDepth := hsame.maxDepth
  cases h with
  | @redacted inner value' salt d ds n hvalue hd =>
    obtain ⟨v, ms, _, hrestores, hms, hshows⟩ := hR _ _ _ _ _ hvalue levels (depth' + 1) (by omega)
      hlevels
    have hdepth := (hshape _ _ _ _ _ hvalue).fits.depth_le
    have hkind := ((Disclosure.fromKindWithLimits_ok c).mp hd).1
    have hshown (vs : List Value) (flags : List Bool) (out' : List Value)
        (h : ShowsItems vs flags out') : ShowsItems (.tag toBeRedactedTag inner :: vs)
          ((ds ++ [d]).map shown ++ flags) (if shown d then v :: out' else out') := by
      rw [List.map_append, List.append_assoc]
      exact h.redacted hshows (shown d)
    rcases d.meeting_cases hasher shown with ⟨hflag, hmeeting⟩ | ⟨hflag, hmeeting⟩
    · rw [hflag] at hshown
      have hall := hms.cons (m := ⟨.element, d.redactedHash hasher⟩) hmeeting
      exact ⟨_, _, _, .disclosed (by omega) hkind hrestores,
        hall.perm (.refl _) (List.perm_append_singleton d ds).symm, hshown⟩
    · rw [hflag] at hshown
      have hall := Answered.nil.cons (m := ⟨.element, d.redactedHash hasher⟩) hmeeting
      exact ⟨_, _, _, .undisclosed (by omega), hall.skip (List.sublist_append_right ds [d])
        (List.mem_append_right _ List.mem_cons_self) hflag, hshown⟩
  | @decoy inner salt d hdepth hd =>
    have hkind := ((Disclosure.fromKindWithLimits_ok c).mp hd).1
    have hshown (vs : List Value) (flags : List Bool) (out' : List Value)
        (h : ShowsItems vs flags out') := @ShowsItems.decoy _ _ _ inner h (shown d)
    rcases d.meeting_cases hasher shown with ⟨-, hmeeting⟩ | ⟨-, hmeeting⟩
    · exact ⟨_, _, _, .decoy (by omega) hkind, Answered.nil.cons hmeeting, hshown⟩
    · exact ⟨_, _, _, .undisclosed (by omega), Answered.nil.cons hmeeting, hshown⟩
  | plain hvalue =>
    obtain ⟨v, ms, _, hrestores, hms, hshows⟩ := hR _ _ _ _ _ hvalue levels (depth' + 1)
      (Nat.succ_le_succ hle) hlevels
    have hkeep := (hshape _ _ _ _ _ hvalue).redacted.not_redacted
    exact ⟨_, _, _, .keep hkeep hrestores, hms,
      fun vs flags out' h => h.plain (hnot _ _ _ _ _ hvalue) hshows⟩

theorem ItemsIssue.presents {vs out : List Value} {ds : List Disclosure} {n : Nat}
    (h : ItemsIssue c limits hasher R depth vs out ds n) {levels depth' : Nat}
    (hle : depth' ≤ depth) (hlevels : levels + (depth' + 1) = limits.maxDepth + 1) :
    ∃ out' ms n, ItemsRestore limits' false (Restores limits' false levels (depth' + 1)) depth' out
        out' ms n ∧ Answered hasher shown ms ds ∧ ShowsItems vs (ds.map shown) out' := by
  induction h with
  | nil => exact ⟨[], [], 0, .nil, .nil, showsItems_nil⟩
  | @cons item item' vs out ds ds' n n' hitem _ ih =>
    obtain ⟨out₁, ms₁, _, hfirst, hms₁, hshows₁⟩ :=
      hitem.presents hsame hshape hnot hR hle hlevels
    obtain ⟨out₂, ms₂, _, hrest, hms₂, hshows₂⟩ := ih
    have hshows := hshows₁ _ _ _ hshows₂
    rw [← List.map_append] at hshows
    exact ⟨_, _, _, .cons hfirst hrest, hms₁.append hms₂, hshows⟩

theorem ValueIssues.presents {v iv : Value} {ds : List Disclosure} {n : Nat}
    (h : ValueIssues c limits hasher R depth v iv ds n) :
    Presentable limits limits' hasher shown depth v iv ds := by
  intro levels depth' hle hlevels
  have hshaped := ValueIssues.shaped hshape h
  have hdepth := hshaped.fits.depth_le
  cases levels with
  | zero => omega
  | succ levels =>
    have hlevels : levels + (depth' + 1) = limits.maxDepth + 1 := by omega
    cases h with
    | @map es out labels hidden own ds n hd hlength hes hnodup =>
      obtain ⟨out₁, out₂, hidden', ms₁, ms₂, n₁, n₂, hentries, hhashes, hsub, hms, hshows⟩ :=
        hes.presents hsame hshape hR hle hlevels
      have hentriesShaped := hes.shaped hshape
      have hmaxDepth := hsame.maxDepth
      have hmaxEntries := hsame.maxContainerEntries
      have hfits := (fits_map.mp hshaped.fits).2.1
      rw [← hmaxEntries] at hfits
      have hnodup := hnodup.sublist ((List.Sublist.refl labels).append hsub)
      have hmap := hshows.map
      rw [← List.append_nil (out₁ ++ out₂)] at hmap
      cases hown : own.map fun d => d.redactedHash hasher with
      | nil =>
        rw [hown, undisclosedEntry, List.append_nil] at hfits
        rw [hown] at hhashes
        rw [undisclosedEntry, List.append_nil]
        exact ⟨_, _, _, .map hfits hentries (Nat.zero_le _) hhashes hnodup, hms, hmap⟩
      | cons hash hashes =>
        have hlist : undisclosedEntry (hash :: hashes) =
            [(redactedClaimKeysLabel, .array ((hash :: hashes).map .bytes))] := rfl
        have hcount' : own.length = (hash :: hashes).length := by
          rw [← hown, List.length_map]
        have hne : own ≠ [] := fun heq => by
          rw [heq] at hown
          cases hown
        have hdeep := hentriesShaped.deep hne
        have hlengths := hentriesShaped.length
        have hlast := hentries.append_hashes (hash :: hashes) (by omega) (by omega)
        have hflat : ([] ++ [hash :: hashes]).flatten = hash :: hashes := by simp
        rw [hown, ← hflat] at hhashes
        rw [hown, hlist] at hfits
        rw [hlist]
        exact ⟨_, _, _, .map hfits hlast (Nat.le_refl 1) hhashes hnodup, hms, hmap⟩
    | array hd hlength hitems =>
      obtain ⟨out', ms, _, hrestores, hms, hshows⟩ :=
        hitems.presents hsame hshape hnot hR hle hlevels
      have hfits := (fits_array.mp hshaped.fits).2.1
      rw [← hsame.maxContainerEntries] at hfits
      exact ⟨_, _, _, .array hfits hrestores, hms, hshows.array⟩
    | tag hd ht hvalue =>
      obtain ⟨out', ms, _, hrestores, hms, hshows⟩ := hR _ _ _ _ _ hvalue levels (depth' + 1)
        (Nat.succ_le_succ hle) hlevels
      exact ⟨_, _, _, .tag ht hrestores, hms, hshows.tag⟩
    | scalar hd hs hlabel => exact ⟨_, _, _, .scalar hs hlabel, .nil, shows_scalar hs⟩

end Walk

/-- **What is issued is restored to what is shown of it.** -/
theorem Issues.presents (hsame : SameShapeLimits limits limits') (shown : Disclosure → Bool)
    {levels depth : Nat} {v iv : Value} {ds : List Disclosure} {n : Nat}
    (h : Issues c limits hasher levels depth v iv ds n) :
    Presentable limits limits' hasher shown depth v iv ds := by
  induction levels generalizing depth v iv ds n with
  | zero => exact h.elim
  | succ levels ih =>
    exact ValueIssues.presents hsame (fun _ _ _ _ _ h => h.shaped)
      (fun _ _ _ _ _ h => h.notRequest) (fun _ _ _ _ _ h => ih h) h

/-- The value is restored, at a depth no greater than where it was issued. -/
def Restorable (limits limits' : ProcessingLimits) (hasher : RedactionHasher) (depth : Nat)
    (iv : Value) (ds : List Disclosure) : Prop :=
  ∀ levels depth', depth' ≤ depth → levels + depth' = limits.maxDepth + 1 →
    ∃ out ms n, Restores limits' false levels depth' iv out ms n ∧ Uses hasher ms ds

/-- **What is issued can be restored with all its disclosures.** -/
theorem Issues.restores (hsame : SameShapeLimits limits limits') {levels depth : Nat}
    {v iv : Value} {ds : List Disclosure} {n : Nat}
    (h : Issues c limits hasher levels depth v iv ds n) :
    Restorable limits limits' hasher depth iv ds := by
  intro levels depth' hle hlevels
  obtain ⟨out, ms, n, hrestores, hms, -⟩ := h.presents hsame (fun _ => true) levels depth' hle
    hlevels
  exact ⟨out, ms, n, hrestores, hms.uses fun _ _ => rfl⟩

end Cose2.SdCwt
