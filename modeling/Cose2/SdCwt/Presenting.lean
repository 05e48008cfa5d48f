import Cose2.SdCwt.Presentation

/-! # Presenting what a holder accepted

A holder who accepted a claims value with its disclosures may present any of them, whoever
issued the value.  Holder validation met every marker with a disclosure of its own, so a
verifier accepts the selections that are closed, and with more disclosures it sees the same
and more.
-/
namespace Cose2.SdCwt

open Cbor

/-! ### Parts of a value -/

/-- Some entries of maps and some elements of arrays are left out of the second value. -/
inductive PartOf : Value → Value → Prop
  | scalar {v : Value} : IsScalar v → PartOf v v
  | tag {t : UInt64} {v w : Value} : PartOf v w → PartOf (.tag t v) (.tag t w)
  | array {vs kept ws : List Value} : kept.Sublist ws → vs.length = kept.length →
    (∀ p ∈ vs.zip kept, PartOf p.1 p.2) → PartOf (.array vs) (.array ws)
  | map {es kept fs : List (Value × Value)} : kept.Sublist fs → es.length = kept.length →
    (∀ p ∈ es.zip kept, p.1.1 = p.2.1) → (∀ p ∈ es.zip kept, PartOf p.1.2 p.2.2) →
    PartOf (.map es) (.map fs)

/-- The same key with a part of the value. -/
def PartEntry (e f : Value × Value) : Prop := e.1 = f.1 ∧ PartOf e.2 f.2

theorem partOf_array {vs ws : List Value} (h : List.SublistForall₂ PartOf vs ws) :
    PartOf (.array vs) (.array ws) := by
  obtain ⟨kept, hparts, hsub⟩ := List.sublistForall₂_iff.mp h
  obtain ⟨hlength, hall⟩ := List.forall₂_iff_zip.mp hparts
  exact .array hsub hlength fun p hp => hall hp

theorem partOf_map {es fs : List (Value × Value)} (h : List.SublistForall₂ PartEntry es fs) :
    PartOf (.map es) (.map fs) := by
  obtain ⟨kept, hparts, hsub⟩ := List.sublistForall₂_iff.mp h
  obtain ⟨hlength, hall⟩ := List.forall₂_iff_zip.mp hparts
  exact .map hsub hlength (fun p hp => (hall hp).1) fun p hp => (hall hp).2

theorem sublistForall₂_append {α β : Type} {R : α → β → Prop} {as as' : List α} {bs bs' : List β}
    (h : List.SublistForall₂ R as bs) (h' : List.SublistForall₂ R as' bs') :
    List.SublistForall₂ R (as ++ as') (bs ++ bs') := by
  obtain ⟨kept, hparts, hsub⟩ := List.sublistForall₂_iff.mp h
  obtain ⟨kept', hparts', hsub'⟩ := List.sublistForall₂_iff.mp h'
  exact List.sublistForall₂_iff.mpr
    ⟨kept ++ kept', List.rel_append hparts hparts', hsub.append hsub'⟩

/-! ### Selections of a derivation -/

section Selects

variable (hasher : RedactionHasher)

/-- Every marker was met with the disclosure of its hash. -/
def AllAnswered (ms : List Meeting) : Prop :=
  ∀ m ∈ ms, ∃ d, m.2 = some d ∧ d.redactedHash hasher = m.1.hash

/-- The value `out` comes of the disclosures that are shown, where all of `ms` was met
before, and no more than `n` items are visited. -/
def Yields {α : Type} (shown : Disclosure → Bool) (R : α → List Meeting → Nat → Prop)
    (ms : List Meeting) (n : Nat) (out : α) : Prop :=
  ∃ ms' n', R out ms' n' ∧ n' ≤ n ∧ Answered hasher shown ms' (usedUp ms)

variable {hasher} {shown shown' : Disclosure → Bool} {limits : ProcessingLimits}
  {next : Value → Value → List Meeting → Nat → Prop} {depth : Nat} {ms ms' : List Meeting}
  {n n' : Nat}

theorem allAnswered_append :
    AllAnswered hasher (ms ++ ms') ↔ AllAnswered hasher ms ∧ AllAnswered hasher ms' :=
  List.forall_mem_append

theorem allAnswered_cons {m : Marker} {found : Option Disclosure} :
    AllAnswered hasher ((m, found) :: ms) ↔
      (∃ d, found = some d ∧ d.redactedHash hasher = m.hash) ∧ AllAnswered hasher ms :=
  List.forall_mem_cons

theorem AllAnswered.map_snd (h : AllAnswered hasher ms) :
    ms.map Prod.snd = (usedUp ms).map some := by
  induction ms with
  | nil => rfl
  | cons m ms ih =>
    obtain ⟨m, found⟩ := m
    obtain ⟨⟨d, hfound, -⟩, hrest⟩ := allAnswered_cons.mp h
    have heq : found = some d := hfound
    rw [heq, usedUp_some, List.map_cons, List.map_cons, ih hrest]

/-- What one selection shows is part of what the other one shows. -/
def Selectable (hasher : RedactionHasher) (shown shown' : Disclosure → Bool)
    (R : Value → Value → List Meeting → Nat → Prop) : Prop :=
  ∀ v out ms n, R v out ms n → AllAnswered hasher ms →
    ∃ w w', Yields hasher shown (R v) ms n w ∧ Yields hasher shown' (R v) ms n w' ∧ PartOf w w'

/-! ### One selection -/

section Steps

theorem Yields.entriesHashes {key : Value} {hs : List Bytes} {es out : List (Value × Value)}
    {labels : List Label} {lists : List (List Bytes)} (hkey : isRedactedClaimKeysLabel key = true)
    (hdepth : depth + 1 ≤ limits.maxDepth) (hlength : hs.length ≤ limits.maxContainerEntries)
    (hdeep : hs ≠ [] → depth + 2 ≤ limits.maxDepth)
    (h : Yields hasher shown (fun out => EntriesRestore limits next depth es out labels lists) ms n
      out) :
    Yields hasher shown (fun out => EntriesRestore limits next depth
      ((key, .array (hs.map .bytes)) :: es) out labels (hs :: lists)) ms (1 + (1 + hs.length + n))
      out := by
  obtain ⟨ms', n', h, hn, hms⟩ := h
  exact ⟨ms', _, .hashes hkey hdepth hlength hdeep h, by omega, hms⟩

theorem Yields.entriesClaim {key value value' : Value} {label : Label}
    {es out : List (Value × Value)} {labels : List Label} {lists : List (List Bytes)}
    (hkey : isRedactedClaimKeysLabel key = false) (hlabel : labelFromValue key = .ok label)
    (hdepth : depth + 1 ≤ limits.maxDepth) (hvalue : Yields hasher shown (next value) ms n value')
    (h : Yields hasher shown (fun out => EntriesRestore limits next depth es out labels lists) ms'
      n' out) :
    Yields hasher shown (fun out => EntriesRestore limits next depth ((key, value) :: es) out
      (label :: labels) lists) (ms ++ ms') (1 + (n + n')) ((key, value') :: out) := by
  obtain ⟨ms₁, n₁, hvalue, hn₁, hms₁⟩ := hvalue
  obtain ⟨ms₂, n₂, h, hn₂, hms₂⟩ := h
  refine ⟨_, _, .claim hkey hlabel hdepth hvalue h, by omega, ?_⟩
  rw [usedUp_append]
  exact hms₁.append hms₂

/-- The entries and the labels that the hashes of a map yield. -/
def HashesYield (hasher : RedactionHasher) (shown : Disclosure → Bool)
    (next : Value → Value → List Meeting → Nat → Prop) (depth : Nat) (hs : List Bytes)
    (ms : List Meeting) (n : Nat) (o : List (Value × Value) × List Label) : Prop :=
  Yields hasher shown (fun o => HashesRestore false next depth hs o.1 o.2 []) ms n o

theorem HashesYield.claim {hash salt : Bytes} {d : Disclosure} {key : Label} {value value' : Value}
    {hs : List Bytes} {o : List (Value × Value) × List Label}
    (hkind : d.kind = .claim salt key value)
    (hdigest : d.redactedHash hasher = hash) (hvalue : Yields hasher shown (next value) ms n value')
    (h : HashesYield hasher shown next depth hs ms' n' o) :
    HashesYield hasher shown next depth (hash :: hs)
      ((⟨.claimKeys, hash⟩, some d) :: (ms ++ ms')) (n + n')
      (if shown d then ((key.toValue, value') :: o.1, key :: o.2) else o) := by
  obtain ⟨ms₁, n₁, hvalue, hn₁, hms₁⟩ := hvalue
  obtain ⟨ms₂, n₂, h, hn₂, hms₂⟩ := h
  rcases d.meeting_cases hasher shown with ⟨hflag, hmeeting⟩ | ⟨hflag, hmeeting⟩
  · rw [if_pos hflag]
    refine ⟨_, _, .claim hkind rfl hvalue h, by omega, ?_⟩
    rw [usedUp_some, usedUp_append]
    exact (hms₁.append hms₂).cons (hdigest ▸ hmeeting)
  · rw [if_neg (by rw [hflag]; exact Bool.false_ne_true)]
    refine ⟨_, _, .undisclosed h, by omega, ?_⟩
    rw [usedUp_some, usedUp_append]
    have hall := hms₂.cons (m := ⟨.claimKeys, hash⟩) (hdigest ▸ hmeeting)
    exact hall.skip ((List.sublist_append_right _ _).cons_cons d) List.mem_cons_self hflag

theorem HashesYield.decoy {hash salt : Bytes} {d : Disclosure} {hs : List Bytes}
    {o : List (Value × Value) × List Label} (hkind : d.kind = .decoy salt)
    (hdigest : d.redactedHash hasher = hash) (h : HashesYield hasher shown next depth hs ms n o) :
    HashesYield hasher shown next depth (hash :: hs) ((⟨.claimKeys, hash⟩, some d) :: ms) n o := by
  obtain ⟨ms', n', h, hn, hms⟩ := h
  rcases d.meeting_cases hasher shown with ⟨-, hmeeting⟩ | ⟨-, hmeeting⟩
  · exact ⟨_, _, .decoy hkind h, hn, hms.cons (hdigest ▸ hmeeting)⟩
  · exact ⟨_, _, .undisclosed h, hn, hms.cons (hdigest ▸ hmeeting)⟩

/-- What an element yields. -/
def ItemYields (hasher : RedactionHasher) (shown : Disclosure → Bool) (limits : ProcessingLimits)
    (next : Value → Value → List Meeting → Nat → Prop) (depth : Nat) (item : Value)
    (ms : List Meeting) (n : Nat) (out : List Value) : Prop :=
  Yields hasher shown (ItemRestores limits false next depth item) ms n out

theorem ItemYields.keep {item item' : Value} (hitem : isRedactedElement item = false)
    (h : Yields hasher shown (next item) ms n item') :
    ItemYields hasher shown limits next depth item ms n [item'] := by
  obtain ⟨ms', n', h, hn, hms⟩ := h
  exact ⟨ms', n', .keep hitem h, hn, hms⟩

theorem ItemYields.disclosed {hash salt : Bytes} {d : Disclosure} {value value' : Value}
    (hdepth : depth + 2 ≤ limits.maxDepth) (hkind : d.kind = .element salt value)
    (hdigest : d.redactedHash hasher = hash) (h : Yields hasher shown (next value) ms n value') :
    ItemYields hasher shown limits next depth (redactedElement hash)
      ((⟨.element, hash⟩, some d) :: ms) (2 + n) (if shown d then [value'] else []) := by
  obtain ⟨ms', n', h, hn, hms⟩ := h
  rcases d.meeting_cases hasher shown with ⟨hflag, hmeeting⟩ | ⟨hflag, hmeeting⟩
  · rw [if_pos hflag]
    exact ⟨_, _, .disclosed hdepth hkind h, by omega, hms.cons (hdigest ▸ hmeeting)⟩
  · rw [if_neg (by rw [hflag]; exact Bool.false_ne_true)]
    have hall := Answered.nil.cons (m := ⟨.element, hash⟩) (hdigest ▸ hmeeting)
    exact ⟨_, _, .undisclosed hdepth, by omega, hall.skip ((List.nil_sublist _).cons_cons d)
      List.mem_cons_self hflag⟩

theorem ItemYields.decoy {hash salt : Bytes} {d : Disclosure} (hdepth : depth + 2 ≤ limits.maxDepth)
    (hkind : d.kind = .decoy salt) (hdigest : d.redactedHash hasher = hash) :
    ItemYields hasher shown limits next depth (redactedElement hash)
      [(⟨.element, hash⟩, some d)] 2 [] := by
  rcases d.meeting_cases hasher shown with ⟨-, hmeeting⟩ | ⟨-, hmeeting⟩
  · exact ⟨_, _, .decoy hdepth hkind, Nat.le_refl 2, Answered.nil.cons (hdigest ▸ hmeeting)⟩
  · exact ⟨_, _, .undisclosed hdepth, Nat.le_refl 2, Answered.nil.cons (hdigest ▸ hmeeting)⟩

theorem Yields.items {item : Value} {vs out out' : List Value}
    (hitem : ItemYields hasher shown limits next depth item ms n out)
    (h : Yields hasher shown (ItemsRestore limits false next depth vs) ms' n' out') :
    Yields hasher shown (ItemsRestore limits false next depth (item :: vs)) (ms ++ ms') (n + n')
      (out ++ out') := by
  obtain ⟨ms₁, n₁, hitem, hn₁, hms₁⟩ := hitem
  obtain ⟨ms₂, n₂, h, hn₂, hms₂⟩ := h
  refine ⟨_, _, .cons hitem h, by omega, ?_⟩
  rw [usedUp_append]
  exact hms₁.append hms₂

end Steps

/-! ### Two selections -/

section Pairs

variable (hshown : ∀ d, shown d = true → shown' d = true)
  (hnext : Selectable hasher shown shown' next)
include hnext

theorem EntriesRestore.select {es out : List (Value × Value)} {labels : List Label}
    {lists : List (List Bytes)} (h : EntriesRestore limits next depth es out labels lists ms n)
    (hms : AllAnswered hasher ms) :
    ∃ out₁ out₂,
      Yields hasher shown (fun out => EntriesRestore limits next depth es out labels lists) ms n
        out₁ ∧
      Yields hasher shown' (fun out => EntriesRestore limits next depth es out labels lists) ms n
        out₂ ∧ List.SublistForall₂ PartEntry out₁ out₂ := by
  induction h with
  | nil =>
    have hnil (shown : Disclosure → Bool) : Yields hasher shown
        (fun out => EntriesRestore limits next depth [] out [] []) [] 0 [] :=
      ⟨[], 0, .nil, Nat.le_refl 0, .nil⟩
    exact ⟨[], [], hnil shown, hnil shown', .nil⟩
  | hashes hkey hdepth hlength hdeep _ ih =>
    obtain ⟨out₁, out₂, h₁, h₂, hparts⟩ := ih hms
    exact ⟨out₁, out₂, h₁.entriesHashes hkey hdepth hlength hdeep,
      h₂.entriesHashes hkey hdepth hlength hdeep, hparts⟩
  | claim hkey hlabel hdepth hvalue _ ih =>
    obtain ⟨hfirst, hrest⟩ := allAnswered_append.mp hms
    obtain ⟨v₁, v₂, hv₁, hv₂, hpart⟩ := hnext _ _ _ _ hvalue hfirst
    obtain ⟨out₁, out₂, h₁, h₂, hparts⟩ := ih hrest
    exact ⟨_, _, hv₁.entriesClaim hkey hlabel hdepth h₁, hv₂.entriesClaim hkey hlabel hdepth h₂,
      .cons ⟨rfl, hpart⟩ hparts⟩

include hshown

theorem HashesRestore.select {hs undisclosed : List Bytes} {out : List (Value × Value)}
    {labels : List Label}
    (h : HashesRestore false next depth hs out labels undisclosed ms n)
    (hms : AllAnswered hasher ms) :
    ∃ o₁ o₂, HashesYield hasher shown next depth hs ms n o₁ ∧
      HashesYield hasher shown' next depth hs ms n o₂ ∧
      List.SublistForall₂ PartEntry o₁.1 o₂.1 ∧ o₁.2.Sublist labels ∧ o₂.2.Sublist labels := by
  induction h with
  | nil =>
    have hnil (shown : Disclosure → Bool) : HashesYield hasher shown next depth [] [] 0 ([], []) :=
      ⟨[], 0, .nil, Nat.le_refl 0, .nil⟩
    exact ⟨([], []), ([], []), hnil shown, hnil shown', .nil, .slnil, .slnil⟩
  | @claim hash salt d key value value' hs undisclosed out labels ms ms' n n' hkind _ hvalue _ ih =>
    rw [allAnswered_cons, allAnswered_append] at hms
    obtain ⟨⟨d', hfound, hdigest⟩, hfirst, hrest⟩ := hms
    obtain rfl := Option.some.inj hfound
    obtain ⟨v₁, v₂, hv₁, hv₂, hpart⟩ := hnext _ _ _ _ hvalue hfirst
    obtain ⟨o₁, o₂, h₁, h₂, hparts, hsub₁, hsub₂⟩ := ih hrest
    refine ⟨_, _, HashesYield.claim hkind hdigest hv₁ h₁, HashesYield.claim hkind hdigest hv₂ h₂,
      ?_⟩
    -- an entry that the first selection shows is shown by the second one
    by_cases hflag₂ : shown' d = true
    · rw [if_pos hflag₂]
      by_cases hflag₁ : shown d = true
      · rw [if_pos hflag₁]
        exact ⟨.cons ⟨rfl, hpart⟩ hparts, hsub₁.cons_cons key, hsub₂.cons_cons key⟩
      · rw [if_neg hflag₁]
        exact ⟨.cons_right hparts, hsub₁.cons key, hsub₂.cons_cons key⟩
    · have hflag₁ : ¬ shown d = true := fun h => hflag₂ (hshown d h)
      rw [if_neg hflag₁, if_neg hflag₂]
      exact ⟨hparts, hsub₁.cons key, hsub₂.cons key⟩
  | decoy hkind _ ih =>
    rw [allAnswered_cons] at hms
    obtain ⟨⟨d', hfound, hdigest⟩, hrest⟩ := hms
    obtain rfl := Option.some.inj hfound
    obtain ⟨o₁, o₂, h₁, h₂, hparts⟩ := ih hrest
    exact ⟨o₁, o₂, HashesYield.decoy hkind hdigest h₁, HashesYield.decoy hkind hdigest h₂, hparts⟩
  | undisclosed _ _ =>
    rw [allAnswered_cons] at hms
    obtain ⟨⟨d', hfound, -⟩, -⟩ := hms
    cases hfound

theorem ItemRestores.select {item : Value} {out : List Value}
    (h : ItemRestores limits false next depth item out ms n) (hms : AllAnswered hasher ms) :
    ∃ out₁ out₂, ItemYields hasher shown limits next depth item ms n out₁ ∧
      ItemYields hasher shown' limits next depth item ms n out₂ ∧
      List.SublistForall₂ PartOf out₁ out₂ := by
  cases h with
  | keep hitem hvalue =>
    obtain ⟨v₁, v₂, hv₁, hv₂, hpart⟩ := hnext _ _ _ _ hvalue hms
    exact ⟨_, _, ItemYields.keep hitem hv₁, ItemYields.keep hitem hv₂, .cons hpart .nil⟩
  | @disclosed hash salt d value value' ms n hdepth hkind hvalue =>
    rw [allAnswered_cons] at hms
    obtain ⟨⟨d', hfound, hdigest⟩, hrest⟩ := hms
    obtain rfl := Option.some.inj hfound
    obtain ⟨v₁, v₂, hv₁, hv₂, hpart⟩ := hnext _ _ _ _ hvalue hrest
    refine ⟨_, _, ItemYields.disclosed hdepth hkind hdigest hv₁,
      ItemYields.disclosed hdepth hkind hdigest hv₂, ?_⟩
    by_cases hflag₁ : shown d = true
    · rw [if_pos hflag₁, if_pos (hshown d hflag₁)]
      exact .cons hpart .nil
    · rw [if_neg hflag₁]
      exact .nil
  | decoy hdepth hkind =>
    rw [allAnswered_cons] at hms
    obtain ⟨⟨d', hfound, hdigest⟩, -⟩ := hms
    obtain rfl := Option.some.inj hfound
    exact ⟨[], [], ItemYields.decoy hdepth hkind hdigest, ItemYields.decoy hdepth hkind hdigest,
      .nil⟩
  | undisclosed _ =>
    rw [allAnswered_cons] at hms
    obtain ⟨⟨d', hfound, -⟩, -⟩ := hms
    cases hfound

theorem ItemsRestore.select {vs out : List Value}
    (h : ItemsRestore limits false next depth vs out ms n) (hms : AllAnswered hasher ms) :
    ∃ out₁ out₂, Yields hasher shown (ItemsRestore limits false next depth vs) ms n out₁ ∧
      Yields hasher shown' (ItemsRestore limits false next depth vs) ms n out₂ ∧
      List.SublistForall₂ PartOf out₁ out₂ := by
  induction h with
  | nil =>
    have hnil (shown : Disclosure → Bool) : Yields hasher shown
        (ItemsRestore limits false next depth []) [] 0 [] := ⟨[], 0, .nil, Nat.le_refl 0, .nil⟩
    exact ⟨[], [], hnil shown, hnil shown', .nil⟩
  | cons hitem _ ih =>
    obtain ⟨hfirst, hrest⟩ := allAnswered_append.mp hms
    obtain ⟨out₁, out₂, h₁, h₂, hparts⟩ := hitem.select hshown hnext hfirst
    obtain ⟨out₁', out₂', h₁', h₂', hparts'⟩ := ih hrest
    exact ⟨_, _, Yields.items h₁ h₁', Yields.items h₂ h₂', sublistForall₂_append hparts hparts'⟩

theorem ValueRestores.select : Selectable hasher shown shown'
    (ValueRestores limits false next depth) := by
  intro v out ms n h hms
  cases h with
  | @map es out disclosed labels labels' lists undisclosed ms ms' n n' hlength hentries hlists
      hhashes hnodup =>
    obtain ⟨hfirst, hrest⟩ := allAnswered_append.mp hms
    obtain ⟨out₁, out₂, h₁, h₂, hparts⟩ := hentries.select hnext hfirst
    obtain ⟨o₁, o₂, h₁', h₂', hparts', hsub₁, hsub₂⟩ := hhashes.select hshown hnext hrest
    have hmap {shown : Disclosure → Bool} {out : List (Value × Value)}
        {o : List (Value × Value) × List Label} (hsub : o.2.Sublist labels')
        (h : Yields hasher shown (fun out => EntriesRestore limits next depth es out labels lists)
          ms n out) (h' : HashesYield hasher shown next depth lists.flatten ms' n' o) :
        Yields hasher shown (ValueRestores limits false next depth (.map es)) (ms ++ ms')
          (1 + (n + n')) (.map (out ++ o.1)) := by
      obtain ⟨ms₁, n₁, h, hn₁, hms₁⟩ := h
      obtain ⟨ms₂, n₂, h', hn₂, hms₂⟩ := h'
      have hnodup' := hnodup.sublist ((List.Sublist.refl labels).append hsub)
      have hrestores := ValueRestores.map hlength h hlists h' hnodup'
      rw [undisclosedEntry, List.append_nil] at hrestores
      refine ⟨_, _, hrestores, by omega, ?_⟩
      rw [usedUp_append]
      exact hms₁.append hms₂
    exact ⟨_, _, hmap hsub₁ h₁ h₁', hmap hsub₂ h₂ h₂',
      partOf_map (sublistForall₂_append hparts hparts')⟩
  | array hlength hitems =>
    obtain ⟨out₁, out₂, ⟨ms₁, n₁, h₁, hn₁, hms₁⟩, ⟨ms₂, n₂, h₂, hn₂, hms₂⟩, hparts⟩ :=
      hitems.select hshown hnext hms
    exact ⟨_, _, ⟨ms₁, _, .array hlength h₁, by omega, hms₁⟩,
      ⟨ms₂, _, .array hlength h₂, by omega, hms₂⟩, partOf_array hparts⟩
  | tag ht hvalue =>
    obtain ⟨v₁, v₂, ⟨ms₁, n₁, h₁, hn₁, hms₁⟩, ⟨ms₂, n₂, h₂, hn₂, hms₂⟩, hpart⟩ :=
      hnext _ _ _ _ hvalue hms
    exact ⟨_, _, ⟨ms₁, _, .tag ht h₁, by omega, hms₁⟩, ⟨ms₂, _, .tag ht h₂, by omega, hms₂⟩,
      .tag hpart⟩
  | scalar hscalar hlabel =>
    have hsame (shown : Disclosure → Bool) : Yields hasher shown
        (ValueRestores limits false next depth v) [] 1 v :=
      ⟨[], 1, .scalar hscalar hlabel, Nat.le_refl 1, .nil⟩
    exact ⟨v, v, hsame shown, hsame shown', .scalar hscalar⟩

end Pairs

/-- **A derivation can be repeated for fewer disclosures.** -/
theorem Restores.select (hshown : ∀ d, shown d = true → shown' d = true) {levels : Nat} :
    Selectable hasher shown shown' (Restores limits false levels depth) := by
  induction levels generalizing depth with
  | zero => exact fun _ _ _ _ h => h.elim
  | succ levels ih => exact ValueRestores.select hshown ih

/-- The same for claims that may be missing. -/
theorem OptionRestores.select (hshown : ∀ d, shown d = true → shown' d = true)
    {claims out : Option Value} (h : OptionRestores limits false claims out ms n)
    (hms : AllAnswered hasher ms) :
    ∃ w w', Yields hasher shown (OptionRestores limits false claims) ms n w ∧
      Yields hasher shown' (OptionRestores limits false claims) ms n w' ∧
      ∀ v, w = some v → ∃ v', w' = some v' ∧ PartOf v v' := by
  cases h with
  | absent =>
    have hnone (shown : Disclosure → Bool) : Yields hasher shown
        (OptionRestores limits false none) [] 0 none := ⟨[], 0, .absent, Nat.le_refl 0, .nil⟩
    exact ⟨none, none, hnone shown, hnone shown', fun _ hv => by cases hv⟩
  | present h =>
    obtain ⟨w, w', ⟨ms₁, n₁, h₁, hn₁, hms₁⟩, ⟨ms₂, n₂, h₂, hn₂, hms₂⟩, hpart⟩ :=
      Restores.select hshown _ _ _ _ h hms
    refine ⟨some w, some w', ⟨ms₁, n₁, .present h₁, hn₁, hms₁⟩, ⟨ms₂, n₂, .present h₂, hn₂, hms₂⟩,
      fun v hv => ?_⟩
    obtain rfl := Option.some.inj hv
    exact ⟨w', rfl, hpart⟩

end Selects

/-! ### What a holder accepted -/

section Holder

variable {c : SdCbor2} {limits : ProcessingLimits} {hasher : RedactionHasher} {value : Value}
  {protectedClaims : Option Value} {ds selected : List Disclosure} {report : RestoreReport}
  {ms : List Meeting} {n : Nat}

/-- The markers of the claims maps. -/
def rootMarkers (protectedClaims : Option Value) (value : Value) : List Marker :=
  (protectedClaims.map markers).getD [] ++ markers value

/-- A selection all of which is used up is closed. -/
theorem Accounts.parentClosed {mode : RestoreMode} {roots : List Marker}
    {used : List (Marker × Disclosure)} {removed : List Marker}
    (h : Accounts hasher mode roots selected report used removed)
    (honce : ((roots ++ ds.flatMap Disclosure.markers).map Marker.hash).Nodup)
    (hsub : selected ⊆ ds) : ParentClosed hasher ds selected := by
  intro d hd p hp hmem
  obtain ⟨⟨m, d'⟩, hused, heq⟩ := List.mem_map.mp (h.once.mem_iff.mpr hd)
  obtain rfl : d' = d := heq
  have hdigest : m.hash = d'.redactedHash hasher := h.digest _ hused
  rw [← hdigest] at hmem
  rw [List.map_append, List.nodup_append, List.map_flatMap, List.nodup_flatMap] at honce
  obtain ⟨-, ⟨-, hdisjoint⟩, hroots⟩ := honce
  have hreached := h.reached m (List.mem_append_left _ (List.mem_map_of_mem hused))
  cases hreached with
  | root hm =>
    -- the hash would stand in the claims maps too
    exact absurd rfl
      (hroots _ (List.mem_map_of_mem hm) _ (List.mem_flatMap.mpr ⟨p, hp, hmem⟩))
  | @inside m' _ q _ hq hm =>
    have hqselected : q ∈ selected := h.once.mem_iff.mp (List.mem_map_of_mem hq)
    by_cases hpq : p = q
    · rwa [hpq]
    · have : Std.Symm (Function.onFun List.Disjoint fun d : Disclosure =>
          d.markers.map Marker.hash) := ⟨fun _ _ h => h.symm⟩
      exact absurd (List.mem_map_of_mem hm)
        (fun hin => hdisjoint.forall hp (hsub hqselected) hpq hmem hin)

section Accepted

variable (h : Presented .holder limits false value protectedClaims hasher ds report ms n)
include h

/-- Holder validation met every marker with a disclosure of its own. -/
theorem Presented.allAnswered : AllAnswered hasher ms := by
  intro m hm
  cases hfound : m.2 with
  | none => exact absurd hfound (h.passes.answered rfl m hm)
  | some d =>
    have hmem : (m.1, d) ∈ BTreeMap.found ms :=
      List.mem_filterMap.mpr ⟨m, hm, by rw [hfound]; rfl⟩
    exact ⟨d, rfl, (h.accounts.digest _ hmem).symm⟩

theorem Presented.usedUp_perm : (usedUp ms).Perm ds := by
  have honce := h.accounts.once
  rwa [BTreeMap.map_snd_found] at honce

theorem Presented.uses : Uses hasher ms ds where
  found := by
    rw [h.allAnswered.map_snd]
    exact h.usedUp_perm.map some
  digests m hm d hd := by
    obtain ⟨d', hfound, hdigest⟩ := h.allAnswered m hm
    rw [hd] at hfound
    rwa [Option.some.inj hfound]

/-- So the hashes are distinct. -/
theorem Presented.nodup_hashes :
    ((rootMarkers protectedClaims value ++
      ds.flatMap Disclosure.markers).map Marker.hash).Nodup := by
  have hacc := h.accounts
  have hmarkers := hacc.markers.map Marker.hash
  rw [hacc.holder rfl, List.append_nil, List.map_map] at hmarkers
  have hhashes : (BTreeMap.found ms).map (Marker.hash ∘ Prod.fst) =
      ((BTreeMap.found ms).map Prod.snd).map fun d => d.redactedHash hasher := by
    rw [List.map_map]
    exact List.map_congr_left fun p hp => hacc.digest p hp
  rw [hhashes] at hmarkers
  exact hmarkers.nodup_iff.mp ((hacc.once.map _).nodup_iff.mpr h.loads.digests)

/-- What the selection shows is presented if the selection is closed. -/
theorem Presented.present {claims : Option Value} {out : Value} {ms₁ ms₂ ms' ms'' : List Meeting}
    {n₁ n₂ n' n'' : Nat} (hms : ms = ms₁ ++ ms₂) (hn : n = n₁ + n₂)
    (hselected : selected.Subperm ds) (hclosed : ParentClosed hasher ds selected)
    (hclaims : OptionRestores limits false protectedClaims claims ms' n') (hn' : n' ≤ n₁)
    (hms' : Answered hasher (selects hasher selected) ms' (usedUp ms₁))
    (hvalue : Restores limits false (limits.maxDepth + 1) 0 value out ms'' n'') (hn'' : n'' ≤ n₂)
    (hms'' : Answered hasher (selects hasher selected) ms'' (usedUp ms₂)) :
    ∃ report', Presented .verifier limits false value protectedClaims hasher selected report'
      (ms' ++ ms'') (n' + n'') ∧ report'.value = out ∧ report'.protectedClaims = claims := by
  have hdigests := h.loads.digests
  have hanswered : Answered hasher (selects hasher selected) (ms' ++ ms'') ds := by
    have hall := hms'.append hms''
    rw [← usedUp_append, ← hms] at hall
    exact hall.perm (.refl _) h.usedUp_perm
  have hacc : Accounted (rootMarkers protectedClaims value) (ms' ++ ms'') :=
    hclaims.accounted.append hvalue.accounted
  have hall : Accounted (rootMarkers protectedClaims value) ms := by
    obtain ⟨_, _, _, _, rfl, -, h₁, h₂⟩ := h.restores
    exact h₁.accounted.append h₂.accounted
  have hmet := hanswered.reaches hdigests hselected.subset hclosed hacc h.uses hall
  refine ⟨⟨out, claims, _, _, _⟩, ⟨h.loads.of_subperm hselected, ?_, ?_, ?_, rfl⟩, rfl, rfl⟩
  · exact ⟨ms', ms'', n', n'', rfl, rfl, hclaims, hvalue⟩
  · refine ⟨hanswered.finds hdigests hselected, (fun hmode => by cases hmode), ?_⟩
    have haffords := h.passes.affords
    have hloaded : disclosedItems selected ≤ disclosedItems ds := sum_le_of_subperm hselected _
    rw [TraversalBudget.Affords, startRestoring] at haffords ⊢
    simp only at haffords ⊢
    omega
  · exact removeAll_digested (nodup_of_subperm hselected hdigests) hmet

/-- Two closed selections are presented; what the smaller one shows is part of what the larger
one shows. -/
theorem Presented.presents {selected' : List Disclosure} (hselected : selected.Subperm ds)
    (hselected' : selected'.Subperm ds) (hsub : selected ⊆ selected')
    (hclosed : ParentClosed hasher ds selected) (hclosed' : ParentClosed hasher ds selected') :
    ∃ r r' ms' ms'' n' n'',
      Presented .verifier limits false value protectedClaims hasher selected r ms' n' ∧
      Presented .verifier limits false value protectedClaims hasher selected' r' ms'' n'' ∧
      PartOf r.value r'.value ∧ ∀ v, r.protectedClaims = some v →
        ∃ v', r'.protectedClaims = some v' ∧ PartOf v v' := by
  have hanswered := h.allAnswered
  obtain ⟨ms₁, ms₂, n₁, n₂, hms, hn, hclaims, hvalue⟩ := h.restores
  rw [hms, allAnswered_append] at hanswered
  have hshown (d : Disclosure) (hd : selects hasher selected d = true) :
      selects hasher selected' d = true := by
    rw [selects, decide_eq_true_iff] at hd ⊢
    exact List.map_subset _ hsub hd
  obtain ⟨w, w', ⟨ms₃, n₃, hw, hn₃, hms₃⟩, ⟨ms₄, n₄, hw', hn₄, hms₄⟩, hparts⟩ :=
    hclaims.select hshown hanswered.1
  obtain ⟨v, v', ⟨ms₅, n₅, hv, hn₅, hms₅⟩, ⟨ms₆, n₆, hv', hn₆, hms₆⟩, hpart⟩ :=
    Restores.select hshown _ _ _ _ hvalue hanswered.2
  obtain ⟨r, hr, hrv, hrw⟩ := h.present hms hn hselected hclosed hw hn₃ hms₃ hv hn₅ hms₅
  obtain ⟨r', hr', hrv', hrw'⟩ := h.present hms hn hselected' hclosed' hw' hn₄ hms₄ hv' hn₆ hms₆
  refine ⟨r, r', _, _, _, _, hr, hr', ?_, ?_⟩
  · rw [hrv, hrv']
    exact hpart
  · rw [hrw, hrw']
    exact hparts

end Accepted

/-- With all disclosures a verifier sees what the holder saw. -/
theorem Presented.verifier
    (h : Presented .holder limits false value protectedClaims hasher ds report ms n) :
    Presented .verifier limits false value protectedClaims hasher ds report ms n where
  loads := h.loads
  restores := h.restores
  passes := ⟨h.passes.finds, (fun hmode => by cases hmode), h.passes.affords⟩
  usesAll := h.usesAll
  stats := h.stats

theorem restorePlain_ok {mode : RestoreMode} :
    restoreWithProtectedClaims c mode value protectedClaims ds hasher limits false = .ok report ↔
      ∃ ms n, Presented mode limits false value protectedClaims hasher ds report ms n := by
  rw [← restoreClaims_ok (c := c), restoreWithProtectedClaims, Except.bind_eq_ok]
  constructor
  · rintro ⟨report', h, heq⟩
    rwa [← Except.ok.inj heq]
  · intro h
    exact ⟨report, h, rfl⟩

/-- **What a holder accepted can be presented**: a verifier accepts exactly the selections that
are closed, with more disclosures it sees the same and more, and with all of them what the
holder saw. -/
theorem presentsWhatWasAccepted
    (h : restoreWithProtectedClaims c .holder value protectedClaims ds hasher limits false =
      .ok report) :
    (∀ selected : List Disclosure, selected.Subperm ds →
      ((∃ r, restoreWithProtectedClaims c .verifier value protectedClaims selected hasher limits
        false = .ok r) ↔ ParentClosed hasher ds selected)) ∧
    (∀ (selected selected' : List Disclosure) (r r' : RestoreReport), selected.Subperm ds →
      selected'.Subperm ds → selected ⊆ selected' →
      restoreWithProtectedClaims c .verifier value protectedClaims selected hasher limits false =
        .ok r →
      restoreWithProtectedClaims c .verifier value protectedClaims selected' hasher limits false =
        .ok r' →
      PartOf r.value r'.value ∧ ∀ v, r.protectedClaims = some v →
        ∃ v', r'.protectedClaims = some v' ∧ PartOf v v') ∧
    restoreWithProtectedClaims c .verifier value protectedClaims ds hasher limits false =
      .ok report := by
  obtain ⟨ms, n, hpresented⟩ := restorePlain_ok.mp h
  have hclosed {selected : List Disclosure} {r : RestoreReport} (hselected : selected.Subperm ds)
      (hrestore : restoreWithProtectedClaims c .verifier value protectedClaims selected hasher
        limits false = .ok r) : ParentClosed hasher ds selected := by
    obtain ⟨_, _, hr⟩ := restorePlain_ok.mp hrestore
    exact hr.accounts.parentClosed hpresented.nodup_hashes hselected.subset
  refine ⟨fun selected hselected => ⟨?_, fun hparents => ?_⟩, ?_, ?_⟩
  · intro hrestore
    obtain ⟨r, hr⟩ := hrestore
    exact hclosed hselected hr
  · obtain ⟨r, -, _, _, _, _, hr, -⟩ := hpresented.presents hselected hselected
      (List.Subset.refl selected) hparents hparents
    exact ⟨r, restorePlain_ok.mpr ⟨_, _, hr⟩⟩
  · intro selected selected' r r' hselected hselected' hsub hr hr'
    obtain ⟨s, s', _, _, _, _, hs, hs', hparts⟩ := hpresented.presents hselected hselected' hsub
      (hclosed hselected hr) (hclosed hselected' hr')
    have heq := Except.ok.inj (hr.symm.trans (restorePlain_ok.mpr ⟨_, _, hs⟩))
    have heq' := Except.ok.inj (hr'.symm.trans (restorePlain_ok.mpr ⟨_, _, hs'⟩))
    rw [heq, heq']
    exact hparts
  · exact restorePlain_ok.mpr ⟨_, _, hpresented.verifier⟩

end Holder

set_option maxRecDepth 20000 in
/-- What a holder accepted with the two claims is a map with the inner one as a part. -/
theorem presentsWhatWasAccepted_nested :
    (¬ ∃ r, restoreWithProtectedClaims .reference .verifier
      (.map [(redactedClaimKeysLabel, .array [.bytes outerClaim.encoded])]) none [innerClaim]
      plainHasher {} false = .ok r) ∧
    PartOf (.map [((Label.int 100).toValue, .map [])])
      (.map [((Label.int 100).toValue, .map [((Label.int 101).toValue, .null)])]) := by
  have haccepted : restoreWithProtectedClaims .reference .holder
      (.map [(redactedClaimKeysLabel, .array [.bytes outerClaim.encoded])]) none
      [innerClaim, outerClaim] plainHasher {} false =
        .ok ⟨.map [((Label.int 100).toValue, .map [((Label.int 101).toValue, .null)])],
          none, 2, 0, 0⟩ := rfl
  obtain ⟨hclosed, hparts, -⟩ := presentsWhatWasAccepted haccepted
  constructor
  · intro hpresented
    have hinner : List.Subperm [innerClaim] [innerClaim, outerClaim] :=
      List.Sublist.subperm (.cons_cons innerClaim (List.nil_sublist [outerClaim]))
    have hmem := (hclosed _ hinner).mp hpresented innerClaim List.mem_cons_self outerClaim
      (List.mem_cons_of_mem _ List.mem_cons_self) (by decide)
    have hsalt := congrArg Disclosure.salt (List.mem_singleton.mp hmem)
    exact absurd hsalt (by decide)
  · exact (hparts [outerClaim] [innerClaim, outerClaim]
      ⟨.map [((Label.int 100).toValue, .map [])], none, 1, 0, 1⟩
      ⟨.map [((Label.int 100).toValue, .map [((Label.int 101).toValue, .null)])], none, 2, 0, 0⟩
      (List.Sublist.subperm (.cons innerClaim (.refl [outerClaim]))) (.refl _)
      (List.subset_cons_self innerClaim [outerClaim]) rfl rfl).1

end Cose2.SdCwt
