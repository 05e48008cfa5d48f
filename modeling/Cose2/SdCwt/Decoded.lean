import Cose2.SdCwt.Presentation
import Cose2.SdCwt.Coherence

/-! # Restoring what was decoded

An issued value and its disclosures are decoded as they are read: entries are sorted, bignums
that fit an integer have become one, and null stands for undefined.  What restoration makes of
them is what is read of what it made of the originals, up to the order of entries, and it
visits no more items.
-/
namespace Cose2.SdCwt

open Cbor

/-- A marker that has met the disclosure that was decoded. -/
def decodedMeeting (m : Meeting) : Meeting := (m.1, m.2.map Disclosure.asRead)

/-- An entry as it is read. -/
def readEntry (e : Value × Value) : Value × Value := (e.1.asRead, e.2.asRead)

theorem isDecoy_asRead (d : Disclosure) : d.asRead.kind.isDecoy = d.kind.isDecoy := by
  obtain ⟨kind, encoded, valid⟩ := d
  cases kind with
  | claim | element | decoy => rfl

theorem usedUp_decoded (ms : List Meeting) :
    usedUp (ms.map decodedMeeting) = (usedUp ms).map Disclosure.asRead := by
  rw [usedUp, usedUp, List.filterMap_map, List.map_filterMap]
  rfl

/-! ### Keys and elements -/

theorem asRead_redactedKey {key : Value} (h : isRedactedClaimKeysLabel key = true) :
    key.asRead = key := by
  obtain rfl := isRedactedClaimKeysLabel_iff.mp h
  rfl

theorem asRead_labelKey {key : Value} {label : Label} (h : labelFromValue key = .ok label) :
    key.asRead = key := by
  rw [labelFromValue_ok h]
  exact label.plain_toValue.asRead

theorem isRedactedElement_scalar {v : Value} (h : IsScalar v) : isRedactedElement v = false := by
  cases v with
  | map | array | tag => exact h.elim
  | integer | bytes | text | float | bool | null | simple => rfl

theorem isRedactedElement_asRead (v : Value) :
    isRedactedElement v.asRead = isRedactedElement v := by
  cases v with
  | simple s =>
    rw [isRedactedElement_scalar (asRead_scalar (v := .simple s) trivial).1]
    rfl
  | tag t v =>
    rw [Value.asRead_tag]
    rcases Value.reduceTag_cases t v.asRead with heq | ⟨ht, b, -, ⟨i, heq⟩ | heq⟩
    · rw [heq]
      rfl
    · rw [heq]
      rcases ht with rfl | rfl <;> rfl
    · rw [heq]
      rfl
  | integer | bytes | text | float | bool | null | array | map => rfl

/-! ### Derivations -/

/-- Whatever comes of a value, what is read of it comes of what is read of the value. -/
def ReadRestores (R : Value → Value → List Meeting → Nat → Prop) : Prop :=
  ∀ v v' ms n, R v v' ms n → ∃ w' ms' n', R v.asRead w' ms' n' ∧ SameData v'.asRead w' ∧
    (ms.map decodedMeeting).Perm ms' ∧ n' ≤ n

section Derivation

variable {limits : ProcessingLimits} {validate : Bool}
  {next : Value → Value → List Meeting → Nat → Prop} {depth : Nat}

section Loops

variable (hnext : ReadRestores next)
include hnext

theorem EntriesRestore.asRead {es out : List (Value × Value)} {labels : List Label}
    {lists : List (List Bytes)} {ms : List Meeting} {n : Nat}
    (h : EntriesRestore limits next depth es out labels lists ms n) :
    ∃ out' ms' n', EntriesRestore limits next depth (es.map readEntry) out' labels lists ms' n' ∧
      List.Forall₂ SameEntry (out.map readEntry) out' ∧ (ms.map decodedMeeting).Perm ms' ∧
      n' ≤ n := by
  induction h with
  | nil => exact ⟨[], [], 0, .nil, .nil, .refl _, Nat.le_refl _⟩
  | @hashes key hs es out labels lists ms n hkey hdepth hlength hdeep _ ih =>
    obtain ⟨out', ms', n', h, hout, hms, hn⟩ := ih
    refine ⟨out', ms', _, ?_, hout, hms, Nat.add_le_add_left (Nat.add_le_add_left hn _) _⟩
    rw [List.map_cons, readEntry, asRead_redactedKey hkey, asRead_hashes]
    exact .hashes hkey hdepth hlength hdeep h
  | @claim key value value' label es out labels lists ms ms' n n' hkey hlabel hdepth hvalue _ ih =>
    obtain ⟨w, ms₁, n₁, hw, hsame, hms₁, hn₁⟩ := hnext _ _ _ _ hvalue
    obtain ⟨out', ms₂, n₂, h, hout, hms₂, hn₂⟩ := ih
    have hentry : SameEntry (readEntry (key, value')) (key, w) := by
      rw [readEntry, asRead_labelKey hlabel]
      exact ⟨.refl key, hsame⟩
    refine ⟨(key, w) :: out', ms₁ ++ ms₂, 1 + (n₁ + n₂), ?_, .cons hentry hout, ?_,
      Nat.add_le_add_left (Nat.add_le_add hn₁ hn₂) 1⟩
    · rw [List.map_cons, readEntry, asRead_labelKey hlabel]
      exact .claim hkey hlabel hdepth hw h
    · rw [List.map_append]
      exact hms₁.append hms₂

theorem HashesRestore.asRead {hs undisclosed : List Bytes} {out : List (Value × Value)}
    {labels : List Label} {ms : List Meeting} {n : Nat}
    (h : HashesRestore validate next depth hs out labels undisclosed ms n) :
    ∃ out' ms' n', HashesRestore validate next depth hs out' labels undisclosed ms' n' ∧
      List.Forall₂ SameEntry (out.map readEntry) out' ∧ (ms.map decodedMeeting).Perm ms' ∧
      n' ≤ n := by
  induction h with
  | nil => exact ⟨[], [], 0, .nil, .nil, .refl _, Nat.le_refl _⟩
  | @claim hash salt d key value value' hs undisclosed out labels ms ms' n n' hkind hcheck hvalue _
      ih =>
    obtain ⟨w, ms₁, n₁, hw, hsame, hms₁, hn₁⟩ := hnext _ _ _ _ hvalue
    obtain ⟨out', ms₂, n₂, h, hout, hms₂, hn₂⟩ := ih
    have hkind' : d.asRead.kind = .claim salt key value.asRead :=
      congrArg DisclosureKind.asRead hkind
    have hentry : SameEntry (readEntry (key.toValue, value')) (key.toValue, w) := by
      rw [readEntry, (Label.plain_toValue _).asRead]
      exact ⟨.refl _, hsame⟩
    refine ⟨_, _, _, .claim hkind' hcheck hw h, .cons hentry hout, ?_, Nat.add_le_add hn₁ hn₂⟩
    rw [List.map_cons, List.map_append]
    exact (hms₁.append hms₂).cons _
  | @decoy hash salt d hs undisclosed out labels ms n hkind _ ih =>
    obtain ⟨out', ms', n', h, hout, hms, hn⟩ := ih
    have hkind' : d.asRead.kind = .decoy salt := congrArg DisclosureKind.asRead hkind
    exact ⟨out', _, n', .decoy hkind' h, hout, hms.cons _, hn⟩
  | undisclosed _ ih =>
    obtain ⟨out', ms', n', h, hout, hms, hn⟩ := ih
    exact ⟨out', _, n', .undisclosed h, hout, hms.cons _, hn⟩

theorem ItemRestores.asRead {item : Value} {out : List Value} {ms : List Meeting} {n : Nat}
    (h : ItemRestores limits validate next depth item out ms n) :
    ∃ out' ms' n', ItemRestores limits validate next depth item.asRead out' ms' n' ∧
      List.Forall₂ SameData (out.map Value.asRead) out' ∧ (ms.map decodedMeeting).Perm ms' ∧
      n' ≤ n := by
  cases h with
  | keep hitem hvalue =>
    obtain ⟨w, ms', n', hw, hsame, hms, hn⟩ := hnext _ _ _ _ hvalue
    rw [← isRedactedElement_asRead] at hitem
    exact ⟨[w], ms', n', .keep hitem hw, .cons hsame .nil, hms, hn⟩
  | @disclosed hash salt d value value' ms n hdepth hkind hvalue =>
    obtain ⟨w, ms', n', hw, hsame, hms, hn⟩ := hnext _ _ _ _ hvalue
    have hkind' : d.asRead.kind = .element salt value.asRead := congrArg DisclosureKind.asRead hkind
    exact ⟨[w], _, _, .disclosed hdepth hkind' hw, .cons hsame .nil, hms.cons _,
      Nat.add_le_add_left hn _⟩
  | @decoy hash salt d hdepth hkind =>
    have hkind' : d.asRead.kind = .decoy salt := congrArg DisclosureKind.asRead hkind
    exact ⟨[], _, _, .decoy hdepth hkind', .nil, .refl _, Nat.le_refl _⟩
  | @undisclosed hash hdepth =>
    refine ⟨_, _, _, .undisclosed hdepth, ?_, .refl _, Nat.le_refl _⟩
    cases validate with
    | false => exact .nil
    | true => exact .cons (.refl _) .nil

theorem ItemsRestore.asRead {vs out : List Value} {ms : List Meeting} {n : Nat}
    (h : ItemsRestore limits validate next depth vs out ms n) :
    ∃ out' ms' n', ItemsRestore limits validate next depth (vs.map Value.asRead) out' ms' n' ∧
      List.Forall₂ SameData (out.map Value.asRead) out' ∧ (ms.map decodedMeeting).Perm ms' ∧
      n' ≤ n := by
  induction h with
  | nil => exact ⟨[], [], 0, .nil, .nil, .refl _, Nat.le_refl _⟩
  | cons hitem _ ih =>
    obtain ⟨out₁, ms₁, n₁, h₁, hout₁, hms₁, hn₁⟩ := hitem.asRead hnext
    obtain ⟨out₂, ms₂, n₂, h₂, hout₂, hms₂, hn₂⟩ := ih
    refine ⟨_, _, _, .cons h₁ h₂, ?_, ?_, Nat.add_le_add hn₁ hn₂⟩
    · rw [List.map_append]
      exact List.rel_append hout₁ hout₂
    · rw [List.map_append]
      exact hms₁.append hms₂

end Loops

/-- Nothing comes of a byte string but itself. -/
theorem restores_bytes {levels : Nat} {v : Value} {b : Bytes} {ms : List Meeting} {n : Nat}
    (h : Restores limits validate levels depth v (.bytes b) ms n) :
    v = .bytes b ∧ ms = [] ∧ n = 1 ∧
      ∀ b', Restores limits validate levels depth (.bytes b') (.bytes b') [] 1 := by
  cases levels with
  | zero => exact h.elim
  | succ levels =>
    cases h with
    | scalar => exact ⟨rfl, rfl, rfl, fun b' => .scalar trivial rfl⟩

/-- The entries that stay hidden are read as they are. -/
theorem undisclosedEntry_asRead (undisclosed : List Bytes) :
    (undisclosedEntry undisclosed).map readEntry = undisclosedEntry undisclosed := by
  cases undisclosed with
  | nil => rfl
  | cons hash undisclosed =>
    show [(_, (Value.array ((hash :: undisclosed).map .bytes)).asRead)] = _
    rw [asRead_hashes]
    rfl

/-- There is one order for a single element. -/
theorem perm_eq_of_length_le_one {α : Type} {as bs : List α} (h : as.length ≤ 1)
    (hperm : as.Perm bs) : bs = as := by
  match as, h with
  | [], _ => exact hperm.symm.eq_nil
  | [a], _ => exact List.perm_singleton.mp hperm.symm

/-- A tag around something else than a byte string stays. -/
theorem asRead_tag {t : UInt64} {v : Value} (h : ∀ b, v ≠ .bytes b) :
    (Value.tag t v).asRead = .tag t v.asRead := by
  rw [Value.asRead_tag]
  rcases Value.reduceTag_cases t v.asRead with heq | ⟨-, b, hb, -⟩
  · exact heq
  · exact absurd (Value.eq_bytes_of_asRead hb) (h b)

theorem Restores.asRead_tag {levels : Nat} {t : UInt64} {v v' : Value} {ms : List Meeting} {n : Nat}
    (ht : ¬ IsReservedTag t)
    (hnext : ReadRestores (Restores limits validate levels (depth + 1)))
    (h : Restores limits validate levels (depth + 1) v v' ms n) :
    ∃ w' ms' n', Restores limits validate (levels + 1) depth (Value.tag t v).asRead w' ms' n' ∧
      SameData (Value.tag t v').asRead w' ∧ (ms.map decodedMeeting).Perm ms' ∧ n' ≤ 1 + n := by
  by_cases hbytes : ∃ b, v' = .bytes b
  · -- a bignum may become an integer
    obtain ⟨b, rfl⟩ := hbytes
    obtain ⟨rfl, rfl, rfl, hany⟩ := restores_bytes h
    refine ⟨(Value.tag t (.bytes b)).asRead, [], ?_⟩
    rw [Value.asRead_tag]
    have hb : (Value.bytes b).asRead = .bytes b := rfl
    rw [hb]
    rcases Value.reduceTag_cases t (.bytes b) with heq | ⟨-, _, -, ⟨i, heq⟩ | heq⟩
    · rw [heq]
      exact ⟨_, .tag ht (hany b), .refl _, .refl _, Nat.le_refl _⟩
    · rw [heq]
      exact ⟨1, .scalar trivial rfl, .refl _, .refl _, Nat.le_succ 1⟩
    · rw [heq]
      exact ⟨_, .tag ht (hany _), .refl _, .refl _, Nat.le_refl _⟩
  · have hv' (b : Bytes) : v' ≠ .bytes b := fun heq => hbytes ⟨b, heq⟩
    have hv (b : Bytes) : v ≠ .bytes b := by
      rintro rfl
      cases levels with
      | zero => exact h.elim
      | succ levels =>
        cases h with
        | scalar => exact hv' b rfl
    obtain ⟨w', ms', n', hw, hsame, hms, hn⟩ := hnext _ _ _ _ h
    rw [SdCwt.asRead_tag hv, SdCwt.asRead_tag hv']
    exact ⟨.tag t w', ms', 1 + n', .tag ht hw, .tag hsame, hms, Nat.add_le_add_left hn 1⟩

/-- **What comes of a value comes of what is read of it**, with the disclosures that were
decoded. -/
theorem Restores.asRead {levels : Nat} : ReadRestores (Restores limits validate levels depth) := by
  induction levels generalizing depth with
  | zero => exact fun _ _ _ _ h => h.elim
  | succ levels ih =>
    intro v v' ms n h
    cases h with
    | scalar hscalar hlabel =>
      refine ⟨v.asRead, [], 1, .scalar (asRead_scalar hscalar).1 ?_, .refl _, .refl _,
        Nat.le_refl _⟩
      rwa [(asRead_scalar hscalar).2]
    | @array vs out ms n hlength hitems =>
      obtain ⟨out', ms', n', h, hout, hms, hn⟩ := hitems.asRead ih
      refine ⟨.array out', ms', 1 + n', ?_, ?_, hms, Nat.add_le_add_left hn _⟩
      · rw [Value.asRead_array]
        exact .array (by rwa [List.length_map]) h
      · rw [Value.asRead_array]
        exact sameData_array.mpr ⟨out', rfl, hout⟩
    | tag ht hvalue => exact hvalue.asRead_tag ht ih
    | @map es out disclosed labels labels' lists undisclosed ms ms' n n' hlength hentries hlists
        hhashes hnodup =>
      obtain ⟨out₁, ms₁, n₁, h₁, hout₁, hms₁, hn₁⟩ := hentries.asRead ih
      obtain ⟨disclosed', ms₂, n₂, h₂, hdisclosed, hms₂, hn₂⟩ := hhashes.asRead ih
      -- the entries are sorted
      have hsorted := (Value.asReadEntries_perm es).symm
      obtain ⟨out₃, labels₃, lists₃, ms₃, h₃, hout₃, hlabels₃, hlists₃, hms₃⟩ := h₁.of_perm hsorted
      have hlists' := perm_eq_of_length_le_one hlists hlists₃
      subst hlists'
      refine ⟨.map (out₃ ++ disclosed' ++ undisclosedEntry undisclosed), ms₃ ++ ms₂,
        1 + (n₁ + n₂), ?_, ?_, ?_, Nat.add_le_add_left (Nat.add_le_add hn₁ hn₂) 1⟩
      · rw [Value.asRead_map]
        refine .map ?_ h₃ hlists h₂ ((hlabels₃.append_right _).nodup_iff.mp hnodup)
        rwa [(Value.asReadEntries_perm _).length_eq, List.length_map]
      · rw [Value.asRead_map]
        have hundisclosed : List.Forall₂ SameEntry
            ((undisclosedEntry undisclosed).map readEntry) (undisclosedEntry undisclosed) := by
          rw [undisclosedEntry_asRead]
          exact List.forall₂_same.mpr fun e _ => ⟨.refl _, .refl _⟩
        have hall : List.Forall₂ SameEntry
            ((out ++ disclosed ++ undisclosedEntry undisclosed).map readEntry)
            (out₁ ++ disclosed' ++ undisclosedEntry undisclosed) := by
          rw [List.map_append, List.map_append]
          exact List.rel_append (List.rel_append hout₁ hdisclosed) hundisclosed
        obtain ⟨fs, hfs, hperm⟩ := List.perm_comp_forall₂ (Value.asReadEntries_perm _) hall
        exact sameData_map.mpr ⟨fs, _, rfl, hfs,
          hperm.trans ((hout₃.append_right _).append_right _)⟩
      · rw [List.map_append]
        exact (hms₁.trans hms₃).append hms₂

end Derivation

/-! ### Loading -/

section Loading

variable {hasher : RedactionHasher} {ds : List Disclosure}

/-- A disclosure is told apart by its encoding, which stays. -/
theorem redactedHash_asRead (d : Disclosure) :
    d.asRead.redactedHash hasher = d.redactedHash hasher := rfl

theorem digests_asRead : ((ds.map Disclosure.asRead).map fun d => d.redactedHash hasher) =
    ds.map fun d => d.redactedHash hasher := by
  rw [List.map_map]
  rfl

theorem get_decoded (h : (ds.map fun d => d.redactedHash hasher).Nodup) (hash : Bytes) :
    (BTreeMap.ofList (digested hasher (ds.map Disclosure.asRead))).get hash =
      ((BTreeMap.ofList (digested hasher ds)).get hash).map Disclosure.asRead := by
  have h' : ((ds.map Disclosure.asRead).map fun d => d.redactedHash hasher).Nodup := by
    rwa [digests_asRead]
  refine Option.ext fun d => ?_
  rw [get_digested h', List.mem_map, Option.map_eq_some_iff]
  constructor
  · rintro ⟨⟨d, hd, rfl⟩, hdigest⟩
    exact ⟨d, (get_digested h).mpr ⟨hd, hdigest⟩, rfl⟩
  · rintro ⟨d, hget, rfl⟩
    obtain ⟨hd, hdigest⟩ := (get_digested h).mp hget
    exact ⟨⟨d, hd, rfl⟩, hdigest⟩

theorem encodedBytes_asRead : encodedBytes (ds.map Disclosure.asRead) = encodedBytes ds := by
  rw [encodedBytes, List.map_map]
  rfl

/-- What was decoded is loaded where the originals are. -/
theorem Loads.asRead {limits : ProcessingLimits}
    (h : Loads hasher 0 0 [] ∅ { limits } ds) :
    Loads hasher 0 0 [] ∅ { limits } (ds.map Disclosure.asRead) where
  count := by
    rw [List.length_map]
    exact h.count
  size := by
    rw [encodedBytes_asRead]
    exact h.size
  bytes := by
    rw [encodedBytes_asRead]
    exact h.bytes
  items := h.items.mono (disclosedItems_asRead_le ds)
  digests := by
    rw [digests_asRead]
    exact h.digests
  newDigests := fun _ _ => rfl
  distinctSalts := by
    have hsalts : (ds.map Disclosure.asRead).map Disclosure.salt = ds.map Disclosure.salt := by
      rw [List.map_map]
      exact List.map_congr_left fun d _ => d.asRead_salt
    rw [hsalts]
    exact h.distinctSalts
  newSalts := fun _ _ => List.not_mem_nil

end Loading

/-! ### Presentations -/

/-- A report about what was read. -/
structure DecodedReport (r r' : RestoreReport) : Prop where
  value : SameData r.value.asRead r'.value
  disclosed : r'.disclosed = r.disclosed
  decoys : r'.decoys = r.decoys
  removedRedactions : r'.removedRedactions = r.removedRedactions

section Presentation

variable {c : SdCbor2} {mode : RestoreMode} {limits : ProcessingLimits} {value : Value}
  {hasher : RedactionHasher} {ds : List Disclosure} {r : RestoreReport} {ms : List Meeting}
  {n : Nat}

theorem countP_decoded {p : Disclosure → Bool} (hp : ∀ d, p d.asRead = p d) {ms' : List Meeting}
    (hperm : (ms.map decodedMeeting).Perm ms') :
    (usedUp ms').countP p = (usedUp ms).countP p := by
  have hused : (usedUp ms').Perm ((usedUp ms).map Disclosure.asRead) := by
    rw [← usedUp_decoded]
    exact hperm.symm.filterMap _
  rw [hused.countP_eq, List.countP_map]
  exact List.countP_congr fun d _ => by simp [hp]

/-- A presentation of what was decoded. -/
theorem Presented.asRead (h : Presented mode limits false value none hasher ds r ms n)
    (honce : OnceEach hasher ds value) :
    ∃ r' ms' n', Presented mode limits false value.asRead none hasher
      (ds.map Disclosure.asRead) r' ms' n' ∧ DecodedReport r r' := by
  obtain ⟨hprotected, hR⟩ := h.restores_value
  obtain ⟨w, ms', n', hR', hsame, hperm, hn⟩ := hR.asRead
  refine ⟨⟨w, none, r.disclosed, r.decoys, r.removedRedactions⟩, ms', n', ?_, hsame, rfl, rfl, rfl⟩
  have hasked : (BTreeMap.asked Marker.hash ms).Perm (BTreeMap.asked Marker.hash ms') := by
    have hmap := hperm.map fun m : Meeting => m.1.hash
    rwa [List.map_map] at hmap
  -- no disclosure is asked for twice, so what is found does not depend on the order
  have hcount {d : Disclosure} (hd : d ∈ ds) :
      (BTreeMap.asked Marker.hash ms).count (d.redactedHash hasher) ≤ 1 := by
    rw [(h.asked_perm hR (.refl _)).count_eq]
    exact honce d hd
  have hfinds := h.passes.finds
  rw [startRestoring, BTreeMap.finds_iff_of_once (fun e he => by
    obtain ⟨hd, hdigest⟩ := (get_digested h.loads.digests).mp (BTreeMap.get_eq_some.mpr he)
    exact hdigest ▸ hcount hd)] at hfinds
  have hdigests := h.loads.asRead.digests
  refine ⟨h.loads.asRead, ⟨[], ms', 0, n', rfl, (Nat.zero_add n').symm, .absent, hR'⟩,
    ⟨?_, ?_, ?_⟩, ?_, ?_⟩
  · rw [startRestoring, BTreeMap.finds_iff_of_once]
    · intro e he
      obtain ⟨e', he', rfl⟩ := List.mem_map.mp (hperm.mem_iff.mpr he)
      show (BTreeMap.ofList (digested hasher (ds.map Disclosure.asRead))).get e'.1.hash = _
      rw [get_decoded h.loads.digests, hfinds e' he']
      rfl
    · intro e he
      obtain ⟨hd, hdigest⟩ := (get_digested hdigests).mp (BTreeMap.get_eq_some.mpr he)
      obtain ⟨d, hmem, heq⟩ := List.mem_map.mp hd
      rw [← hdigest, ← heq, ← hasked.count_eq, redactedHash_asRead]
      exact hcount hmem
  · intro hmode m hm
    obtain ⟨m', hm', rfl⟩ := List.mem_map.mp (hperm.mem_iff.mpr hm)
    have hanswered := h.passes.answered hmode m' hm'
    rw [decodedMeeting, ne_eq, Option.map_eq_none_iff]
    exact hanswered
  · have haffords := h.passes.affords
    rw [TraversalBudget.Affords, startRestoring] at haffords ⊢
    have hitems := disclosedItems_asRead_le ds
    simp only at haffords ⊢
    omega
  · refine removeAll_digested hdigests fun d hd => ?_
    obtain ⟨d, hmem, rfl⟩ := List.mem_map.mp hd
    have hacc := h.accounts
    obtain ⟨⟨m, d'⟩, hused, heq⟩ := List.mem_map.mp (hacc.once.mem_iff.mpr hmem)
    obtain rfl : d' = d := heq
    obtain ⟨e, he, hfound⟩ := List.mem_filterMap.mp hused
    obtain ⟨_, -, hpair⟩ := Option.map_eq_some_iff.mp hfound
    obtain ⟨rfl, -⟩ := Prod.mk.inj hpair
    rw [redactedHash_asRead, ← hacc.digest _ hused, ← hasked.mem_iff]
    exact List.mem_map_of_mem he
  · have hstats := h.stats
    rw [RestoreStats.after] at hstats ⊢
    rw [countP_decoded (fun d => by rw [isDecoy_asRead]) hperm,
      countP_decoded (fun d => by rw [isDecoy_asRead]) hperm, ← hstats, ← hperm.countP_eq,
      List.countP_map]
    have hmissed : (fun m : Meeting => m.2.isNone) ∘ decodedMeeting = fun m => m.2.isNone :=
      funext fun m => Option.isNone_map ..
    rw [hmissed]

end Presentation

/-! ### Markers -/

section Selection

variable {c : SdCbor2} {limits limits' : ProcessingLimits} {hasher : RedactionHasher}
  {value : Value} {salts : SaltGenerator} {r : IssueResult} {ds selected : List Disclosure}

end Selection

/-! ### The same data, as it is read -/

theorem SameData.eq_of_scalar {v w : Value} (h : SameData v w) (hv : IsScalar v) : w = v :=
  (sameData_scalar hv).mp h

theorem forall₂_of_mem {α β : Type} {R S : α → β → Prop} {as : List α} {bs : List β}
    (h : List.Forall₂ R as bs) (himp : ∀ a ∈ as, ∀ b, R a b → S a b) : List.Forall₂ S as bs :=
  ((List.forall₂_and_left as bs).mpr ⟨fun _ ha => ha, h⟩).imp fun a b h => himp a h.1 b h.2

theorem forall₂_trans {α : Type} {R : α → α → Prop} {us vs ws : List α}
    (h : List.Forall₂ R us vs) (h' : List.Forall₂ R vs ws)
    (htrans : ∀ u ∈ us, ∀ v w, R u v → R v w → R u w) : List.Forall₂ R us ws := by
  induction h generalizing ws with
  | nil => exact h'
  | cons hr _ ih =>
    obtain ⟨w, ws, hw, hws, rfl⟩ := List.forall₂_cons_left_iff.mp h'
    exact .cons (htrans _ List.mem_cons_self _ _ hr hw)
      (ih hws fun u hu => htrans u (List.mem_cons_of_mem _ hu))

theorem SameData.trans {u v w : Value} (h : SameData u v) (h' : SameData v w) : SameData u w := by
  induction u generalizing v w with
  | integer | bytes | text | float | bool | null | simple =>
    obtain rfl := h.eq_of_scalar trivial
    exact h'
  | tag t u ih =>
    obtain ⟨v, rfl, hv⟩ := sameData_tag.mp h
    obtain ⟨w, rfl, hw⟩ := sameData_tag.mp h'
    exact .tag (ih hv hw)
  | array us ih =>
    obtain ⟨vs, rfl, hvs⟩ := sameData_array.mp h
    obtain ⟨ws, rfl, hws⟩ := sameData_array.mp h'
    exact sameData_array.mpr ⟨ws, rfl, forall₂_trans hvs hws fun u hu _ _ => ih u hu⟩
  | map es ih =>
    obtain ⟨fs, gs, rfl, hfs, hperm⟩ := sameData_map.mp h
    obtain ⟨fs', gs', rfl, hfs', hperm'⟩ := sameData_map.mp h'
    obtain ⟨hs, hhs, hperm''⟩ := List.perm_comp_forall₂ hperm hfs'
    refine sameData_map.mpr ⟨hs, gs', rfl, ?_, hperm''.trans hperm'⟩
    exact forall₂_trans hfs hhs fun e he _ _ h h' =>
      ⟨(ih e he).1 h.1 h'.1, (ih e he).2 h.2 h'.2⟩

theorem SameData.asRead {v w : Value} (h : SameData v w) : SameData v.asRead w.asRead := by
  induction v generalizing w with
  | integer | bytes | text | float | bool | null | simple =>
    obtain rfl := h.eq_of_scalar trivial
    exact .refl _
  | tag t v ih =>
    obtain ⟨w, rfl, hw⟩ := sameData_tag.mp h
    by_cases hbytes : ∃ b, v = .bytes b
    · obtain ⟨b, rfl⟩ := hbytes
      obtain rfl := hw.eq_of_scalar trivial
      exact .refl _
    · have hv (b : Bytes) : v ≠ .bytes b := fun heq => hbytes ⟨b, heq⟩
      have hw' (b : Bytes) : w ≠ .bytes b := by
        rintro rfl
        exact hv b (hw.symm.eq_of_scalar trivial)
      rw [asRead_tag hv, asRead_tag hw']
      exact .tag (ih hw)
  | array vs ih =>
    obtain ⟨ws, rfl, hws⟩ := sameData_array.mp h
    rw [Value.asRead_array, Value.asRead_array]
    refine sameData_array.mpr ⟨_, rfl, ?_⟩
    rw [List.forall₂_map_left_iff, List.forall₂_map_right_iff]
    exact forall₂_of_mem hws fun v hv _ => ih v hv
  | map es ih =>
    obtain ⟨fs, gs, rfl, hfs, hperm⟩ := sameData_map.mp h
    rw [Value.asRead_map, Value.asRead_map]
    have hmapped : List.Forall₂ SameEntry (es.map readEntry) (fs.map readEntry) := by
      rw [List.forall₂_map_left_iff, List.forall₂_map_right_iff]
      exact forall₂_of_mem hfs fun e he _ h => ⟨(ih e he).1 h.1, (ih e he).2 h.2⟩
    obtain ⟨hs, hhs, hperm'⟩ := List.perm_comp_forall₂ (Value.asReadEntries_perm _) hmapped
    refine sameData_map.mpr ⟨hs, _, rfl, hhs, hperm'.trans ?_⟩
    exact (hperm.map readEntry).trans (Value.asReadEntries_perm _).symm

/-! ### What was issued, decoded -/

section Issued

variable {c : SdCbor2} {limits limits' : ProcessingLimits} {hasher : RedactionHasher}
  {value : Value} {salts : SaltGenerator} {r : IssueResult} {selected : List Disclosure}

end Issued

end Cose2.SdCwt
