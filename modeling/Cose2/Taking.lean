import Cose2.BTreeMap

/-! # Taking entries out of a map

A history of requests to a map, each with what it found.  An entry that has been
found is taken out, so that a later request for its key finds nothing.
-/
namespace BTreeMap

variable {ι α β : Type} [LinearOrder α] (key : ι → α)

/-- The map without some keys. -/
def removeAll (m : BTreeMap α β) (ks : List α) : BTreeMap α β :=
  ⟨m.entries.filter fun e => e.1 ∉ ks, m.sorted.filter _⟩

@[simp] theorem removeAll_nil (m : BTreeMap α β) : m.removeAll [] = m := by
  apply ext
  simp [removeAll]

theorem removeAll_cons (m : BTreeMap α β) (k : α) (ks : List α) :
    m.removeAll (k :: ks) = (m.remove k).removeAll ks := by
  apply ext
  simp only [removeAll, remove, List.filter_filter, List.mem_cons, not_or, Bool.decide_and,
    ne_eq, decide_not, Bool.and_comm]

theorem removeAll_append (m : BTreeMap α β) (ks ks' : List α) :
    m.removeAll (ks ++ ks') = (m.removeAll ks).removeAll ks' := by
  induction ks generalizing m with
  | nil => rw [List.nil_append, removeAll_nil]
  | cons k ks ih => rw [List.cons_append, removeAll_cons, ih, removeAll_cons]

theorem removeAll_perm (m : BTreeMap α β) {ks ks' : List α} (h : ks.Perm ks') :
    m.removeAll ks = m.removeAll ks' := by
  apply ext
  simp only [removeAll, h.mem_iff]

theorem get_removeAll (m : BTreeMap α β) (ks : List α) (k : α) :
    (m.removeAll ks).get k = if k ∈ ks then none else m.get k := by
  induction ks generalizing m with
  | nil => simp
  | cons k' ks ih =>
    rw [removeAll_cons, ih, get_remove]
    by_cases hk : k = k'
    · simp [hk]
    · simp [hk]

/-- Requests that find, one after the other, what the history says. -/
def Finds : BTreeMap α β → List (ι × Option β) → Prop
  | _, [] => True
  | m, e :: es => m.get (key e.1) = e.2 ∧ Finds (m.remove (key e.1)) es

/-- The keys asked for. -/
def asked (es : List (ι × Option β)) : List α := es.map fun e => key e.1

/-- What has been found, with the request that found it. -/
def found (es : List (ι × Option β)) : List (ι × β) :=
  es.filterMap fun e => e.2.map fun v => (e.1, v)

/-- The requests that found nothing. -/
def missed (es : List (ι × Option β)) : List ι :=
  es.filterMap fun e => if e.2.isSome then none else some e.1

theorem found_missed_perm (es : List (ι × Option β)) :
    ((found es).map Prod.fst ++ missed es).Perm (es.map Prod.fst) := by
  induction es with
  | nil => exact .refl _
  | cons e es ih =>
    obtain ⟨i, v⟩ := e
    cases v with
    | none => exact List.perm_middle.trans (ih.cons i)
    | some v => exact ih.cons i

theorem map_snd_found (es : List (ι × Option β)) :
    (found es).map Prod.snd = es.filterMap Prod.snd := by
  induction es with
  | nil => rfl
  | cons e es ih =>
    obtain ⟨i, v⟩ := e
    cases v with
    | none => exact ih
    | some v => exact congrArg (v :: ·) ih

theorem length_missed (es : List (ι × Option β)) :
    (missed es).length = es.countP fun e => e.2.isNone := by
  induction es with
  | nil => rfl
  | cons e es ih =>
    obtain ⟨i, v⟩ := e
    cases v with
    | none =>
      rw [List.countP_cons_of_pos (by rfl), ← ih]
      rfl
    | some v =>
      rw [List.countP_cons_of_neg (by simp), ← ih]
      rfl

variable {key}

omit [LinearOrder α] in
@[simp] theorem asked_nil : asked key ([] : List (ι × Option β)) = [] := rfl

omit [LinearOrder α] in
@[simp] theorem asked_cons (e : ι × Option β) (es : List (ι × Option β)) :
    asked key (e :: es) = key e.1 :: asked key es := rfl

omit [LinearOrder α] in
theorem asked_append (es es' : List (ι × Option β)) :
    asked key (es ++ es') = asked key es ++ asked key es' := List.map_append

theorem finds_append {m : BTreeMap α β} {es es' : List (ι × Option β)} :
    Finds key m (es ++ es') ↔ Finds key m es ∧ Finds key (m.removeAll (asked key es)) es' := by
  induction es generalizing m with
  | nil => simp [Finds, asked]
  | cons e es ih =>
    rw [List.cons_append, Finds, Finds, ih, asked_cons, removeAll_cons, and_assoc]

/-- What is found and what stays are the entries of the map. -/
theorem Finds.perm {m : BTreeMap α β} {es : List (ι × Option β)} (h : Finds key m es) :
    ((found es).map (fun p => (key p.1, p.2)) ++ (m.removeAll (asked key es)).entries).Perm
      m.entries := by
  induction es generalizing m with
  | nil =>
    rw [asked_nil, removeAll_nil]
    exact .refl _
  | cons e es ih =>
    obtain ⟨i, v⟩ := e
    obtain ⟨hget, hrest⟩ := h
    have hrest := ih hrest
    rw [asked_cons, removeAll_cons]
    cases v with
    | none =>
      rw [remove_of_get hget] at hrest ⊢
      exact hrest
    | some v =>
      refine (hrest.cons (key i, v)).trans ?_
      have hmem : (key i, v) ∈ m.entries := get_eq_some.mp hget
      have hnodup : m.entries.Nodup :=
        m.sorted.imp fun hlt he => hlt.ne (congrArg Prod.fst he)
      refine (List.perm_ext_iff_of_nodup ?_ hnodup).mpr fun e => ?_
      · refine List.nodup_cons.mpr ⟨fun h => ?_, hnodup.filter _⟩
        exact (mem_remove.mp h).2 rfl
      · rw [List.mem_cons, mem_remove]
        constructor
        · intro h
          rcases h with rfl | h
          · exact hmem
          · exact h.1
        · intro h
          by_cases hk : e.1 = key i
          · left
            have hv : m.get (key i) = some e.2 := by
              rw [get_eq_some, ← hk]
              exact h
            rw [hget, Option.some.injEq] at hv
            rw [hv, ← hk]
          · exact .inr ⟨h, hk⟩

/-- When no entry is asked for twice, every request finds what was there at the start. -/
theorem finds_iff_of_once [BEq α] [LawfulBEq α] {m : BTreeMap α β} {es : List (ι × Option β)}
    (h : ∀ e ∈ m.entries, (asked key es).count e.1 ≤ 1) :
    Finds key m es ↔ ∀ e ∈ es, m.get (key e.1) = e.2 := by
  induction es generalizing m with
  | nil => simp [Finds]
  | cons e es ih =>
    have hlater : ∀ e' ∈ (m.remove (key e.1)).entries, (asked key es).count e'.1 ≤ 1 := by
      intro e' he'
      have hcount := h e' (mem_remove.mp he').1
      rw [asked_cons, List.count_cons] at hcount
      omega
    rw [Finds, ih hlater, List.forall_mem_cons]
    refine and_congr_right fun hget => forall₂_congr fun e' he' => ?_
    rw [get_remove]
    split_ifs with hk
    · -- a key asked for again was not there the first time
      have hnone : m.get (key e.1) = none := by
        rw [Option.eq_none_iff_forall_ne_some]
        intro v hv
        have hcount := h _ (get_eq_some.mp hv)
        have hagain : key e.1 ∈ asked key es := by
          rw [← hk]
          exact List.mem_map_of_mem he'
        have hpos := List.count_pos_iff.mpr hagain
        have htwice :
            (asked key (e :: es)).count (key e.1) = (asked key es).count (key e.1) + 1 := by
          rw [asked_cons, List.count_cons_self]
        rw [htwice] at hcount
        omega
      rw [hk, hnone]
    · rfl

/-- Where every request finds something, no key is asked for twice. -/
theorem Finds.nodup {m : BTreeMap α β} {es : List (ι × Option β)} (h : Finds key m es)
    (hsome : ∀ e ∈ es, e.2 ≠ none) : (asked key es).Nodup := by
  induction es generalizing m with
  | nil => exact List.nodup_nil
  | cons e es ih =>
    rw [List.forall_mem_cons] at hsome
    refine List.nodup_cons.mpr ⟨fun hmem => ?_, ih h.2 hsome.2⟩
    obtain ⟨e', he', hkey⟩ := List.mem_map.mp hmem
    obtain ⟨before, after, rfl⟩ := List.append_of_mem he'
    have hget := ((finds_append.mp h.2).2).1
    rw [get_removeAll, get_remove, if_pos hkey, ite_self] at hget
    exact hsome.2 e' he' hget.symm

/-- The order of requests does not matter where no entry is asked for twice. -/
theorem Finds.of_perm [BEq α] [LawfulBEq α] {m : BTreeMap α β} {es es' : List (ι × Option β)}
    (h : Finds key m es) (hperm : es.Perm es')
    (honce : ∀ e ∈ m.entries, (asked key es).count e.1 ≤ 1) :
    Finds key m es' := by
  have honce' : ∀ e ∈ m.entries, (asked key es').count e.1 ≤ 1 := by
    intro e he
    have hasked : (asked key es).Perm (asked key es') := hperm.map _
    rw [← hasked.count_eq]
    exact honce e he
  rw [finds_iff_of_once honce']
  intro e he
  exact (finds_iff_of_once honce).mp h e (hperm.mem_iff.mpr he)

/-- Taking an entry out takes its weight away. -/
theorem sum_remove_le {m : BTreeMap α β} {k : α} {v : β} (f : β → Nat) (h : m.get k = some v) :
    f v + ((m.remove k).entries.map fun e => f e.2).sum ≤ (m.entries.map fun e => f e.2).sum := by
  have hkept (es : List (α × β)) :
      ((es.filter fun e => e.1 ≠ k).map fun e => f e.2).sum ≤ (es.map fun e => f e.2).sum :=
    (List.filter_sublist.map _).sum_le_sum (by simp)
  have hle (es : List (α × β)) (hes : (k, v) ∈ es) :
      f v + ((es.filter fun e => e.1 ≠ k).map fun e => f e.2).sum ≤
        (es.map fun e => f e.2).sum := by
    induction es with
    | nil => cases hes
    | cons e es ih =>
      rw [List.map_cons, List.sum_cons]
      rcases List.mem_cons.mp hes with rfl | hes
      · rw [List.filter_cons_of_neg (by simp)]
        exact Nat.add_le_add_left (hkept es) _
      · have hrest := ih hes
        by_cases he : e.1 = k
        · rw [List.filter_cons_of_neg (by simpa using he)]
          omega
        · rw [List.filter_cons_of_pos (by simpa using he), List.map_cons, List.sum_cons]
          omega
  exact hle m.entries (get_eq_some.mp h)

end BTreeMap
