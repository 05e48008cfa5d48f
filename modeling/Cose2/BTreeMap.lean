import Mathlib.Tactic
import Mathlib.Order.Defs.LinearOrder

/-! # Ordered maps

A map as the list of its entries in increasing key order.  Keys are distinct by
construction, so equal contents means equal maps (`ext_get`).
-/

/-- An ordered map. -/
structure BTreeMap (α β : Type) [LinearOrder α] where
  entries : List (α × β)
  sorted : entries.Pairwise fun e e' => e.1 < e'.1

namespace BTreeMap

variable {α β : Type} [LinearOrder α]

@[ext] theorem ext {m m' : BTreeMap α β} (h : m.entries = m'.entries) : m = m' := by
  cases m
  cases m'
  cases h
  rfl

/-- The map without entries. -/
def empty : BTreeMap α β := ⟨[], .nil⟩

instance : EmptyCollection (BTreeMap α β) := ⟨empty⟩

instance : Inhabited (BTreeMap α β) := ⟨empty⟩

instance [DecidableEq β] : DecidableEq (BTreeMap α β) := fun m m' =>
  decidable_of_iff (m.entries = m'.entries) ⟨ext, congrArg entries⟩

/-- The number of entries. -/
def length (m : BTreeMap α β) : Nat := m.entries.length

/-- The value of a key. -/
def get (m : BTreeMap α β) (k : α) : Option β := (m.entries.find? fun e => e.1 = k).map Prod.snd

/-- Whether a key has a value. -/
def containsKey (m : BTreeMap α β) (k : α) : Bool := (m.get k).isSome

/-! ### Insertion -/

/-- Puts an entry at its place, over an entry with the same key. -/
def insertEntry (k : α) (v : β) : List (α × β) → List (α × β)
  | [] => [(k, v)]
  | e :: es =>
    if k < e.1 then (k, v) :: e :: es
    else if k = e.1 then (k, v) :: es
    else e :: insertEntry k v es

theorem mem_insertEntry {k : α} {v : β} {es : List (α × β)}
    (hs : es.Pairwise fun e e' => e.1 < e'.1) {e : α × β} :
    e ∈ insertEntry k v es ↔ e = (k, v) ∨ (e ∈ es ∧ e.1 ≠ k) := by
  induction es with
  | nil => simp [insertEntry]
  | cons a es ih =>
    rw [List.pairwise_cons] at hs
    rw [insertEntry]
    split_ifs with hlt heq
    · have hne (b : α × β) (hb : b ∈ a :: es) : b.1 ≠ k := by
        rcases List.mem_cons.mp hb with rfl | hb
        · exact hlt.ne'
        · exact (hlt.trans (hs.1 b hb)).ne'
      rw [List.mem_cons]
      exact or_congr_right ⟨fun h => ⟨h, hne e h⟩, fun h => h.1⟩
    · have hne (b : α × β) (hb : b ∈ es) : b.1 ≠ k := by
        rw [heq]
        exact (hs.1 b hb).ne'
      rw [List.mem_cons, List.mem_cons]
      refine or_congr_right ⟨fun h => ⟨.inr h, hne e h⟩, ?_⟩
      rintro ⟨rfl | h, hk⟩
      · exact absurd heq.symm hk
      · exact h
    · rw [List.mem_cons, ih hs.2, List.mem_cons]
      constructor
      · rintro (rfl | rfl | ⟨h, hk⟩)
        · exact .inr ⟨.inl rfl, fun h => heq h.symm⟩
        · exact .inl rfl
        · exact .inr ⟨.inr h, hk⟩
      · rintro (rfl | ⟨rfl | h, hk⟩)
        · exact .inr (.inl rfl)
        · exact .inl rfl
        · exact .inr (.inr ⟨h, hk⟩)

theorem sorted_insertEntry {k : α} {v : β} {es : List (α × β)}
    (hs : es.Pairwise fun e e' => e.1 < e'.1) :
    (insertEntry k v es).Pairwise fun e e' => e.1 < e'.1 := by
  induction es with
  | nil => simp [insertEntry]
  | cons a es ih =>
    have hs' := List.pairwise_cons.mp hs
    rw [insertEntry]
    split_ifs with hlt heq
    · refine List.pairwise_cons.mpr ⟨fun b hb => ?_, hs⟩
      rcases List.mem_cons.mp hb with rfl | hb
      · exact hlt
      · exact hlt.trans (hs'.1 b hb)
    · refine List.pairwise_cons.mpr ⟨fun b hb => ?_, hs'.2⟩
      rw [heq]
      exact hs'.1 b hb
    · refine List.pairwise_cons.mpr ⟨fun b hb => ?_, ih hs'.2⟩
      rcases (mem_insertEntry hs'.2).mp hb with rfl | ⟨hb, -⟩
      · exact lt_of_le_of_ne (not_lt.mp hlt) fun h => heq h.symm
      · exact hs'.1 b hb

/-- The map with the value of a key set. -/
def insert (m : BTreeMap α β) (k : α) (v : β) : BTreeMap α β :=
  ⟨insertEntry k v m.entries, sorted_insertEntry m.sorted⟩

/-- The map without a key. -/
def remove (m : BTreeMap α β) (k : α) : BTreeMap α β :=
  ⟨m.entries.filter fun e => e.1 ≠ k, m.sorted.filter _⟩

/-! ### Lookup -/

theorem get_eq_some {m : BTreeMap α β} {k : α} {v : β} :
    m.get k = some v ↔ (k, v) ∈ m.entries := by
  obtain ⟨es, hs⟩ := m
  simp only [get]
  induction es with
  | nil => simp
  | cons a es ih =>
    rw [List.pairwise_cons] at hs
    by_cases h : a.1 = k
    · rw [List.find?_cons_of_pos (by simpa using h), Option.map_some, Option.some.injEq,
        List.mem_cons]
      constructor
      · rintro rfl
        exact .inl (by rw [← h])
      · rintro (rfl | hmem)
        · rfl
        · exact absurd h (hs.1 _ hmem).ne
    · rw [List.find?_cons_of_neg (by simpa using h), ih hs.2, List.mem_cons]
      refine ⟨.inr, ?_⟩
      rintro (rfl | hmem)
      · exact absurd rfl h
      · exact hmem

theorem containsKey_iff {m : BTreeMap α β} {k : α} :
    m.containsKey k = true ↔ ∃ v, (k, v) ∈ m.entries := by
  simp only [containsKey, Option.isSome_iff_exists, get_eq_some]

theorem containsKey_of_mem {m : BTreeMap α β} {e : α × β} (h : e ∈ m.entries) :
    m.containsKey e.1 = true :=
  containsKey_iff.mpr ⟨e.2, h⟩

theorem mem_insert {m : BTreeMap α β} {k : α} {v : β} {e : α × β} :
    e ∈ (m.insert k v).entries ↔ e = (k, v) ∨ (e ∈ m.entries ∧ e.1 ≠ k) :=
  mem_insertEntry m.sorted

theorem mem_remove {m : BTreeMap α β} {k : α} {e : α × β} :
    e ∈ (m.remove k).entries ↔ e ∈ m.entries ∧ e.1 ≠ k := by
  simp [remove]

theorem get_insert (m : BTreeMap α β) (k : α) (v : β) (k' : α) :
    (m.insert k v).get k' = if k' = k then some v else m.get k' := by
  apply Option.ext
  intro w
  rw [get_eq_some, mem_insert]
  split_ifs with h
  · subst h
    simp [eq_comm]
  · simp [h, get_eq_some]

theorem get_remove (m : BTreeMap α β) (k k' : α) :
    (m.remove k).get k' = if k' = k then none else m.get k' := by
  apply Option.ext
  intro w
  rw [get_eq_some, mem_remove]
  split_ifs with h
  · simp [h]
  · simp [h, get_eq_some]

@[simp] theorem get_empty (k : α) : (∅ : BTreeMap α β).get k = none := rfl

/-- Maps with the same values are equal. -/
theorem ext_get {m m' : BTreeMap α β} (h : ∀ k, m.get k = m'.get k) : m = m' := by
  have hmem (e : α × β) : e ∈ m.entries ↔ e ∈ m'.entries := by
    rw [← get_eq_some, ← get_eq_some, h]
  have hnodup (m : BTreeMap α β) : m.entries.Nodup :=
    m.sorted.imp fun hlt he => hlt.ne (congrArg Prod.fst he)
  have hperm := (List.perm_ext_iff_of_nodup (hnodup m) (hnodup m')).mpr hmem
  exact ext (hperm.eq_of_pairwise (fun _ _ _ _ h h' => absurd h h'.asymm) m.sorted m'.sorted)

/-- A key that is not there is not missed. -/
theorem remove_of_get {m : BTreeMap α β} {k : α} (h : m.get k = none) : m.remove k = m := by
  apply ext_get
  intro k'
  rw [get_remove]
  split_ifs with hk
  · rw [hk, h]
  · rfl

/-- A new key makes the map one entry longer. -/
theorem length_insert_new {m : BTreeMap α β} {k : α} {v : β} (h : m.containsKey k = false) :
    (m.insert k v).length = m.length + 1 := by
  have hne : ∀ e ∈ m.entries, e.1 ≠ k := by
    rintro e he rfl
    rw [containsKey_of_mem he] at h
    cases h
  have hlen (es : List (α × β)) (hes : ∀ e ∈ es, e.1 ≠ k) :
      (insertEntry k v es).length = es.length + 1 := by
    induction es with
    | nil => rfl
    | cons a es ih =>
      rw [List.forall_mem_cons] at hes
      rw [insertEntry]
      split_ifs with hlt heq
      · rfl
      · exact absurd heq.symm hes.1
      · rw [List.length_cons, ih hes.2, List.length_cons]
  exact hlen m.entries hne

/-! ### Building a map from a list -/

/-- Inserts entries one after the other. -/
def insertAll (m : BTreeMap α β) (es : List (α × β)) : BTreeMap α β :=
  es.foldl (fun m e => m.insert e.1 e.2) m

/-- The map of a list of entries; the last one of equal keys counts. -/
def ofList (es : List (α × β)) : BTreeMap α β := insertAll ∅ es

theorem containsKey_insert {m : BTreeMap α β} {k k' : α} {v : β} :
    (m.insert k v).containsKey k' = true ↔ k' = k ∨ m.containsKey k' = true := by
  rw [containsKey, get_insert]
  split_ifs with h
  · simp [h]
  · simp [h, containsKey]

/-- Nothing else is in the map. -/
theorem mem_of_mem_insertAll {m : BTreeMap α β} {es : List (α × β)} {e : α × β}
    (h : e ∈ (m.insertAll es).entries) : e ∈ m.entries ∨ e ∈ es := by
  induction es generalizing m with
  | nil => exact .inl h
  | cons e' es ih =>
    obtain hm | hes := ih (m := m.insert e'.1 e'.2) h
    · obtain rfl | ⟨hm, -⟩ := mem_insert.mp hm
      · exact .inr List.mem_cons_self
      · exact .inl hm
    · exact .inr (List.mem_cons_of_mem _ hes)

/-- Distinct new keys are all kept. -/
theorem length_insertAll {m : BTreeMap α β} {es : List (α × β)}
    (hnew : ∀ e ∈ es, m.containsKey e.1 = false)
    (hdistinct : es.Pairwise fun e e' => e.1 ≠ e'.1) :
    (m.insertAll es).length = m.length + es.length := by
  induction es generalizing m with
  | nil => rfl
  | cons e es ih =>
    rw [List.forall_mem_cons] at hnew
    rw [List.pairwise_cons] at hdistinct
    have hnew' : ∀ e' ∈ es, (m.insert e.1 e.2).containsKey e'.1 = false := by
      intro e' he'
      rw [Bool.eq_false_iff, ne_eq, containsKey_insert, not_or]
      exact ⟨(hdistinct.1 e' he').symm, by simp [hnew.2 e' he']⟩
    have := ih hnew' hdistinct.2
    rw [insertAll, List.foldl_cons] at *
    rw [this, length_insert_new hnew.1, List.length_cons]
    omega

/-- Entries with distinct keys are all found. -/
theorem get_insertAll {m : BTreeMap α β} {es : List (α × β)} (hnodup : (es.map Prod.fst).Nodup)
    {k : α} {v : β} :
    (m.insertAll es).get k = some v ↔ (k, v) ∈ es ∨ (k ∉ es.map Prod.fst ∧ m.get k = some v) := by
  induction es generalizing m with
  | nil => simp [insertAll]
  | cons e es ih =>
    obtain ⟨k', w⟩ := e
    rw [List.map_cons, List.nodup_cons] at hnodup
    show ((m.insert k' w).insertAll es).get k = some v ↔ _
    rw [ih hnodup.2, get_insert, List.mem_cons, List.map_cons, List.mem_cons]
    by_cases hk : k = k'
    · subst hk
      have hnot : (k, v) ∉ es := fun hm => hnodup.1 (List.mem_map.mpr ⟨_, hm, rfl⟩)
      simp [hnot, hnodup.1, eq_comm]
    · simp [hk]

/-- The entries of a list with distinct keys are those of its map. -/
theorem ofList_entries_perm {es : List (α × β)} (hnodup : (es.map Prod.fst).Nodup) :
    (ofList es).entries.Perm es := by
  have hsorted : (ofList es).entries.Nodup :=
    (ofList es).sorted.imp fun hlt he => hlt.ne (congrArg Prod.fst he)
  refine (List.perm_ext_iff_of_nodup hsorted hnodup.of_map).mpr fun e => ?_
  rw [← get_eq_some, ofList, get_insertAll hnodup, get_empty]
  simp

/-- The order in which entries are inserted does not matter when keys are distinct. -/
theorem ofList_of_perm {m : BTreeMap α β} {es : List (α × β)} (h : es.Perm m.entries) :
    ofList es = m := by
  have hnodup : (es.map Prod.fst).Nodup := by
    rw [(h.map Prod.fst).nodup_iff, List.nodup_iff_pairwise_ne, List.pairwise_map]
    exact m.sorted.imp fun hlt => hlt.ne
  have hperm := (ofList_entries_perm hnodup).trans h
  exact ext (hperm.eq_of_pairwise (fun _ _ _ _ h h' => absurd h h'.asymm)
    (ofList es).sorted m.sorted)

end BTreeMap
