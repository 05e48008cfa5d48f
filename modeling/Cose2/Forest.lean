import Mathlib.Data.List.Forall2

/-! # Forests, layer by layer

A forest is a list of roots together with the list of children of each node.  The children
of one node are a **layer**, and so are the roots: `LayerAt n roots layer` says that `layer`
stands `n` levels below the roots.  What holds of the roots and of the children of every
node holds of every layer, which is how a check that runs down a forest is turned into a
statement about all of it.
-/
namespace Forest

variable {α : Type} (children : α → List α)

/-- `layer` is a list of siblings `n` levels below the roots. -/
def LayerAt : Nat → List α → List α → Prop
  | 0, roots, layer => layer = roots
  | n + 1, roots, layer => ∃ a ∈ roots, LayerAt n (children a) layer

/-- `a` is a node `n` levels below the roots. -/
def NodeAt (n : Nat) (roots : List α) (a : α) : Prop :=
  ∃ layer, LayerAt children n roots layer ∧ a ∈ layer

variable {children} {roots layer : List α} {n : Nat} {a : α}

@[simp] theorem nodeAt_zero : NodeAt children 0 roots a ↔ a ∈ roots := by
  simp [NodeAt, LayerAt]

@[simp] theorem nodeAt_succ :
    NodeAt children (n + 1) roots a ↔ ∃ b ∈ roots, NodeAt children n (children b) a := by
  constructor
  · rintro ⟨layer, ⟨b, hb, hlayer⟩, ha⟩
    exact ⟨b, hb, layer, hlayer, ha⟩
  · rintro ⟨b, hb, layer, hlayer, ha⟩
    exact ⟨layer, ⟨b, hb, hlayer⟩, ha⟩

/-- A layer below the roots is the children of a node one level above it. -/
theorem layerAt_succ : LayerAt children (n + 1) roots layer ↔
    ∃ a, NodeAt children n roots a ∧ layer = children a := by
  induction n generalizing roots with
  | zero => simp [LayerAt]
  | succ n ih =>
    constructor
    · rintro ⟨b, hb, h⟩
      obtain ⟨a, ha, rfl⟩ := ih.mp h
      exact ⟨a, nodeAt_succ.mpr ⟨b, hb, ha⟩, rfl⟩
    · rintro ⟨a, ha, rfl⟩
      obtain ⟨b, hb, ha⟩ := nodeAt_succ.mp ha
      exact ⟨b, hb, ih.mpr ⟨a, ha, rfl⟩⟩

/-- Forests whose nodes are related pairwise have related nodes at the same depths. -/
theorem nodeAt_of_forall₂ {R : α → α → Prop}
    (hchildren : ∀ a b, R a b → List.Forall₂ R (children a) (children b)) {roots' : List α}
    (hroots : List.Forall₂ R roots roots') {b : α} (h : NodeAt children n roots' b) :
    ∃ a, NodeAt children n roots a ∧ R a b := by
  have hmem {as bs : List α} (hall : List.Forall₂ R as bs) {b : α} (hb : b ∈ bs) :
      ∃ a ∈ as, R a b := by
    obtain ⟨hlength, hrel⟩ := List.forall₂_iff_get.mp hall
    obtain ⟨i, rfl⟩ := List.get_of_mem hb
    exact ⟨as.get ⟨i, hlength.symm ▸ i.isLt⟩, List.get_mem _ _, hrel i _ _⟩
  induction n generalizing roots roots' with
  | zero =>
    obtain ⟨a, ha, hab⟩ := hmem hroots (nodeAt_zero.mp h)
    exact ⟨a, nodeAt_zero.mpr ha, hab⟩
  | succ n ih =>
    obtain ⟨d, hd, h⟩ := nodeAt_succ.mp h
    obtain ⟨a, ha, had⟩ := hmem hroots hd
    obtain ⟨e, he, heb⟩ := ih (hchildren a d had) h
    exact ⟨e, nodeAt_succ.mpr ⟨a, ha, he⟩, heb⟩

/-- What holds of the roots and of every node's children holds of every layer. -/
theorem forall_layerAt {P : List α → Prop} (hroots : P roots)
    (hchildren : ∀ n a, NodeAt children n roots a → P (children a)) (n : Nat)
    (layer : List α) (h : LayerAt children n roots layer) : P layer := by
  cases n with
  | zero =>
    rw [LayerAt] at h
    exact h ▸ hroots
  | succ n =>
    obtain ⟨a, ha, rfl⟩ := layerAt_succ.mp h
    exact hchildren n a ha

/-- The nodes of a forest are its roots and the nodes below them. -/
theorem forall_nodeAt {R : Nat → α → Prop} :
    (∀ n a, NodeAt children n roots a → R n a) ↔
      ∀ b ∈ roots, R 0 b ∧ ∀ n a, NodeAt children n (children b) a → R (n + 1) a := by
  constructor
  · intro h b hb
    refine ⟨h 0 b (nodeAt_zero.mpr hb), ?_⟩
    intro n a ha
    exact h (n + 1) a (nodeAt_succ.mpr ⟨b, hb, ha⟩)
  · intro h n a ha
    cases n with
    | zero => exact (h a (nodeAt_zero.mp ha)).1
    | succ n =>
      obtain ⟨b, hb, ha⟩ := nodeAt_succ.mp ha
      exact (h b hb).2 n a ha

end Forest
