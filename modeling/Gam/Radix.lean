import Mathlib.Data.Set.Insert
import Gam.Heap

/-!
# Radix trees in a heap

Nodes of a radix tree with fan-out `g` are regions of a heap whose words point to the nodes below.
A node is named by its height and its index among the nodes of that height, so that the names do not
change when the tree grows a new root. A `Forest` keeps the nodes that are allocated apart from the
ones that are linked to their parent, since a tree is built and taken apart node by node.
-/

namespace Gam

/-- The last `k` digits of `x` in base `g`, the highest one first. -/
def digits (g : Nat) : Nat → Nat → List Nat
  | 0, _ => []
  | k + 1, x => digits g k (x / g) ++ [x % g]

theorem digits_zero (g k : Nat) : digits g k 0 = List.replicate k 0 := by
  induction k with
  | zero => rfl
  | succ k ih => rw [digits, Nat.zero_div, ih, Nat.zero_mod, List.replicate_succ']

/-- Follow the words at the given places, from `root` on. -/
def Heap.walk (h : Heap) (root : Nat) (path : List Nat) : Nat :=
  path.foldl (fun p d => h.readWord (p + 8 * d)) root

/-- The nodes `valid` are allocated, those in `linked` hang in a slot of their parent. -/
structure Forest (h : Heap) (g : Nat) (size : Nat → Nat) (node : Nat → Nat → Nat)
    (valid linked : Set (Nat × Nat)) : Prop where
  live : ∀ k i, (k, i) ∈ valid → ⟨node k i, size k⟩ ∈ h.live
  apart : ∀ k i k' i', (k, i) ∈ valid → (k', i') ∈ valid → (k, i) ≠ (k', i') →
    Region.Apart ⟨node k i, size k⟩ ⟨node k' i', size k'⟩
  parent : ∀ k i, (k, i) ∈ linked → (k, i) ∈ valid ∧ (k + 1, i / g) ∈ valid
  pointer : ∀ k i, (k, i) ∈ linked → h.readWord (node (k + 1) (i / g) + 8 * (i % g)) = node k i

namespace Forest
variable {h h' : Heap} {g : Nat} {size : Nat → Nat} {node : Nat → Nat → Nat}
  {valid linked : Set (Nat × Nat)} {supply : Supply} {k i t x root : Nat}

/-- Walking down the digits of an index leads to the node with that index. -/
theorem walk_digits (forest : Forest h g size node valid linked) (top : node (t + k) 0 = root)
    (small : x / g ^ k = 0) (path : ∀ j < k, (t + j, x / g ^ j) ∈ linked) : h.walk root (digits g k x) = node t x := by
  induction k generalizing t x with
  | zero =>
    have zero : x = 0 := by simpa using small
    rw [zero]
    exact top.symm
  | succ k ih =>
    have below : h.walk root (digits g k (x / g)) = node (t + 1) (x / g) := by
      refine ih ?_ ?_ fun j before => ?_
      · rw [← top, Nat.add_right_comm, Nat.add_assoc]
      · rw [Nat.div_div_eq_div_mul, Nat.mul_comm, ← Nat.pow_succ]
        exact small
      · have link := path (j + 1) (Nat.succ_lt_succ before)
        rwa [Nat.add_right_comm, Nat.add_assoc, Nat.div_div_eq_div_mul, Nat.mul_comm g, ← Nat.pow_succ]
    have last := path 0 (Nat.succ_pos k)
    rw [Nat.pow_zero, Nat.div_one, Nat.add_zero] at last
    rw [digits, Heap.walk, List.foldl_append]
    show h.readWord (h.walk root (digits g k (x / g)) + 8 * (x % g)) = _
    rw [below, forest.pointer t x last]

/-- A slot of a node lies inside its region. -/
theorem slot_inside (node : Nat → Nat → Nat) (i : Nat) (room : 8 * g ≤ size (k + 1)) (positive : 0 < g) :
    Region.Holds ⟨node (k + 1) (i / g), size (k + 1)⟩ (node (k + 1) (i / g) + 8 * (i % g)) 8 := by
  have below := Nat.mod_lt i positive
  simp only [Region.Holds, Region.stop]
  omega

/-- The slots of different nodes lie apart. -/
theorem slots_apart {k' i' : Nat} (forest : Forest h g size node valid linked) (first : (k + 1, i / g) ∈ valid)
    (second : (k' + 1, i' / g) ∈ valid) (different : (k, i) ≠ (k', i')) (room : ∀ k, 8 * g ≤ size (k + 1))
    (positive : 0 < g) :
    Region.Apart ⟨node (k + 1) (i / g) + 8 * (i % g), 8⟩ ⟨node (k' + 1) (i' / g) + 8 * (i' % g), 8⟩ := by
  by_cases one : (k, i / g) = (k', i' / g)
  · -- two slots of one node
    have heights : k = k' := congrArg Prod.fst one
    have parents : i / g = i' / g := congrArg Prod.snd one
    have slots : i % g ≠ i' % g := by
      intro equal
      refine different ?_
      rw [heights, ← Nat.div_add_mod i g, ← Nat.div_add_mod i' g, parents, equal]
    rw [heights, parents]
    simp only [Region.Apart, Region.stop]
    omega
  · refine (forest.apart _ _ _ _ first second ?_).pieces (slot_inside node i (room k) positive)
      (slot_inside node i' (room k') positive)
    exact fun equal => one (by simpa using equal)

section
variable (forest : Forest h g size node valid linked)
include forest

/-- What a heap keeps of a forest that it does not touch. -/
theorem of_same (live : ∀ k i, (k, i) ∈ valid → ⟨node k i, size k⟩ ∈ h'.live) (same : ∀ k i, (k, i) ∈ linked →
      h'.readWord (node (k + 1) (i / g) + 8 * (i % g)) = h.readWord (node (k + 1) (i / g) + 8 * (i % g))) :
    Forest h' g size node valid linked :=
  ⟨live, forest.apart, forest.parent, fun k i member => (same k i member).trans (forest.pointer k i member)⟩

/-- A new node is allocated. -/
theorem grow (fresh : (k, i) ∉ valid) (sound : (h.alloc supply (size k)).2.sound = true) :
    Forest (h.alloc supply (size k)).2 g size
      (fun k' i' => if (k', i') = (k, i) then (h.alloc supply (size k)).1 else node k' i')
      (insert (k, i) valid) linked := by
  obtain ⟨_, _, apart⟩ := (Heap.alloc_fresh sound).2
  -- nodes that were there keep their place
  have kept : ∀ {k' i'}, (k', i') ∈ valid →
      (if (k', i') = (k, i) then (h.alloc supply (size k)).1 else node k' i') = node k' i' := by
    intro k' i' member
    refine if_neg fun same => fresh ?_
    rwa [← same]
  refine ⟨?_, ?_, ?_, ?_⟩
  · intro k' i' member
    by_cases same : (k', i') = (k, i)
    · cases same
      simp [Heap.alloc_live]
    · have old := member.resolve_left same
      rw [kept old, Heap.alloc_live]
      exact List.mem_cons_of_mem _ (forest.live k' i' old)
  · intro k₁ i₁ k₂ i₂ first second different
    by_cases here : (k₁, i₁) = (k, i)
    · cases here
      have old := second.resolve_left (Ne.symm different)
      rw [kept old, if_pos rfl]
      exact apart _ (forest.live k₂ i₂ old)
    · have old := first.resolve_left here
      rw [kept old]
      by_cases there : (k₂, i₂) = (k, i)
      · cases there
        rw [if_pos rfl]
        exact (apart _ (forest.live k₁ i₁ old)).symm
      · have old' := second.resolve_left there
        rw [kept old']
        exact forest.apart k₁ i₁ k₂ i₂ old old' different
  · intro k' i' member
    obtain ⟨child, parent⟩ := forest.parent k' i' member
    exact ⟨Or.inr child, Or.inr parent⟩
  · intro k' i' member
    obtain ⟨child, parent⟩ := forest.parent k' i' member
    rw [kept child, kept parent]
    exact forest.pointer k' i' member

/-- A node is hung into the slot of its parent. -/
theorem link (child : (k, i) ∈ valid)
    (parent : (k + 1, i / g) ∈ valid) (room : ∀ k, 8 * g ≤ size (k + 1)) (positive : 0 < g)
    (small : node k i < 2 ^ 64) : Forest (h.writeWord (node (k + 1) (i / g) + 8 * (i % g)) (node k i)) g size node valid
      (insert (k, i) linked) := by
  refine ⟨forest.live, forest.apart, ?_, ?_⟩
  · rintro k' i' (same | member)
    · cases same
      exact ⟨child, parent⟩
    · exact forest.parent k' i' member
  · intro k' i' member
    by_cases same : (k', i') = (k, i)
    · cases same
      exact Heap.readWord_writeWord small
    · have old := member.resolve_left same
      rw [Heap.readWord_writeWord_apart, forest.pointer k' i' old]
      have apart := forest.slots_apart (forest.parent k' i' old).2 parent same room positive
      simp only [Region.Apart, Region.stop] at apart
      exact apart

/-- A new node is allocated and hung into the slot of its parent. -/
theorem hang (ok : h.Ok) (fresh : (k, i) ∉ valid)
    (parent : (k + 1, i / g) ∈ valid) (room : ∀ k, 8 * g ≤ size (k + 1)) (positive : 0 < g)
    (filled : 0 < size k) (sound : (h.alloc supply (size k)).2.sound = true) :
    ((h.alloc supply (size k)).2.writeWord (node (k + 1) (i / g) + 8 * (i % g)) (h.alloc supply (size k)).1).Ok ∧
    Forest ((h.alloc supply (size k)).2.writeWord (node (k + 1) (i / g) + 8 * (i % g)) (h.alloc supply (size k)).1)
      g size (fun k' i' => if (k', i') = (k, i) then (h.alloc supply (size k)).1 else node k' i')
      (insert (k, i) valid) (insert (k, i) linked) := by
  constructor
  · exact (ok.alloc sound).writeWord (List.mem_cons_of_mem _ (forest.live _ _ parent))
      (slot_inside node i (room k) positive)
  · have small : (h.alloc supply (size k)).1 < 2 ^ 64 := by
      obtain ⟨_, bounded, _⟩ := (Heap.alloc_fresh sound).2
      simp only [Region.stop] at bounded
      omega
    have linked' := (forest.grow fresh sound).link (Or.inl rfl) (Or.inr parent) room positive
      (by rw [if_pos rfl]; exact small)
    simpa only [if_pos, Prod.mk.injEq, Nat.succ_ne_self, false_and, if_false] using linked'

/-- Nodes that hang nowhere any more are forgotten. -/
theorem restrict {valid' linked' : Set (Nat × Nat)} (fewer : valid' ⊆ valid) (fewer' : linked' ⊆ linked)
    (kept : ∀ k i, (k, i) ∈ linked' → (k, i) ∈ valid' ∧ (k + 1, i / g) ∈ valid') :
    Forest h g size node valid' linked' :=
  ⟨fun k i member => forest.live k i (fewer member),
    fun k i k' i' first second => forest.apart k i k' i' (fewer first) (fewer second), kept,
    fun k i member => forest.pointer k i (fewer' member)⟩

end

end Forest

end Gam
