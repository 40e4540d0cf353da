import Gam.GArray.Grow

/-! `GArray` frees buckets layer by layer, from the bottom up. -/

namespace Gam.GArray

open Function
variable {P : Params} {base : List Region} {m₀ : Memory} {node : Nat → Nat → Nat} {c : Nat → Nat}
  {loose : Set (Nat × Nat)} {items : Nat → Option (List UInt8)} {h : Heap} {k i j b n m top low rootAddr : Nat}

namespace Tree

/-- The last bucket of a height is found and freed. -/
theorem freeBlock (tree : Tree P base m₀ node c loose items h) (supply : Supply) (height : k + i = top) (inner : 1 ≤ i)
    (root : node top 0 = rootAddr) (single : c top = 1) (last : c k = j + 1) (path : Path P c k top j)
    (firm : Firm loose k top) (hung : (k, j) ∉ loose)
    (alone : ∀ k' i', k' + 1 = k → i' < c k' → (k', i') ∉ loose → i' / gaddrsPerBucket P ≠ j)
    (unused : k = 0 → ∀ e v, items e = some v → e / itemsPerBucket P ≠ j) :
    Tree P base m₀ node (update c k j) loose items (GArray.freeBlock P supply rootAddr (top + 1) i h j) := by
  have slot := tree.locate_slot height inner root single path firm
  have pointer := tree.forest.pointer k j ⟨show j < c k by omega, hung⟩
  rw [GArray.freeBlock, slot, pointer]
  exact tree.free supply last alone unused

/-- The loop that frees buckets of a height. -/
theorem freeBlocks (tree : Tree P base m₀ node c loose items h) (supply : Supply) (height : k + i = top)
    (inner : 1 ≤ i) (root : node top 0 = rootAddr) (single : c top = 1) (fewer : b ≤ c k) (few : c k < 2 ^ 31)
    (path : ∀ j < c k, Path P c k top j) (firm : Firm loose k top) (hung : ∀ j, b ≤ j → (k, j) ∉ loose)
    (alone : ∀ k' i', k' + 1 = k → i' < c k' → (k', i') ∉ loose → i' / gaddrsPerBucket P < b)
    (unused : k = 0 → ∀ e v, items e = some v → e / itemsPerBucket P < b) :
    Tree P base m₀ node (update c k b) loose items (GArray.freeBlocks P supply rootAddr (top + 1) i b (c k) h) := by
  have start : ((BitVec.ofInt 32 ((c k : Int) - 1)).toInt + 1 - b).toNat = c k - b := by
    rw [BitVec.toInt_ofInt, Int.bmod_eq_of_le (by omega) (by omega)]
    omega
  simp only [GArray.freeBlocks, start]
  refine foldl_reverse_inv (fun j h' => Tree P base m₀ node (update c k j) loose items h') ?_ ?_
  · rw [Nat.add_sub_cancel' fewer, update_eq_self]
    exact tree
  · intro j above below h' tree'
    have higher : ∀ t, k < t → update c k (j + 1) t = c t := fun t above => update_of_ne (by omega) ..
    have freed := tree'.freeBlock (j := j) supply height inner root ((higher top (by omega)).trans single)
      (update_self ..) (fun t above' below' => by
        rw [higher t above']
        exact path j (by omega) t above' below') firm (hung j above)
      (fun k' i' next below' hung' => Nat.ne_of_lt (Nat.lt_of_lt_of_le (alone k' i' next
        (by rwa [update_of_ne (by omega)] at below') hung') above))
      fun zero e v known => Nat.ne_of_lt (Nat.lt_of_lt_of_le (unused zero e v known) above)
    rwa [update_idem] at freed

end Tree

/-- The counts when the heights below `s` have only the buckets for `n` elements. -/
def lowered (P : Params) (n low : Nat) (c : Nat → Nat) (s t : Nat) : Nat := if t < s then counts P n low t else c t

theorem lowered_update : update (lowered P n low c k) k (counts P n low k) = lowered P n low c (k + 1) := by
  funext t
  by_cases same : t = k
  · subst same
    rw [update_self, lowered, if_pos (Nat.lt_succ_self t)]
  · rw [update_of_ne same, lowered, lowered]
    exact if_congr (by omega) rfl rfl

/-- The roots while the heights below `s` are done: the old one, and the new one when nothing above it
is reached by way of it. -/
def roots (top low s : Nat) : Set (Nat × Nat) := { x | x = (top, 0) ∨ x = (low, 0) ∧ low < s }

namespace Tree

/-- The loop over the layers, from the lowest one to the one below the root. -/
theorem lowerLayers {step : Heap → Nat → Heap} (supply : Supply) (before : Sized P m top) (sized : Sized P n low)
    (le : low ≤ top) (fewer : n ≤ m)
    (tree : Tree P base m₀ node (counts P m top) {(top, 0)} items h) (root : node top 0 = rootAddr)
    (kept : ∀ e v, items e = some v → e < n) (body : ∀ i, 1 ≤ i → i < top + 1 → ∀ h, step h i =
      GArray.freeBlocks P supply rootAddr (top + 1) i (counts P n low (top - i)) (counts P m top (top - i)) h) :
    Tree P base m₀ node (lowered P n low (counts P m top) top) (roots top low top) items
      ((List.range' 1 top).reverse.foldl step h) := by
  show Tree P base m₀ node (lowered P n low (counts P m top) (top + 1 - 1)) (roots top low (top + 1 - 1)) items _
  refine foldl_reverse_inv (fun i h' => Tree P base m₀ node (lowered P n low (counts P m top) (top + 1 - i))
    (roots top low (top + 1 - i)) items h') ?_ ?_
  · have start : top + 1 - (1 + top) = 0 := by omega
    rw [start]
    refine (show lowered P n low (counts P m top) 0 = counts P m top from rfl) ▸ tree.loosen ?_
    rintro x - rfl
    exact Or.inl rfl
  · intro i above below h' tree'
    obtain ⟨k, height⟩ : ∃ k, k + i = top := ⟨top - i, by omega⟩
    have stage : top + 1 - (i + 1) = k := by omega
    have stage' : top + 1 - i = k + 1 := by omega
    have level : top - i = k := by omega
    rw [stage] at tree'
    rw [body i above (by omega) h', stage', level]
    have own : lowered P n low (counts P m top) k k = counts P m top k := if_neg (Nat.lt_irrefl k)
    have high : ∀ t, k ≤ t → t ≤ top → lowered P n low (counts P m top) k t = blocks P m t := fun t above' below' => by
      rw [lowered, if_neg (by omega), counts, if_pos below']
    have freed := tree'.freeBlocks (k := k) (b := counts P n low k) supply height above root
      ((high top (by omega) (Nat.le_refl _)).trans before.single) ?_ ?_ ?_ ?_ ?_ ?_ ?_
    · rw [own, lowered_update] at freed
      refine freed.loosen ?_
      rintro x - (rfl | ⟨rfl, below'⟩)
      · exact Or.inl rfl
      · exact Or.inr ⟨rfl, by omega⟩
    · rw [high k (Nat.le_refl k) (by omega)]
      exact counts_le before fewer k
    · rw [high k (Nat.le_refl k) (by omega)]
      exact blocks_lt before.allocated before.small k
    · intro j inside t above' below'
      rw [high k (Nat.le_refl k) (by omega)] at inside
      rw [high t (by omega) below']
      have ancestor := ancestor_lt_blocks before.allocated before.small inside (t - k)
      rwa [Nat.add_sub_cancel' (Nat.le_of_lt above')] at ancestor
    · rintro x (rfl | ⟨rfl, below'⟩)
      · exact Or.inr (Nat.le_refl _)
      · exact Or.inl (Nat.le_of_lt below')
    · rintro j - (equal | ⟨equal, below'⟩)
      · have same := (Prod.mk.inj equal).1
        omega
      · have same := (Prod.mk.inj equal).1
        omega
    · rintro k' i' rfl inside hung
      rw [lowered, if_pos (Nat.lt_succ_self k')] at inside
      unfold counts at inside ⊢
      split at inside
      · by_cases inner : k' + 1 ≤ low
        · rw [if_pos inner]
          exact parent_lt_blocks sized.allocated sized.small inside
        · have same : k' = low := by omega
          subst same
          rw [sized.single] at inside
          have zero : i' = 0 := by omega
          subst zero
          exact absurd (Or.inr ⟨rfl, Nat.lt_succ_self k'⟩) hung
      · exact absurd inside (Nat.not_lt_zero _)
    · intro zero e v known
      subst zero
      rw [counts, if_pos (Nat.zero_le low)]
      exact element_lt_blocks sized.allocated sized.small (kept e v known)

/-- The new root is reached by the first slots. -/
theorem walk_low (tree : Tree P base m₀ node (counts P m top) {(top, 0)} items h) (before : Sized P m top)
    (root : node top 0 = rootAddr) (le : low ≤ top) : h.walk rootAddr (List.replicate (top - low) 0) = node low 0 := by
  rw [← digits_zero (gaddrsPerBucket P)]
  refine tree.forest.walk_digits ?_ (Nat.zero_div _) fun j below => ?_
  · rw [Nat.add_sub_cancel' le]
    exact root
  · rw [Nat.zero_div]
    refine ⟨?_, fun equal => ?_⟩
    · show 0 < counts P m top (low + j)
      rw [counts, if_pos (by omega)]
      exact blocks_pos before.allocated before.small before.some _
    · have same := (Prod.mk.inj equal).1
      omega

/-- The old root is freed when the new one lies lower. -/
theorem lowerRoot (supply : Supply) (before : Sized P m top) (sized : Sized P n low) (le : low ≤ top)
    (tree : Tree P base m₀ node (lowered P n low (counts P m top) top) (roots top low top) items h) :
    Tree P base m₀ node (counts P n low) {(low, 0)} items (if low < top then h.free supply (node top 0) else h) := by
  have atTop : lowered P n low (counts P m top) top top = 1 := by
    rw [lowered, if_neg (Nat.lt_irrefl top), counts, if_pos (Nat.le_refl top)]
    exact before.single
  by_cases lower : low < top
  · rw [if_pos lower]
    have freed := tree.free (k := top) (i := 0) supply atTop ?_ (fun zero => by omega)
    · have same : update (lowered P n low (counts P m top) top) top 0 = counts P n low := by
        funext t
        by_cases equal : t = top
        · subst equal
          rw [update_self, counts_beyond lower]
        · rw [update_of_ne equal, lowered]
          split
          · rfl
          · rw [counts_beyond (by omega), counts_beyond (by omega)]
      rw [same] at freed
      refine freed.loosen ?_
      rintro x inside (rfl | ⟨rfl, -⟩)
      · simp only at inside
        rw [counts_beyond lower] at inside
        exact absurd inside (Nat.lt_irrefl 0)
      · rfl
    · rintro k' i' next inside hung -
      rw [lowered, if_pos (by omega)] at inside
      unfold counts at inside
      split at inside
      · have same : k' = low := by omega
        subst same
        rw [sized.single] at inside
        have zero : i' = 0 := by omega
        subst zero
        exact hung (Or.inr ⟨rfl, lower⟩)
      · exact absurd inside (Nat.not_lt_zero _)
  · rw [if_neg lower]
    have equal : low = top := by omega
    subst equal
    have same : lowered P n low (counts P m low) low = counts P n low := by
      funext t
      unfold lowered
      split
      · rfl
      · by_cases here : t = low
        · subst here
          rw [counts, if_pos (Nat.le_refl t), counts, if_pos (Nat.le_refl t), before.single, sized.single]
        · rw [counts_beyond (by omega), counts_beyond (by omega)]
    rw [same] at tree
    refine tree.loosen ?_
    rintro x - (rfl | ⟨rfl, -⟩)
    · rfl
    · rfl

end Tree

end Gam.GArray
