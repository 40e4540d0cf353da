import Gam.GArray.Tree

/-! `GArray` adds buckets layer by layer, from the top down. -/

namespace Gam.GArray

open Function
variable {P : Params} {base : List Region} {m₀ : Memory} {node : Nat → Nat → Nat} {c : Nat → Nat}
  {loose : Set (Nat × Nat)} {items : Nat → Option (List UInt8)} {h : Heap} {k i j a b n top rootAddr : Nat}

/-- The ancestors of bucket `j` of height `k`, up to the root at height `top`, are there. -/
def Path (P : Params) (c : Nat → Nat) (k top j : Nat) : Prop :=
  ∀ t, k < t → t ≤ top → j / gaddrsPerBucket P ^ (t - k) < c t

/-- Buckets that hang nowhere are not on a path from height `top` to height `k`. -/
def Firm (loose : Set (Nat × Nat)) (k top : Nat) : Prop := ∀ x ∈ loose, x.1 ≤ k ∨ top ≤ x.1

namespace Tree

/-- `LocateInternal` finds the slot of a bucket. -/
theorem locate_slot (tree : Tree P base m₀ node c loose items h) (height : k + i = top) (inner : 1 ≤ i)
    (root : node top 0 = rootAddr) (single : c top = 1) (path : Path P c k top j) (firm : Firm loose k top) :
    locateInternal P rootAddr (top + 1) i j h = node (k + 1) (j / gaddrsPerBucket P) + 8 * (j % gaddrsPerBucket P) := by
  obtain ⟨i, rfl⟩ : ∃ l, i = l + 1 := ⟨i - 1, by omega⟩
  have power : ∀ l, j / gaddrsPerBucket P / gaddrsPerBucket P ^ l = j / gaddrsPerBucket P ^ (l + 1) := fun l => by
    rw [Nat.div_div_eq_div_mul, Nat.pow_succ']
  have walked : h.walk rootAddr (digits (gaddrsPerBucket P) i (j / gaddrsPerBucket P)) =
      node (k + 1) (j / gaddrsPerBucket P) := by
    refine tree.forest.walk_digits ?_ ?_ fun l before => ?_
    · rw [← root, ← height, Nat.add_assoc, Nat.add_comm 1]
    · have high := path top (by omega) (Nat.le_refl _)
      rw [single, ← height, Nat.add_sub_cancel_left] at high
      rw [power]
      exact Nat.lt_one_iff.mp high
    · have there := path (k + 1 + l) (by omega) (by omega)
      rw [Nat.add_assoc, Nat.add_sub_cancel_left, Nat.add_comm 1] at there
      rw [power]
      refine ⟨?_, fun member => ?_⟩
      · rw [Nat.add_assoc, Nat.add_comm 1]
        exact there
      · have away := firm _ member
        simp only at away
        omega
  simp only [locateInternal, if_neg (show ¬i + 1 = top + 1 by omega), Nat.add_sub_cancel, walked]
  rw [Nat.mul_comm 8]

/-- One more bucket of a height. -/
theorem addBlock (tree : Tree P base m₀ node c loose items h) (supply : Supply) (height : k + i = top)
    (inner : 1 ≤ i) (root : node top 0 = rootAddr) (single : c top = 1) (path : Path P c k top (c k))
    (firm : Firm loose k top) (fresh : (k, c k) ∉ loose) :
    Returns .memory (GArray.addBlock P supply rootAddr (top + 1) i h (c k)) fun h' =>
      ∃ node', Tree P base m₀ node' (update c k (c k + 1)) loose items h' ∧ Same c node node' := by
  refine (tree.malloc supply k).bind fun r made => Returns.ok ?_
  have higher : ∀ t, k < t → update c k (c k + 1) t = c t := fun t above =>
    update_of_ne (by omega) ..
  have root' : place node k (c k) r.1 top 0 = rootAddr := by
    rw [← root]
    refine if_neg fun equal => ?_
    have height := (Prod.mk.inj equal).1
    omega
  have path' : Path P (update c k (c k + 1)) k top (c k) := fun t above below => by
    rw [higher t above]
    exact path t above below
  have firm' : Firm (insert (k, c k) loose) k top := by
    rintro x (rfl | member)
    · exact Or.inl (Nat.le_refl k)
    · exact firm x member
  have slot := made.locate_slot height inner root' ((higher top (by omega)).trans single) path' firm'
  have parent := path' (k + 1) (Nat.lt_succ_self k) (by omega)
  rw [Nat.add_sub_cancel_left, Nat.pow_one] at parent
  have hung := made.link (k := k) (i := c k) (by simp) parent
  have own : place node k (c k) r.1 k (c k) = r.1 := if_pos rfl
  have same : insert (k, c k) loose \ {(k, c k)} = loose := by simp [fresh]
  rw [own, same] at hung
  refine ⟨place node k (c k) r.1, ?_, fun k' i' below => if_neg fun equal => ?_⟩
  · rw [insertBlock, slot]
    exact hung
  · obtain ⟨rfl, rfl⟩ := Prod.mk.inj equal
    exact Nat.lt_irrefl _ below

/-- The loop that adds buckets of a height. -/
theorem addBlocks (tree : Tree P base m₀ node c loose items h) (supply : Supply) (height : k + i = top)
    (inner : 1 ≤ i) (root : node top 0 = rootAddr) (single : c top = 1) (more : c k ≤ b)
    (path : ∀ j < b, Path P c k top j) (firm : Firm loose k top) (fresh : ∀ j, c k ≤ j → (k, j) ∉ loose) :
    Returns .memory (GArray.addBlocks P supply rootAddr (top + 1) i (c k) b h) fun h' =>
      ∃ node', Tree P base m₀ node' (update c k b) loose items h' ∧ Same c node node' := by
  refine Returns.foldlM (fun j h' => ∃ node', Tree P base m₀ node' (update c k j) loose items h' ∧
    Same c node node') more ⟨node, by rwa [update_eq_self], Same.refl⟩ ?_
  · rintro j above below h' ⟨node', tree', same⟩
    have higher : ∀ t, k < t → update c k j t = c t := fun t above => update_of_ne (by omega) ..
    have own : update c k j k = j := update_self ..
    have added := tree'.addBlock supply height inner ((same top 0 (by omega)).trans root)
      ((higher top (by omega)).trans single)
      (fun t above' below' => by rw [higher t above', own]; exact path j (by omega) t above' below') firm
      (by rw [own]; exact fresh j above)
    rw [own, update_idem] at added
    refine added.mono fun h'' ⟨node'', tree'', same'⟩ => ⟨node'', tree'', same.trans same' fun t => ?_⟩
    by_cases equal : t = k
    · subst equal
      rw [own]
      exact above
    · rw [update_of_ne equal]

end Tree

/-- The counts when the heights from `s` up to the root have all buckets for `n` elements. -/
def raised (P : Params) (n top : Nat) (c : Nat → Nat) (s t : Nat) : Nat :=
  if s ≤ t ∧ t ≤ top then blocks P n t else c t

theorem raised_update (below : k < top) : update (raised P n top c (k + 1)) k (blocks P n k) = raised P n top c k := by
  funext t
  by_cases same : t = k
  · subst same
    rw [update_self, raised, if_pos ⟨Nat.le_refl t, Nat.le_of_lt below⟩]
  · rw [update_of_ne same, raised, raised]
    exact if_congr (and_congr_left fun _ => by omega) rfl rfl

/-- What an array of `n` elements with the root at height `top` may rely on. -/
structure Sized (P : Params) (n top : Nat) : Prop where
  allocated : P.bucketSize ≤ Slab.itemSizeMax
  small : Small P n
  some : 0 < n
  depth : depth P n = top + 1

theorem Sized.single (sized : Sized P n top) : blocks P n top = 1 :=
  blocks_top sized.allocated sized.small sized.some (Nat.le_of_eq sized.depth)

namespace Tree

/-- A loop over layers, from layer `first` below the root to layer `last`. -/
theorem addLayers (first last : Nat) {step : Heap → Nat → Except Heap.Stop Heap} (supply : Supply)
    (sized : Sized P n top) (tree : Tree P base m₀ node (raised P n top c (top + 1 - first)) loose items h) (root : node top 0 = rootAddr)
    (le : first ≤ last) (inner : 1 ≤ first) (within : last ≤ top + 1) (more : ∀ k, k + first ≤ top → c k ≤ blocks P n k)
    (firm : ∀ x ∈ loose, x.1 + last ≤ top ∨ top ≤ x.1) (body : ∀ i, first ≤ i → i < last → ∀ h, step h i =
      GArray.addBlocks P supply rootAddr (top + 1) i (c (top - i)) (blocks P n (top - i)) h) :
    Returns .memory ((List.range' first (last - first)).foldlM step h) fun h' =>
      ∃ node', Tree P base m₀ node' (raised P n top c (top + 1 - last)) loose items h' ∧
        Same (raised P n top c (top + 1 - first)) node node' := by
  refine Returns.foldlM (fun i h' => ∃ node', Tree P base m₀ node' (raised P n top c (top + 1 - i)) loose items h' ∧
    Same (raised P n top c (top + 1 - first)) node node') le ⟨node, tree, Same.refl⟩ ?_
  rintro i above below h' ⟨node', tree', same⟩
  obtain ⟨k, height⟩ : ∃ k, k + i = top := ⟨top - i, by omega⟩
  have next : top + 1 - i = k + 1 := by omega
  have next' : top + 1 - (i + 1) = k := by omega
  have level : top - i = k := by omega
  rw [body i above below h', next', level]
  rw [next] at tree'
  have own : raised P n top c (k + 1) k = c k := if_neg (by omega)
  have high : ∀ t, k < t → t ≤ top → raised P n top c (k + 1) t = blocks P n t := fun t above' below' =>
    if_pos ⟨above', below'⟩
  have root' : node' top 0 = rootAddr := by
    rw [same top 0, root]
    rw [raised, if_pos (by omega), sized.single]
    exact Nat.one_pos
  have added := tree'.addBlocks (b := blocks P n k) supply height (by omega) root'
    ((high top (by omega) (Nat.le_refl _)).trans sized.single) (by rw [own]; exact more k (by omega))
    (fun j inside t above' below' => by
      rw [high t above' below']
      have ancestor := ancestor_lt_blocks sized.allocated sized.small inside (t - k)
      rwa [Nat.add_sub_cancel' (Nat.le_of_lt above')] at ancestor)
    (fun x member => by have away := firm x member; omega)
    (fun j _ member => by have away := firm _ member; simp only at away; omega)
  rw [own, raised_update (by omega)] at added
  refine added.mono fun h'' ⟨node'', tree'', same'⟩ => ⟨node'', tree'', same.trans same' fun t => ?_⟩
  unfold raised
  by_cases old : top + 1 - first ≤ t ∧ t ≤ top
  · rw [if_pos old, if_pos (by omega)]
  · rw [if_neg old]
    split
    · next new => exact more t (by omega)
    · exact Nat.le_refl _

end Tree

/-- The counts of an array of `n` elements with the root at height `top`. -/
def counts (P : Params) (n top t : Nat) : Nat := if t ≤ top then blocks P n t else 0

theorem raised_all (beyond : ∀ t, top < t → c t = 0) : raised P n top c 0 = counts P n top := by
  funext t
  by_cases inside : t ≤ top
  · rw [raised, if_pos ⟨Nat.zero_le t, inside⟩, counts, if_pos inside]
  · rw [raised, if_neg (by omega), counts, if_neg inside, beyond t (by omega)]

theorem counts_beyond (above : top < k) : counts P n top k = 0 := if_neg (by omega)

/-- A larger array has more buckets on every height. -/
theorem counts_le {m top' : Nat} (sized : Sized P m top') (le : n ≤ m) (k : Nat) : counts P n top k ≤ blocks P m k := by
  unfold counts
  split
  · exact blocks_mono sized.allocated sized.small le k
  · exact Nat.zero_le _

namespace Tree

/-- No buckets yet. -/
theorem empty (P : Params) (ok : h.Ok) (filled : ∀ q ∈ h.live, 0 < q.len) (node : Nat → Nat → Nat) :
    Tree P h.live h.mem node (fun _ => 0) ∅ (fun _ => none) h := by
  refine ⟨ok, filled, fun r => ⟨Or.inl, ?_⟩, ?_, ⟨?_, ?_, ?_, ?_⟩, fun _ _ _ _ _ => rfl, ?_⟩
  · rintro (member | ⟨_, _, below, _⟩)
    · exact member
    · exact absurd below (Nat.not_lt_zero _)
  · exact fun _ _ below => absurd below (Nat.not_lt_zero _)
  · exact fun _ _ below => absurd below (Nat.not_lt_zero _)
  · exact fun _ _ _ _ below => absurd below (Nat.not_lt_zero _)
  · exact fun _ _ below => absurd below.1 (Nat.not_lt_zero _)
  · exact fun _ _ below => absurd below.1 (Nat.not_lt_zero _)
  · intro e v known
    cases known

/-- A new root above the others. -/
theorem newRoot (tree : Tree P base m₀ node c loose items h) (supply : Supply) (sized : Sized P n top) (none : c top = 0) :
    Returns .memory (mallocBucket P supply h) fun r => ∃ node',
      Tree P base m₀ node' (raised P n top c top) (insert (top, 0) loose) items r.2 ∧ node' top 0 = r.1 ∧
        Same c node node' := by
  refine (tree.malloc supply top).mono fun r made => ?_
  have counted : update c top (c top + 1) = raised P n top c top := by
    funext t
    by_cases same : t = top
    · subst same
      rw [update_self, raised, if_pos ⟨Nat.le_refl t, Nat.le_refl t⟩, sized.single, none]
    · rw [update_of_ne same, raised, if_neg (by omega)]
  rw [none] at made counted
  rw [counted] at made
  refine ⟨_, made, if_pos rfl, fun k i below => if_neg fun equal => ?_⟩
  obtain ⟨rfl, rfl⟩ := Prod.mk.inj equal
  rw [none] at below
  exact Nat.lt_irrefl 0 below

/-- The layers that the constructor adds below a new root. -/
theorem buildLayers (tree : Tree P base m₀ node (raised P n top (fun _ => 0) top) {(top, 0)} items h) (supply : Supply)
    (sized : Sized P n top) (root : node top 0 = rootAddr) :
    Returns .memory ((List.range' 1 (top + 1 - 1)).foldlM (buildLayer P supply rootAddr (top + 1) n) h) fun h' =>
      ∃ node', Tree P base m₀ node' (counts P n top) {(top, 0)} items h' ∧ node' top 0 = rootAddr := by
  have added : Returns .memory ((List.range' 1 (top + 1 - 1)).foldlM (buildLayer P supply rootAddr (top + 1) n) h) _ :=
    tree.addLayers 1 (top + 1) supply sized root (by omega) (Nat.le_refl 1) (Nat.le_refl _)
    (fun _ _ => Nat.zero_le _) (by rintro x rfl; exact Or.inr (Nat.le_refl top)) fun i above below h => by
      rw [buildLayer, if_pos (blocks_lt sized.allocated sized.small _)]
      rfl
  refine added.mono fun h' ⟨node', tree', same⟩ => ⟨node', ?_, ?_⟩
  · rw [Nat.sub_self, raised_all fun _ _ => rfl] at tree'
    exact tree'
  · rw [same top 0, root]
    rw [raised, if_pos (by omega), sized.single]
    exact Nat.one_pos

/-- More buckets in the layers that are there. -/
theorem growBlocks {f : Fields} (tree : Tree P base m₀ node (counts P (max 1 f.size) top) {(top, 0)} items h)
    (supply : Supply) (sized : Sized P n top) (old : Sized P (max 1 f.size) top) (more : max 1 f.size ≤ n)
    (layer : f.layer = (top + 1 : Nat)) (root : node top 0 = f.rootAddr) (known : 0 < top → 0 < f.size) :
    Returns .memory (GArray.growBlocks P supply f n (top + 1) h) fun r => ∃ node',
      Tree P base m₀ node' (counts P n top) {(top, 0)} items r.2 ∧ node' top 0 = r.1 := by
  have layer' : f.layer.toNat = top + 1 := by rw [layer]; rfl
  have start : counts P (max 1 f.size) top = raised P n top (counts P (max 1 f.size) top) top := by
    funext t
    unfold raised
    split
    · next high =>
      have same : t = top := by omega
      rw [same, counts, if_pos (Nat.le_refl top), old.single, sized.single]
    · rfl
  rw [start] at tree
  unfold GArray.growBlocks
  rw [layer']
  refine (tree.addLayers 1 (top + 1) supply sized root (by omega) (Nat.le_refl 1) (Nat.le_refl _)
    (fun k _ => counts_le sized more k) (by rintro x rfl; exact Or.inr (Nat.le_refl top))
    fun i above below h => ?_).bind fun h' ⟨node', tree', same⟩ => Returns.ok ⟨node', ?_, ?_⟩
  · rw [counts, if_pos (Nat.sub_le ..), Nat.max_eq_right (known (by omega))]
    rfl
  · rw [Nat.sub_self, raised_all fun _ above => counts_beyond above] at tree'
    exact tree'
  · rw [same top 0, root]
    rw [raised, if_pos (by omega), sized.single]
    exact Nat.one_pos

/-- `InsertBlock` hangs the old root below the new layers. -/
theorem linkRoot {old : Nat} (tree : Tree P base m₀ node (raised P n top c (old + 1)) {(top, 0), (old, 0)} items h)
    (sized : Sized P n top) (below : old < top) (single : c old = 1) (root : node top 0 = rootAddr) :
    Tree P base m₀ node (raised P n top c (old + 1)) {(top, 0)} items
      (insertBlock P rootAddr (top + 1) (top - old) 0 (node old 0) h) := by
  have high : ∀ t, old < t → t ≤ top → 0 < raised P n top c (old + 1) t := fun t above within => by
    rw [raised, if_pos ⟨above, within⟩]
    exact blocks_pos sized.allocated sized.small sized.some t
  have own : 0 < raised P n top c (old + 1) old := by
    rw [raised, if_neg (by omega), single]
    exact Nat.one_pos
  have one : raised P n top c (old + 1) top = 1 := by
    rw [raised, if_pos (by omega)]
    exact sized.single
  have slot := tree.locate_slot (k := old) (j := 0) (Nat.add_sub_cancel' (Nat.le_of_lt below)) (by omega) root one
    (fun t above within => by rw [Nat.zero_div]; exact high t above within)
    (by rintro x (rfl | rfl); exacts [Or.inr (Nat.le_refl _), Or.inl (Nat.le_refl _)])
  have hung := tree.link (k := old) (i := 0) own (by rw [Nat.zero_div]; exact high _ (Nat.lt_succ_self old) below)
  rw [insertBlock, slot]
  refine hung.loosen ?_
  rintro x - ⟨rfl | rfl, other⟩
  · rfl
  · exact absurd rfl other

/-- New layers above the old root. -/
theorem growLayers {f : Fields} {old : Nat} (tree : Tree P base m₀ node (counts P (max 1 f.size) old) {(old, 0)} items h)
    (supply : Supply) (sized : Sized P n top) (before : Sized P (max 1 f.size) old) (more : max 1 f.size ≤ n)
    (layer : f.layer = (old + 1 : Nat)) (root : node old 0 = f.rootAddr) (known : 0 < old → 0 < f.size)
    (higher : old < top) : Returns .memory (GArray.growLayers P supply f n (top + 1) h) fun r => ∃ node',
      Tree P base m₀ node' (counts P n top) {(top, 0)} items r.2 ∧ node' top 0 = r.1 := by
  have layer' : f.layer.toNat = old + 1 := by rw [layer]; rfl
  have single : counts P (max 1 f.size) old old = 1 := by rw [counts, if_pos (Nat.le_refl old)]; exact before.single
  have atTop : ∀ {s}, s ≤ top → 0 < raised P n top (counts P (max 1 f.size) old) s top := fun {s} le => by
    rw [raised, if_pos ⟨le, Nat.le_refl top⟩, sized.single]
    exact Nat.one_pos
  have atOld : ∀ {s}, old < s → 0 < raised P n top (counts P (max 1 f.size) old) s old := fun {s} lt => by
    rw [raised, if_neg (by omega), single]
    exact Nat.one_pos
  have grown : ∀ k, counts P (max 1 f.size) old k ≤ blocks P n k := counts_le sized more
  unfold GArray.growLayers
  rw [layer']
  refine (tree.newRoot supply sized (counts_beyond higher)).bind fun r ⟨node₁, tree₁, root₁, same₁⟩ => ?_
  have old₁ : node₁ old 0 = f.rootAddr := (same₁ old 0 (by rw [single]; exact Nat.one_pos)).trans root
  have gap : top + 1 - (old + 1) = top - old := by omega
  rw [gap]
  -- the layers above the old root
  refine (tree₁.addLayers 1 (top - old) supply sized root₁ (by omega) (Nat.le_refl 1) (by omega) (fun k _ => grown k)
    (by rintro x (rfl | rfl) <;> simp only <;> omega) fun i above below h => ?_).bind
      fun h₂ ⟨node₂, tree₂, same₂⟩ => ?_
  · rw [counts_beyond (by omega)]
    rfl
  have root₂ : node₂ top 0 = r.1 := (same₂ top 0 (atTop (by omega))).trans root₁
  have old₂ : node₂ old 0 = f.rootAddr := (same₂ old 0 (atOld (by omega))).trans old₁
  have level : top + 1 - (top - old) = old + 1 := by omega
  rw [level] at tree₂
  have linked := tree₂.linkRoot sized higher single root₂
  rw [old₂] at linked
  -- the layer of the old root
  have added := linked.addBlocks (b := blocks P n old) supply (Nat.add_sub_cancel' (Nat.le_of_lt higher)) (by omega) root₂
    (by rw [raised, if_pos (by omega)]; exact sized.single) (by rw [raised, if_neg (by omega)]; exact grown old)
    (fun j inside t above' below' => by
      rw [raised, if_pos ⟨above', below'⟩]
      have ancestor := ancestor_lt_blocks sized.allocated sized.small inside (t - old)
      rwa [Nat.add_sub_cancel' (Nat.le_of_lt above')] at ancestor)
    (by rintro x rfl; exact Or.inr (Nat.le_refl _)) (by rintro j - equal; have := (Prod.mk.inj equal).1; omega)
  have own : raised P n top (counts P (max 1 f.size) old) (old + 1) old = 1 := by
    rw [raised, if_neg (by omega), single]
  rw [own, raised_update higher] at added
  have level' : top + 1 - 1 - (top - old) = old := by omega
  dsimp only
  rw [level']
  refine added.bind fun h₃ ⟨node₃, tree₃, same₃⟩ => ?_
  have root₃ : node₃ top 0 = r.1 := (same₃ top 0 (atTop (by omega))).trans root₂
  -- the layers below it
  have start : top + 1 - (top - old + 1) = old := by omega
  have tree₃' : Tree P base m₀ node₃ (raised P n top (counts P (max 1 f.size) old) (top + 1 - (top - old + 1)))
      {(top, 0)} items h₃ := by
    rw [start]
    exact tree₃
  refine (tree₃'.addLayers (top - old + 1) (top + 1) supply sized root₃ (by omega) (by omega) (Nat.le_refl _)
    (fun k _ => grown k) (by rintro x rfl; exact Or.inr (Nat.le_refl top)) fun i above below h => ?_).bind
      fun h₄ ⟨node₄, tree₄, same₄⟩ => Returns.ok ⟨node₄, ?_, ?_⟩
  · have same : old + 1 - 1 - (i - (top - old)) = top - i := by omega
    rw [counts, if_pos (by omega), Nat.max_eq_right (known (by omega)), same]
    rfl
  · rw [Nat.sub_self, raised_all fun _ above => counts_beyond (by omega)] at tree₄
    exact tree₄
  · exact (same₄ top 0 (atTop (by omega))).trans root₃

end Tree

end Gam.GArray
