import Gam.GArray.Shrink

/-! A `GArray` keeps its elements through any sequence of writes and resizes. -/

namespace Gam.GArray
variable {P : Params} {base : List Region} {m₀ : Memory} {node : Nat → Nat → Nat}
  {items : Nat → Option (List UInt8)} {h h' : Heap} {f : Fields} {header n top : Nat}

theorem Fields.ofWords_words (f : Fields) (low : -2 ^ 31 ≤ f.layer) (high : f.layer < 2 ^ 31) : ofWords f.words = f := by
  have bits := (BitVec.ofInt 32 f.layer).isLt
  have word : BitVec.ofNat 32 ((BitVec.ofInt 32 f.layer).toNat + 2 ^ 32 * f.flag) = BitVec.ofInt 32 f.layer := by
    apply BitVec.eq_of_toNat_eq
    rw [BitVec.toNat_ofNat]
    omega
  have layer : (BitVec.ofInt 32 f.layer).toInt = f.layer := by
    rw [BitVec.toInt_ofInt, Int.bmod_eq_of_le (by omega) (by omega)]
  have flag : ((BitVec.ofInt 32 f.layer).toNat + 2 ^ 32 * f.flag) / 2 ^ 32 = f.flag := by omega
  simp only [ofWords, words, List.getD_cons_zero, List.getD_cons_succ]
  rw [word, layer, flag]

/-- The fields that a header can hold. -/
structure Fields.Fit (f : Fields) : Prop where
  root : f.rootAddr < 2 ^ 64
  size : f.size < 2 ^ 64
  capacity : f.capacity < 2 ^ 64
  low : -2 ^ 31 ≤ f.layer
  high : f.layer < 2 ^ 31
  flag : f.flag < 2 ^ 32

/-- What is written to the header is read back. -/
theorem syncFrom_syncTo (fit : f.Fit) : syncFrom header (syncTo header f h) = f := by
  have bits := (BitVec.ofInt 32 f.layer).isLt
  have flag := fit.flag
  have small : ∀ w ∈ f.words, w < 2 ^ 64 := by
    simp only [Fields.words, List.forall_mem_cons]
    exact ⟨fit.root, fit.size, fit.capacity, by omega, by simp⟩
  have read : (h.writeWords header f.words).readWords header 4 = f.words := Heap.readWords_writeWords small
  rw [syncFrom, syncTo, read, Fields.ofWords_words f fit.low fit.high]

theorem syncFrom_congr (same : ∀ a, header ≤ a → a < header + 32 → h'.mem a = h.mem a) :
    syncFrom header h' = syncFrom header h := by
  have words : h'.readWords header 4 = h.readWords header 4 := by
    apply List.map_congr_left
    intro i listed
    rw [List.mem_range] at listed
    refine congrArg valueOf (List.map_congr_left fun b listed' => ?_)
    rw [List.mem_range] at listed'
    exact same _ (by omega) (by omega)
  rw [syncFrom, words, syncFrom]

/-- The array between two operations. -/
structure Holds (P : Params) (base : List Region) (header : Nat) (node : Nat → Nat → Nat) (top : Nat) (f : Fields)
    (items : Nat → Option (List UInt8)) (h : Heap) : Prop where
  sized : Sized P (max 1 f.size) top
  layer : f.layer = (top + 1 : Nat)
  capacity : f.capacity = blocks P (max 1 f.size) 0 * itemsPerBucket P
  root : node top 0 = f.rootAddr
  tree : Tree P base h.mem node (counts P (max 1 f.size) top) {(top, 0)} items h
  inBase : ⟨header, 32⟩ ∈ base
  fields : syncFrom header h = f
  known : ∀ e v, items e = some v → e < f.size
  flag : f.flag < 2 ^ 32

/-- The header after a change of the fields. -/
theorem Tree.syncTo {c : Nat → Nat} {loose : Set (Nat × Nat)} (tree : Tree P base m₀ node c loose items h)
    (inBase : ⟨header, 32⟩ ∈ base) : Tree P base (syncTo header f h).mem node c loose items (syncTo header f h) := by
  refine tree.writeBase inBase ?_
  rw [Heap.length_flatMap_bytesOf]
  exact ⟨Nat.le_refl _, Nat.le_refl _⟩

theorem Small.fits (allocated : P.bucketSize ≤ Slab.itemSizeMax) (small : Small P n) :
    n < 2 ^ 64 ∧ blocks P n 0 * itemsPerBucket P < 2 ^ 64 := by
  have items := items_le P
  have count := blocks_zero_lt allocated small
  unfold Slab.itemSizeMax at allocated
  unfold Small at small
  have bound : (2 ^ 31 - 1) * itemsPerBucket P ≤ (2 ^ 31 - 1) * (512 * 1024) := Nat.mul_le_mul_left _ (by omega)
  have bound' : blocks P n 0 * itemsPerBucket P ≤ 2 ^ 31 * (512 * 1024) := Nat.mul_le_mul (by omega) (by omega)
  omega

/-- There are few layers. -/
theorem Sized.high (sized : Sized P n top) : top ≤ 31 := by
  have count := blocks_zero_lt sized.allocated sized.small
  have depth := sized.depth
  have power : 2 ^ 31 ≤ gaddrsPerBucket P ^ 31 := Nat.pow_le_pow_left (gaddrs_two P) 31
  have bound : Nat.clog (gaddrsPerBucket P) (blocks P n 0) ≤ 31 := Nat.clog_le_of_le_pow (by omega)
  unfold GArray.depth at depth
  omega

/-- The new fields fit the header. -/
theorem Sized.fit {g : Fields} (sized : Sized P (max 1 g.size) top) (layer : g.layer = (top + 1 : Nat))
    (capacity : g.capacity = blocks P (max 1 g.size) 0 * itemsPerBucket P) (root : g.rootAddr < 2 ^ 64)
    (flag : g.flag < 2 ^ 32) : g.Fit := by
  have fits := sized.small.fits sized.allocated
  have high := sized.high
  have size : g.size ≤ max 1 g.size := Nat.le_max_right ..
  exact ⟨root, by omega, by rw [capacity]; exact fits.2, by rw [layer]; omega, by rw [layer]; omega, flag⟩

/-- After the fields were written to the header. -/
theorem Tree.holds {g : Fields} {c : Nat → Nat} (tree : Tree P base m₀ node c {(top, 0)} items h)
    (counted : c = counts P (max 1 g.size) top) (sized : Sized P (max 1 g.size) top)
    (layer : g.layer = (top + 1 : Nat)) (capacity : g.capacity = blocks P (max 1 g.size) 0 * itemsPerBucket P)
    (root : node top 0 = g.rootAddr) (inBase : ⟨header, 32⟩ ∈ base) (known : ∀ e v, items e = some v → e < g.size)
    (flag : g.flag < 2 ^ 32) : Holds P base header node top g items (GArray.syncTo header g h) := by
  subst counted
  have there : 0 < counts P (max 1 g.size) top top := by
    rw [counts, if_pos (Nat.le_refl top), sized.single]
    exact Nat.one_pos
  have fit := sized.fit layer capacity (root ▸ (tree.placed there).2) flag
  exact ⟨sized, layer, capacity, root, tree.syncTo inBase, inBase, syncFrom_syncTo fit, known, flag⟩

/-- Elements that are no longer asked for. -/
theorem Tree.forget {items' : Nat → Option (List UInt8)} {c : Nat → Nat} {loose : Set (Nat × Nat)}
    (tree : Tree P base m₀ node c loose items h) (fewer : ∀ e v, items' e = some v → items e = some v) :
    Tree P base m₀ node c loose items' h :=
  { tree with stored := fun e v known => tree.stored e v (fewer e v known) }

namespace Holds

section
variable (holds : Holds P base header node top f items h)
include holds

theorem known_size (inner : 0 < top) : 0 < f.size := by
  by_contra none
  have zero : f.size = 0 := by omega
  have depth := holds.sized.depth
  have one : blocks P 1 0 = 1 := by
    have small : Small P 1 := by
      have := items_pos P
      unfold Small
      omega
    refine Nat.le_antisymm ?_ (blocks_pos holds.sized.allocated small Nat.one_pos 0)
    rw [blocks_zero_le_iff holds.sized.allocated small]
    have := items_pos P
    omega
  rw [zero, Nat.max_eq_left (Nat.zero_le 1), GArray.depth, one, Nat.clog_one_right] at depth
  omega

/-- `Resize` within the capacity. -/
theorem enlarge_within (larger : f.size < n) (within : n ≤ f.capacity)
    (small : Small P n) : Holds P base header node top { f with size := n } items (GArray.syncTo header { f with size := n } h) := by
  have allocated := holds.sized.allocated
  have more : max 1 f.size ≤ max 1 n := by omega
  have one : max 1 n = n := by omega
  have first : blocks P (max 1 n) 0 = blocks P (max 1 f.size) 0 := by
    refine Nat.le_antisymm ?_ (blocks_mono allocated (by rwa [one]) more 0)
    rw [one, blocks_zero_le_iff allocated small, Nat.mul_comm, ← holds.capacity]
    exact within
  have all : ∀ k, blocks P (max 1 n) k = blocks P (max 1 f.size) k := fun k => by
    induction k with
    | zero => exact first
    | succ k ih => rw [blocks, blocks, ih]
  have sized : Sized P (max 1 n) top :=
    ⟨allocated, by rwa [one], by omega, by rw [depth, first]; exact holds.sized.depth⟩
  refine holds.tree.holds ?_ sized holds.layer ?_ holds.root holds.inBase ?_ holds.flag
  · funext t
    simp only [counts, all]
  · simp only [holds.capacity, first]
  · intro e v known
    have below := holds.known e v known
    simp only
    omega

/-- `Resize` to more elements. -/
theorem enlarge (supply : Supply) (larger : f.size < n) (small : Small P n) :
    Returns .memory (GArray.enlarge P supply header f n h) fun h' => ∃ node' top' f',
      Holds P base header node' top' f' items h' ∧ f'.size = n := by
  have allocated := holds.sized.allocated
  have one : max 1 n = n := by omega
  have more : max 1 f.size ≤ n := by omega
  unfold GArray.enlarge
  by_cases beyond : f.capacity < n
  · rw [if_pos beyond]
    have layered : itemsPerBucket P < n * gaddrsPerBucket P := by
      have some := blocks_pos allocated holds.sized.small holds.sized.some 0
      have bucket := Nat.le_mul_of_pos_left (itemsPerBucket P) some
      rw [← holds.capacity] at bucket
      exact Nat.lt_of_lt_of_le (Nat.lt_of_le_of_lt bucket beyond) (Nat.le_mul_of_pos_right n (by have := gaddrs_two P; omega))
    obtain ⟨top', deep⟩ : ∃ top', depth P n = top' + 1 := ⟨_, rfl⟩
    have sized : Sized P n top' := ⟨allocated, small, by omega, deep⟩
    have layers' : layers P n = (top' + 1 : Nat) := by rw [layers_eq allocated small layered, deep]
    have le : top ≤ top' := by
      have mono := depth_mono allocated small more
      have old := holds.sized.depth
      omega
    have toNat : (layers P n).toNat = top' + 1 := by rw [layers']; rfl
    have grown : Returns .memory (grow P supply f n h) fun r => ∃ node',
        Tree P base h.mem node' (counts P n top') {(top', 0)} items r.2 ∧ node' top' 0 = r.1 := by
      rw [grow, toNat]
      by_cases higher : top < top'
      · rw [if_pos (by rw [holds.layer, layers']; omega)]
        exact holds.tree.growLayers supply sized holds.sized more holds.layer holds.root holds.known_size higher
      · have same : top = top' := by omega
        subst same
        rw [if_neg (by rw [holds.layer, layers']; omega)]
        exact holds.tree.growBlocks supply sized holds.sized more holds.layer holds.root holds.known_size
    refine grown.bind fun r ⟨node', tree, root⟩ => Returns.ok ⟨node', top', _, tree.holds ?_ ?_ ?_ ?_ ?_ holds.inBase ?_ holds.flag, rfl⟩
    · simp only [one]
    · simp only [one]
      exact sized
    · simp only
      split
      · exact layers'
      · next lower =>
        rw [holds.layer, layers'] at lower
        rw [holds.layer]
        omega
    · simp only [one]
      rfl
    · exact root
    · intro e v known
      have below := holds.known e v known
      simp only
      omega
  · rw [if_neg beyond]
    exact Returns.ok ⟨node, top, _, holds.enlarge_within larger (Nat.not_lt.mp beyond) small, rfl⟩

/-- What is needed about the new number of layers. -/
theorem low_layers (smaller : n < f.size) (small : Small P n) (layered : itemsPerBucket P < n * gaddrsPerBucket P) :
    ∃ low, Sized P n low ∧ low ≤ top ∧ layers P n = (low + 1 : Nat) ∧ (f.layer - layers P n).toNat = top - low := by
  have allocated := holds.sized.allocated
  have some : 0 < n := Nat.pos_of_mul_pos_right (Nat.zero_lt_of_lt layered)
  obtain ⟨low, deep⟩ : ∃ low, depth P n = low + 1 := ⟨_, rfl⟩
  have count : layers P n = (low + 1 : Nat) := by rw [layers_eq allocated small layered, deep]
  have mono := depth_mono allocated holds.sized.small (Nat.le_trans (Nat.le_of_lt smaller) (Nat.le_max_right 1 f.size))
  have old := holds.sized.depth
  refine ⟨low, ⟨allocated, small, some, deep⟩, by omega, count, ?_⟩
  rw [holds.layer, count]
  omega

end

/-- The buckets that are left after a release. -/
theorem release_tree {low : Nat} (supply : Supply) (before : Sized P f.size top) (sized : Sized P n low)
    (le : low ≤ top) (fewer : n ≤ f.size) (layer : f.layer = (top + 1 : Nat)) (gap : (f.layer - layers P n).toNat = top - low)
    (tree : Tree P base m₀ node (counts P f.size top) {(top, 0)} items h) (root : node top 0 = f.rootAddr)
    (kept : ∀ e v, items e = some v → e < n) :
    Tree P base m₀ node (counts P n low) {(low, 0)} items (release P supply f n h) := by
  have toNat : f.layer.toNat = top + 1 := by rw [layer]; rfl
  have loop : Tree P base m₀ node (lowered P n low (counts P f.size top) top) (roots top low top) items
      ((List.range' 1 top).reverse.foldl (fun h i => freeBlocks P supply f.rootAddr (top + 1) i
        (newLayers P (top + 1) (top - low) n i) (blocks P f.size (top + 1 - 1 - i)) h) h) := by
    refine tree.lowerLayers supply before sized le fewer root kept fun i above below h => ?_
    have old : counts P f.size top (top - i) = blocks P f.size (top - i) := if_pos (Nat.sub_le ..)
    have new : newLayers P (top + 1) (top - low) n i = counts P n low (top - i) :=
      if_congr (by omega) rfl rfl
    rw [new, old]
    rfl
  have done := loop.lowerRoot supply before sized le
  rw [root] at done
  simp only [release, toNat, gap]
  by_cases lower : low < top
  · rw [if_pos lower] at done
    rw [if_pos (show top - low ≠ 0 by omega)]
    exact done
  · rw [if_neg lower] at done
    rw [if_neg (show ¬top - low ≠ 0 by omega)]
    exact done

section
variable (holds : Holds P base header node top f items h)
include holds

/-- `Resize` to fewer elements. -/
theorem shrink (supply : Supply) (smaller : n < f.size)
    (small : Small P n) (layered : itemsPerBucket P < n * gaddrsPerBucket P) :
    ∃ h' top' f', GArray.shrink P supply header f n h = .ok h' ∧ f'.size = n ∧
      Holds P base header node top' f' (fun e => if e < n then items e else none) h' := by
  obtain ⟨low, sized, le, count, gap⟩ := holds.low_layers smaller small layered
  have one : max 1 f.size = f.size := by omega
  have some := sized.some
  have one' : max 1 n = n := by omega
  have before := holds.sized
  have tree := holds.tree
  rw [one] at before tree
  have fewer : ∀ e v, (if e < n then items e else none) = Option.some v → items e = Option.some v := by
    intro e v known
    split at known
    · exact known
    · cases known
  have kept : ∀ e v, (if e < n then items e else none) = Option.some v → e < n := by
    intro e v known
    by_contra beyond
    rw [if_neg beyond] at known
    cases known
  have root : node low 0 = (shrunk P f n h).rootAddr := by
    rw [shrunk, gap]
    exact (tree.walk_low before holds.root le).symm
  have there : 0 < counts P f.size top low := by
    rw [counts, if_pos le]
    exact blocks_pos before.allocated before.small before.some low
  have sized' : Sized P (max 1 (shrunk P f n h).size) low := by rw [shrunk, one']; exact sized
  have capacity' : (shrunk P f n h).capacity = blocks P (max 1 (shrunk P f n h).size) 0 * itemsPerBucket P := by
    rw [shrunk, one']
    rfl
  have written : syncFrom header (syncTo header (shrunk P f n h) h) = shrunk P f n h :=
    syncFrom_syncTo (sized'.fit count capacity' (root ▸ (tree.placed there).2) holds.flag)
  have released := release_tree supply before sized le (Nat.le_of_lt smaller) holds.layer gap
    ((tree.forget fewer).syncTo (f := shrunk P f n h) holds.inBase) holds.root kept
  refine ⟨_, low, shrunk P f n h, if_neg (by rw [count]; omega), rfl,
    ⟨sized', count, capacity', root, ?_, holds.inBase, ?_, kept, holds.flag⟩⟩
  · have same : counts P (max 1 (shrunk P f n h).size) low = counts P n low := congrArg (counts P · low) one'
    rw [same]
    exact { released with frame := fun _ _ _ _ _ => rfl }
  · exact (syncFrom_congr fun a above below => released.frame _ holds.inBase a above below).trans written

/-- Where the elements lie. -/
theorem locate_element {e : Nat} (below : e < f.size) : locate P (syncFrom header h) e h =
      .ok (node 0 (e / itemsPerBucket P) + e % itemsPerBucket P * P.elemSize) := by
  have one : max 1 f.size = f.size := by omega
  have sized := holds.sized
  have tree := holds.tree
  rw [one] at sized tree
  have inside := element_lt_blocks sized.allocated sized.small below
  have single : f.layer - 1 = (top : Nat) := by rw [holds.layer]; omega
  have walked : h.walk f.rootAddr (digits (gaddrsPerBucket P) top (e / itemsPerBucket P)) =
      node 0 (e / itemsPerBucket P) := by
    have ancestor := fun j => ancestor_lt_blocks sized.allocated sized.small inside j
    refine tree.forest.walk_digits ?_ ?_ fun j before => ?_
    · rw [Nat.zero_add]
      exact holds.root
    · have high := ancestor top
      rw [Nat.zero_add, sized.single] at high
      exact Nat.lt_one_iff.mp high
    · refine ⟨?_, fun equal => ?_⟩
      · show _ < counts P f.size top (0 + j)
        rw [counts, if_pos (by omega)]
        exact ancestor j
      · have same := (Prod.mk.inj equal).1
        omega
  rw [holds.fields, locate, if_pos (by rw [holds.layer]; omega), single, Int.toNat_natCast, walked]

/-- `Write`. -/
theorem write {e : Nat} {v : List UInt8} (below : e < f.size) (length : v.length = P.elemSize) :
    ∃ h', GArray.write P header e v h = .ok h' ∧
      Holds P base header node top f (Function.update items e (some v)) h' := by
  have one : max 1 f.size = f.size := by omega
  have sized := holds.sized
  rw [one] at sized
  have inside : e / itemsPerBucket P < counts P (max 1 f.size) top 0 := by
    rw [counts, if_pos (Nat.zero_le top), one]
    exact element_lt_blocks sized.allocated sized.small below
  have written := holds.tree.writeElement inside length
  refine ⟨_, ?_, ⟨holds.sized, holds.layer, holds.capacity, holds.root, { written with frame := fun _ _ _ _ _ => rfl },
    holds.inBase, ?_, ?_, holds.flag⟩⟩
  · simp only [GArray.write, holds.locate_element below, bind, Except.bind]
    rfl
  · exact (syncFrom_congr fun a above before => written.frame _ holds.inBase a above before).trans holds.fields
  · intro e' v' known
    by_cases same : e' = e
    · rwa [same]
    · rw [Function.update_of_ne same] at known
      exact holds.known e' v' known

/-- `Read` returns what is known of an element. -/
theorem read {e : Nat} {v : List UInt8} (known : items e = some v) : GArray.read P header e h = .ok v := by
  have content := (holds.tree.stored e v known).2.2
  simp only [GArray.read, holds.locate_element (holds.known e v known), bind, Except.bind, content]
  rfl

end

end Holds

theorem small_max (small : Small P n) : Small P (max 1 n) := by
  have positive := items_pos P
  unfold Small at *
  omega

/-- The buckets that the constructor allocates. -/
theorem build_tree (P : Params) (supply : Supply) (size flag : Nat) (ok : h.Ok) (filled : ∀ q ∈ h.live, 0 < q.len)
    (small : Small P size) :
    Returns .memory (build P supply size flag h) fun r => ∃ node top, Sized P (max 1 size) top ∧
      Tree P h.live h.mem node (counts P (max 1 size) top) {(top, 0)} (fun _ => none) r.2 ∧
      r.1 = ⟨node top 0, size, blocks P (max 1 size) 0 * itemsPerBucket P, (top + 1 : Nat), flag⟩ := by
  by_cases allocated : P.bucketSize ≤ Slab.itemSizeMax
  · obtain ⟨top, deep⟩ : ∃ top, depth P (max 1 size) = top + 1 := ⟨_, rfl⟩
    have sized : Sized P (max 1 size) top := ⟨allocated, small_max small, by omega, deep⟩
    have tree := Tree.empty P ok filled (fun _ _ => 0)
    refine (tree.newRoot supply sized rfl).bind fun r built => ?_
    obtain ⟨node, tree, root, _⟩ := built
    have loose : insert (top, 0) (∅ : Set (Nat × Nat)) = {(top, 0)} := by simp
    rw [loose] at tree
    by_cases one : size ≤ itemsPerBucket P
    · have single : blocks P (max 1 size) 0 = 1 := by
        refine Nat.le_antisymm ?_ (blocks_pos allocated sized.small sized.some 0)
        have positive := items_pos P
        rw [blocks_zero_le_iff allocated sized.small]
        omega
      have low : top = 0 := by
        rw [depth, single, Nat.clog_one_right] at deep
        omega
      subst low
      rw [raised_all fun _ _ => rfl] at tree
      dsimp only
      rw [if_pos one]
      refine Returns.ok ⟨node, 0, sized, tree, ?_⟩
      rw [single, Nat.one_mul, root]
      rfl
    · have positive := items_pos P
      have same : max 1 size = size := by omega
      rw [same] at sized tree deep ⊢
      have count : layers P size = (top + 1 : Nat) := by
        rw [layers_eq allocated small, deep]
        have two := gaddrs_two P
        have double : size * 2 ≤ size * gaddrsPerBucket P := Nat.mul_le_mul_left _ two
        omega
      have toNat : (layers P size).toNat = top + 1 := by rw [count]; rfl
      dsimp only
      rw [if_neg one, toNat]
      refine (tree.buildLayers supply sized root).bind fun h' built => ?_
      obtain ⟨node', tree', root'⟩ := built
      refine Returns.ok ⟨node', top, sized, tree', ?_⟩
      rw [root']
      rfl
  · left
    simp only [build, mallocBucket, if_neg allocated, bind, Except.bind]

/-- The array after the constructor. -/
theorem construct_holds (P : Params) (supply : Supply) (size flag : Nat) (ok : h.Ok) (filled : ∀ q ∈ h.live, 0 < q.len)
    (small : Small P size) (flags : flag < 2 ^ 32) :
    Returns .memory (construct P supply size flag h) fun r => ∃ node top f,
      Holds P (⟨r.1, 32⟩ :: h.live) r.1 node top f (fun _ => none) r.2 ∧ f.size = size := by
  refine (build_tree P supply size flag ok filled small).bind fun r ⟨node, top, sized, tree, fields⟩ => ?_
  refine (tree.mallocBase supply (Nat.zero_lt_succ 31)).bind fun q tree' => Returns.ok ⟨node, top, r.1, ?_, ?_⟩
  · have size' : r.1.size = size := by rw [fields]
    refine tree'.holds (by rw [size']) (by rw [size']; exact sized) (by rw [fields]) (by rw [size', fields]) (by rw [fields])
      List.mem_cons_self (fun _ _ known => by cases known) (by rw [fields]; exact flags)
  · rw [fields]

/-- The operations of a program on an array. -/
inductive Op
  | write (idx : Nat) (val : List UInt8)
  | resize (n : Nat)

/-- `Write` and `Resize`. -/
def Op.exec (P : Params) (supply : Supply) (header : Nat) : Op → Heap → Except Heap.Stop Heap
  | write idx val, h => GArray.write P header idx val h
  | resize n, h => GArray.resize P supply header n h

def runOps (P : Params) (supply : Supply) (header : Nat) : List Op → Heap → Except Heap.Stop Heap
  | [], h => .ok h
  | op :: ops, h => op.exec P supply header h >>= runOps P supply header ops

/-- What an array is for: a number of elements, of which those that were written and never cut off have
a known value. -/
structure Abstract where
  size : Nat
  items : Nat → Option (List UInt8)

def Abstract.step (s : Abstract) : Op → Abstract
  | .write idx val => { s with items := Function.update s.items idx (some val) }
  | .resize n => ⟨n, fun e => if e < n then s.items e else none⟩

/-- An element that is written is there, a size that is set needs less than `2 ^ 31` buckets, and if it
is smaller than before then it needs at least one layer by the formula of `Layers`. -/
def Op.Allowed (P : Params) (s : Abstract) : Op → Prop
  | .write idx val => idx < s.size ∧ val.length = P.elemSize
  | .resize n => (n < s.size → itemsPerBucket P < n * gaddrsPerBucket P) ∧ Small P n

def AllAllowed (P : Params) : Abstract → List Op → Prop
  | _, [] => True
  | s, op :: ops => op.Allowed P s ∧ AllAllowed P (s.step op) ops

/-- What a program relies on: nothing outside of an allocated region was written or freed, a known element
is read back, every element lies in an allocated bucket, apart from the others, and the buckets that are
allocated are those that the size needs. -/
structure Represents (P : Params) (base : List Region) (header : Nat) (s : Abstract) (h : Heap) : Prop where
  tame : h.wild = false
  reads : ∀ e v, s.items e = some v → GArray.read P header e h = .ok v
  located : ∀ e < s.size, ∃ a, ∃ bucket ∈ h.live, locate P (syncFrom header h) e h = .ok a ∧
    bucket ∉ base ∧ bucket.Holds a P.elemSize
  apart : ∀ e < s.size, ∀ e' < s.size, e ≠ e' → ∀ a a', locate P (syncFrom header h) e h = .ok a →
    locate P (syncFrom header h) e' h = .ok a' → Region.Apart ⟨a, P.elemSize⟩ ⟨a', P.elemSize⟩
  buckets : ∃ node : Nat → Nat → Nat, (∀ r, r ∈ h.live ↔ r ∈ base ∨ ∃ k i, k < depth P (max 1 s.size) ∧
      i < blocks P (max 1 s.size) k ∧ r = ⟨node k i, P.bucketSize⟩) ∧
    ∀ k i k' i', k < depth P (max 1 s.size) → i < blocks P (max 1 s.size) k → k' < depth P (max 1 s.size) →
      i' < blocks P (max 1 s.size) k' → (k, i) ≠ (k', i') →
      Region.Apart ⟨node k i, P.bucketSize⟩ ⟨node k' i', P.bucketSize⟩

namespace Holds

section
variable (holds : Holds P base header node top f items h)
include holds

theorem element_there {e : Nat} (below : e < f.size) : e / itemsPerBucket P < counts P (max 1 f.size) top 0 := by
  have one : max 1 f.size = f.size := by omega
  have sized := holds.sized
  rw [counts, if_pos (Nat.zero_le top), one]
  rw [one] at sized
  exact element_lt_blocks sized.allocated sized.small below

theorem counts_iff (k i : Nat) :
    i < counts P (max 1 f.size) top k ↔ k < depth P (max 1 f.size) ∧ i < blocks P (max 1 f.size) k := by
  rw [counts, holds.sized.depth, Nat.lt_succ_iff]
  split <;> simp_all

theorem represents : Represents P base header ⟨f.size, items⟩ h := by
  have there := holds.counts_iff
  refine ⟨holds.tree.ok.tame, fun e v known => holds.read known, fun e below => ?_, ?_, node, fun r => ?_, ?_⟩
  · have inside := holds.element_there below
    refine ⟨_, _, holds.tree.bucket_live inside, holds.locate_element below, fun member => ?_,
      Tree.element_inside P _ e⟩
    have clear := holds.tree.clear 0 _ inside _ member
    have positive := Tree.bucket_pos P
    simp only [Region.Apart, Region.stop] at clear
    omega
  · intro e below e' below' different a a' at' at''
    rw [holds.locate_element below, Except.ok.injEq] at at'
    rw [holds.locate_element below', Except.ok.injEq] at at''
    subst at' at''
    exact holds.tree.elements_apart (holds.element_there below) (holds.element_there below') different
  · rw [holds.tree.live]
    simp only [there, and_assoc]
  · intro k i k' i' high below high' below' different
    exact holds.tree.forest.apart k i k' i' ((there k i).mpr ⟨high, below⟩) ((there k' i').mpr ⟨high', below'⟩) different

/-- One operation. -/
theorem step (supply : Supply) {op : Op} (allowed : op.Allowed P ⟨f.size, items⟩) :
    Returns .memory (op.exec P supply header h) fun h' => ∃ node' top' f',
      Holds P base header node' top' f' (Abstract.step ⟨f.size, items⟩ op).items h' ∧
        f'.size = (Abstract.step ⟨f.size, items⟩ op).size := by
  cases op with
  | write idx val =>
    obtain ⟨h', ran, holds'⟩ := holds.write allowed.1 allowed.2
    exact Or.inr ⟨h', ran, node, top, f, holds', rfl⟩
  | resize n =>
    obtain ⟨layered, small⟩ := allowed
    -- an element beyond the size is not known
    have kept : n < f.size ∨ (fun e => if e < n then items e else none) = items := by
      refine (Nat.lt_or_ge n f.size).imp_right fun more => funext fun e => ?_
      split
      · rfl
      · next beyond =>
        cases known : items e with
        | none => rfl
        | some v =>
          have below := holds.known e v known
          omega
    simp only [Op.exec, GArray.resize, holds.fields, Abstract.step]
    rcases Nat.lt_trichotomy f.size n with larger | same | smaller
    · rw [if_pos larger, kept.resolve_left (Nat.lt_asymm larger)]
      exact holds.enlarge supply larger small
    · rw [if_neg (by omega), if_neg (by omega), kept.resolve_left (by omega)]
      exact Returns.ok ⟨node, top, f, holds, same⟩
    · rw [if_neg (Nat.lt_asymm smaller), if_pos smaller]
      obtain ⟨h', top', f', ran, size, holds'⟩ := holds.shrink supply smaller small (layered smaller)
      exact Or.inr ⟨h', ran, node, top', f', holds', size⟩

end

/-- A run of operations. -/
theorem run {s : Abstract} (supply : Supply) (ops : List Op) (holds : Holds P base header node top f s.items h)
    (size : f.size = s.size) (allowed : AllAllowed P s ops) : Returns .memory (runOps P supply header ops h) fun h' =>
      Represents P base header (ops.foldl Abstract.step s) h' := by
  induction ops generalizing s h node top f with
  | nil =>
    refine Returns.ok ?_
    have done := holds.represents
    rwa [size] at done
  | cons op ops ih =>
    have same : s = ⟨f.size, s.items⟩ := by rw [size]
    refine (holds.step supply (same ▸ allowed.1)).bind fun h' ⟨node', top', f', holds', size'⟩ => ?_
    rw [← same] at holds' size'
    exact ih holds' size' allowed.2

end Holds

/-- The constructor, and then a run of operations. -/
def program (P : Params) (supply : Supply) (size flag : Nat) (ops : List Op) (h : Heap) : Except Heap.Stop (Nat × Heap) := do
  let (header, h) ← construct P supply size flag h
  let h ← runOps P supply header ops h
  return (header, h)

/-- Through any sequence of writes and resizes, unless memory runs out, the array represents what was
written to it. -/
theorem program_represents (P : Params) (supply : Supply) (size flag : Nat) (ops : List Op) (h : Heap) (ok : h.Ok)
    (filled : ∀ q ∈ h.live, 0 < q.len) (small : Small P size) (flags : flag < 2 ^ 32)
    (allowed : AllAllowed P ⟨size, fun _ => none⟩ ops) : Returns .memory (program P supply size flag ops h) fun r =>
      Represents P (⟨r.1, 32⟩ :: h.live) r.1 (ops.foldl Abstract.step ⟨size, fun _ => none⟩) r.2 := by
  refine (construct_holds P supply size flag ok filled small flags).bind fun r ⟨node, top, f, holds, size'⟩ => ?_
  exact (holds.run supply ops size' allowed).bind fun h' represents => Returns.ok represents

/-- Two elements of 8 bytes per bucket, and an allocator that never returns a block twice. -/
def pairs : Params := ⟨8, 16, by decide, by decide, by decide⟩

def spaced : Supply := ⟨fun n => 64 * (n + 1), fun _ _ => 0⟩

def noHeap : Heap := ⟨fun _ => 0, [], 0, true, false⟩

/-- An array grows from one bucket to three layers and shrinks to one bucket. -/
def grownAndShrunk : List Op :=
  [.write 1 [1, 2, 3, 4, 5, 6, 7, 8], .resize 5, .write 4 [8, 7, 6, 5, 4, 3, 2, 1], .resize 2]

theorem program_represents_pairs : ∃ header h, program pairs spaced 2 0 grownAndShrunk noHeap = .ok (header, h) ∧
    h.live.length = 2 ∧ Represents pairs [⟨header, 32⟩] header (grownAndShrunk.foldl Abstract.step ⟨2, fun _ => none⟩) h := by
  have few : ∀ n ≤ 5, Small pairs n := by unfold Small; decide
  have length : (program pairs spaced 2 0 grownAndShrunk noHeap).map (fun r => r.2.live.length) = .ok 2 := by
    decide +kernel
  rcases program_represents pairs spaced 2 0 grownAndShrunk noHeap
    ⟨.nil, fun _ member => absurd member List.not_mem_nil, rfl⟩ (fun _ member => absurd member List.not_mem_nil)
    (few 2 (by decide)) (by decide)
    ⟨⟨by decide, rfl⟩, ⟨fun _ => by decide, few 5 (by decide)⟩, ⟨by decide, rfl⟩,
      ⟨fun _ => by decide, few 2 (by decide)⟩, trivial⟩ with failed | ⟨r, ran, represents⟩
  · rw [failed] at length
    cases length
  · rw [ran] at length
    exact ⟨r.1, r.2, ran, Except.ok.inj length, represents⟩

/-- `Resize` to one element of an array with one bucket of two elements and two addresses frees the bucket. -/
theorem resize_one_frees_all :
    (program pairs spaced 2 0 [.write 0 [1, 2, 3, 4, 5, 6, 7, 8], .resize 1] noHeap).map (fun r => (r.1, r.2.live)) =
      .ok (128, [⟨128, 32⟩]) ∧
    (program pairs spaced 2 0 [.write 0 [1, 2, 3, 4, 5, 6, 7, 8], .resize 1] noHeap >>= fun r => GArray.read pairs r.1 0 r.2) =
      .error .undefined := by
  exact ⟨by decide +kernel, by decide +kernel⟩

end Gam.GArray
