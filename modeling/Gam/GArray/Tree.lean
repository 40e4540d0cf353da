import Gam.GArray.Counts

/-!
# The buckets of an array

A `Tree` relates the heap to the buckets of an array: `c` is the number of buckets on each height, `loose`
are the buckets that hang in no slot, and `items` are the elements whose content is known. Beside the
buckets there are the regions `base`, among them the header, which hold what `m₀` holds.
-/

namespace Gam.GArray

open Function

structure Tree (P : Params) (base : List Region) (m₀ : Memory) (node : Nat → Nat → Nat) (c : Nat → Nat)
    (loose : Set (Nat × Nat)) (items : Nat → Option (List UInt8)) (h : Heap) : Prop where
  ok : h.Ok
  filled : ∀ q ∈ base, 0 < q.len
  live : ∀ r, r ∈ h.live ↔ r ∈ base ∨ ∃ k i, i < c k ∧ r = ⟨node k i, P.bucketSize⟩
  clear : ∀ k i, i < c k → ∀ q ∈ base, Region.Apart ⟨node k i, P.bucketSize⟩ q
  forest : Forest h (gaddrsPerBucket P) (fun _ => P.bucketSize) node { x | x.2 < c x.1 }
    { x | x.2 < c x.1 ∧ x ∉ loose }
  frame : ∀ q ∈ base, ∀ a, q.start ≤ a → a < q.stop → h.mem a = m₀ a
  stored : ∀ e v, items e = some v → v.length = P.elemSize ∧ e / itemsPerBucket P < c 0 ∧
    h.mem.load (node 0 (e / itemsPerBucket P) + e % itemsPerBucket P * P.elemSize) P.elemSize = v

/-- The address of a new bucket is added. -/
def place (node : Nat → Nat → Nat) (k i p : Nat) : Nat → Nat → Nat :=
  fun k' i' => if (k', i') = (k, i) then p else node k' i'

/-- The buckets counted by `c` have the same addresses. -/
def Same (c : Nat → Nat) (node node' : Nat → Nat → Nat) : Prop := ∀ k i, i < c k → node' k i = node k i

theorem Same.refl {c : Nat → Nat} {node : Nat → Nat → Nat} : Same c node node := fun _ _ _ => rfl

theorem Same.trans {c c' : Nat → Nat} {node node' node'' : Nat → Nat → Nat} (same : Same c node node')
    (same' : Same c' node' node'') (more : ∀ k, c k ≤ c' k) : Same c node node'' := fun k i below =>
  (same' k i (Nat.lt_of_lt_of_le below (more k))).trans (same k i below)

namespace Tree
variable {P : Params} {base : List Region} {m₀ : Memory} {node : Nat → Nat → Nat} {c : Nat → Nat}
  {loose : Set (Nat × Nat)} {items : Nat → Option (List UInt8)} {h : Heap} {supply : Supply} {k i e : Nat}

theorem bucket_pos (P : Params) : 0 < P.bucketSize := Nat.lt_of_lt_of_le P.positive P.fits

theorem bucket_live (tree : Tree P base m₀ node c loose items h) (below : i < c k) :
    ⟨node k i, P.bucketSize⟩ ∈ h.live :=
  (tree.live _).mpr (Or.inr ⟨k, i, below, rfl⟩)

theorem nonempty (tree : Tree P base m₀ node c loose items h) : ∀ q ∈ h.live, 0 < q.len := by
  intro q member
  rcases (tree.live q).mp member with other | ⟨k, i, _, rfl⟩
  · exact tree.filled q other
  · exact bucket_pos P

theorem placed (tree : Tree P base m₀ node c loose items h) (below : i < c k) : 0 < node k i ∧ node k i < 2 ^ 64 := by
  have bounds := tree.ok.placed _ (tree.bucket_live below)
  have positive := bucket_pos P
  simp only [Region.stop] at bounds
  omega

/-- The place of an element lies inside its bucket. -/
theorem element_inside (P : Params) (p e : Nat) :
    Region.Holds ⟨p, P.bucketSize⟩ (p + e % itemsPerBucket P * P.elemSize) P.elemSize := by
  have slot : Region.Holds ⟨p, P.elemSize * itemsPerBucket P⟩ (p + e % itemsPerBucket P * P.elemSize) P.elemSize :=
    Region.slot_holds (Nat.mod_lt e (items_pos P))
  have room := items_room P
  simp only [Region.Holds, Region.stop] at slot ⊢
  omega

/-- The slot of a bucket lies inside its parent. -/
theorem slot_inside (P : Params) (node : Nat → Nat → Nat) (k i : Nat) :
    Region.Holds ⟨node (k + 1) (i / gaddrsPerBucket P), P.bucketSize⟩
      (node (k + 1) (i / gaddrsPerBucket P) + 8 * (i % gaddrsPerBucket P)) 8 := by
  have below := Nat.mod_lt i (Nat.lt_of_lt_of_le Nat.two_pos (gaddrs_two P))
  have room := gaddrs_room P
  simp only [Region.Holds, Region.stop]
  omega

theorem count_succ (c : Nat → Nat) (k : Nat) :
    { x : Nat × Nat | x.2 < update c k (c k + 1) x.1 } = insert (k, c k) { x | x.2 < c x.1 } := by
  ext ⟨k', i'⟩
  simp only [Set.mem_ofPred_eq, Set.mem_insert_iff, Prod.mk.injEq]
  by_cases same : k' = k
  · subst same
    rw [update_self, Nat.lt_succ_iff_lt_or_eq]
    simp [or_comm]
  · rw [update_of_ne same]
    simp [same]

/-- A new bucket hangs nowhere at first. -/
theorem malloc (tree : Tree P base m₀ node c loose items h) (supply : Supply) (k : Nat) :
    Returns .memory (mallocBucket P supply h) fun r =>
      Tree P base m₀ (place node k (c k) r.1) (update c k (c k + 1)) (insert (k, c k) loose) items r.2 := by
  unfold mallocBucket Heap.malloc
  split
  · split
    · next sound =>
      refine Returns.ok ?_
      obtain ⟨_, _, apart⟩ := (Heap.alloc_fresh sound).2
      have kept : ∀ {k' i'}, i' < c k' → place node k (c k) (h.alloc supply P.bucketSize).1 k' i' = node k' i' := by
        intro k' i' below
        refine if_neg fun same => ?_
        obtain ⟨rfl, rfl⟩ := Prod.mk.inj same
        exact Nat.lt_irrefl _ below
      have fresh : (k, c k) ∉ { x : Nat × Nat | x.2 < c x.1 } := Nat.lt_irrefl (c k)
      have cases' : ∀ {k' i'}, i' < update c k (c k + 1) k' → (k', i') = (k, c k) ∨ i' < c k' := by
        intro k' i' below
        have member : (k', i') ∈ { x : Nat × Nat | x.2 < update c k (c k + 1) x.1 } := below
        rwa [count_succ] at member
      refine ⟨tree.ok.alloc sound, tree.filled, ?_, ?_, ?_, tree.frame, ?_⟩
      · intro r
        rw [Heap.alloc_live, List.mem_cons, tree.live]
        constructor
        · rintro (rfl | other | ⟨k', i', below, rfl⟩)
          · exact Or.inr ⟨k, c k, by simp, by simp [place]⟩
          · exact Or.inl other
          · refine Or.inr ⟨k', i', ?_, by rw [kept below]⟩
            have member := Set.mem_insert_of_mem (k, c k) (show (k', i') ∈ { x : Nat × Nat | x.2 < c x.1 } from below)
            rwa [← count_succ] at member
        · rintro (other | ⟨k', i', below, rfl⟩)
          · exact Or.inr (Or.inl other)
          · rcases cases' below with same | old
            · cases same
              exact Or.inl (by simp [place])
            · exact Or.inr (Or.inr ⟨k', i', old, by rw [kept old]⟩)
      · intro k' i' below q other
        rcases cases' below with same | old
        · cases same
          rw [place, if_pos rfl]
          exact apart q ((tree.live q).mpr (Or.inl other))
        · rw [kept old]
          exact tree.clear k' i' old q other
      · have grown := tree.forest.grow fresh sound
        rw [← count_succ] at grown
        refine grown.restrict (fun _ member => member) ?_ ?_
        · rintro ⟨k', i'⟩ ⟨below, hung⟩
          rcases cases' below with same | old
          · exact absurd (Or.inl same) hung
          · exact ⟨old, fun member => hung (Or.inr member)⟩
        · rintro k' i' ⟨below, hung⟩
          rcases cases' below with same | old
          · exact absurd (Or.inl same) hung
          · exact grown.parent k' i' ⟨old, fun member => hung (Or.inr member)⟩
      · intro e v known
        obtain ⟨length, below, content⟩ := tree.stored e v known
        refine ⟨length, ?_, by rw [kept below]; exact content⟩
        by_cases same : 0 = k
        · subst same
          rw [update_self]
          omega
        · rwa [update_of_ne same]
    · exact Or.inl rfl
  · exact Or.inl rfl

/-- What a write into a bucket above the lowest layer leaves alone. -/
theorem stored_above {h' : Heap} {p len : Nat} (tree : Tree P base m₀ node c loose items h) (below : i < c (k + 1))
    (inside : Region.Holds ⟨node (k + 1) i, P.bucketSize⟩ p len)
    (same : ∀ a, a < p ∨ p + len ≤ a → h'.mem a = h.mem a) :
    (∀ q ∈ base, ∀ a, q.start ≤ a → a < q.stop → h'.mem a = m₀ a) ∧
      ∀ e v, items e = some v → v.length = P.elemSize ∧ e / itemsPerBucket P < c 0 ∧
        h'.mem.load (node 0 (e / itemsPerBucket P) + e % itemsPerBucket P * P.elemSize) P.elemSize = v := by
  constructor
  · intro q other a above before
    rw [← tree.frame q other a above before]
    have apart := tree.clear (k + 1) i below q other
    simp only [Region.Apart, Region.Holds, Region.stop] at apart inside before
    exact same a (by omega)
  · intro e v known
    obtain ⟨length, there, content⟩ := tree.stored e v known
    refine ⟨length, there, ?_⟩
    rw [← content]
    apply List.map_congr_left
    intro b member
    rw [List.mem_range] at member
    have apart := tree.forest.apart _ _ _ _ below there (by simp)
    have slot := element_inside P (node 0 (e / itemsPerBucket P)) e
    simp only [Region.Apart, Region.Holds, Region.stop] at apart inside slot
    exact same _ (by omega)

/-- A bucket is hung into the slot of its parent. -/
theorem link (tree : Tree P base m₀ node c loose items h) (below : i < c k)
    (parent : i / gaddrsPerBucket P < c (k + 1)) : Tree P base m₀ node c (loose \ {(k, i)}) items
      (h.writeWord (node (k + 1) (i / gaddrsPerBucket P) + 8 * (i % gaddrsPerBucket P)) (node k i)) := by
  have two := gaddrs_two P
  have inside := slot_inside P node k i
  have same : ∀ a, _ → (h.writeWord (node (k + 1) (i / gaddrsPerBucket P) + 8 * (i % gaddrsPerBucket P))
      (node k i)).mem a = h.mem a := fun a away => Memory.store_outside (by rwa [length_bytesOf])
  obtain ⟨frame, stored⟩ := tree.stored_above parent inside same
  refine ⟨tree.ok.writeWord (tree.bucket_live parent) inside, tree.filled, tree.live, tree.clear, ?_, frame, stored⟩
  have linked := tree.forest.link below parent (fun _ => gaddrs_room P) (by omega) (tree.placed below).2
  refine linked.restrict (fun _ member => member) ?_ ?_
  · rintro x ⟨there, hung⟩
    by_cases same : x = (k, i)
    · exact Or.inl same
    · exact Or.inr ⟨there, fun member => hung ⟨member, same⟩⟩
  · rintro k' i' ⟨there, hung⟩
    by_cases same : (k', i') = (k, i)
    · cases same
      exact ⟨below, parent⟩
    · exact tree.forest.parent k' i' ⟨there, fun member => hung ⟨member, same⟩⟩

/-- A link that is no longer followed. -/
theorem loosen {loose' : Set (Nat × Nat)} (tree : Tree P base m₀ node c loose items h)
    (more : ∀ x : Nat × Nat, x.2 < c x.1 → x ∈ loose → x ∈ loose') : Tree P base m₀ node c loose' items h :=
  { tree with
    forest := tree.forest.restrict (fun _ member => member)
      (fun x member => ⟨member.1, fun old => member.2 (more x member.1 old)⟩)
      fun k i member => tree.forest.parent k i ⟨member.1, fun old => member.2 (more (k, i) member.1 old)⟩ }

/-- A write beside the buckets. -/
theorem writeBase {q : Region} {p : Nat} {data : List UInt8} (tree : Tree P base m₀ node c loose items h)
    (other : q ∈ base) (inside : q.Holds p data.length) :
    Tree P base (h.write p data).mem node c loose items (h.write p data) := by
  have away : ∀ {k i}, i < c k → ∀ a, node k i ≤ a → a < node k i + P.bucketSize → (h.write p data).mem a = h.mem a := by
    intro k i below a above before
    have apart := tree.clear k i below q other
    simp only [Region.Apart, Region.Holds, Region.stop] at apart inside
    exact Memory.store_outside (by omega)
  refine ⟨tree.ok.write ((tree.live q).mpr (Or.inl other)) inside, tree.filled, tree.live, tree.clear, ?_,
    fun _ _ _ _ _ => rfl, ?_⟩
  · refine tree.forest.of_same tree.forest.live fun k i member => ?_
    have parent : i / gaddrsPerBucket P < c (k + 1) := (tree.forest.parent k i member).2
    have slot := slot_inside P node k i
    simp only [Region.Holds, Region.stop] at slot
    rw [Heap.readWord, Heap.readWord]
    congr 1
    apply List.map_congr_left
    intro b listed
    rw [List.mem_range] at listed
    exact away parent _ (by omega) (by omega)
  · intro e v known
    obtain ⟨length, there, content⟩ := tree.stored e v known
    refine ⟨length, there, ?_⟩
    rw [← content]
    apply List.map_congr_left
    intro b listed
    rw [List.mem_range] at listed
    have slot := element_inside P (node 0 (e / itemsPerBucket P)) e
    simp only [Region.Holds, Region.stop] at slot
    exact away there _ (by omega) (by omega)

/-- The places of different elements lie apart. -/
theorem elements_apart {e' : Nat} (tree : Tree P base m₀ node c loose items h) (there : e / itemsPerBucket P < c 0)
    (there' : e' / itemsPerBucket P < c 0) (different : e ≠ e') :
    Region.Apart ⟨node 0 (e / itemsPerBucket P) + e % itemsPerBucket P * P.elemSize, P.elemSize⟩
      ⟨node 0 (e' / itemsPerBucket P) + e' % itemsPerBucket P * P.elemSize, P.elemSize⟩ := by
  by_cases same : e / itemsPerBucket P = e' / itemsPerBucket P
  · rw [same]
    apply Region.slots_apart
    intro slots
    apply different
    rw [← Nat.div_add_mod e (itemsPerBucket P), ← Nat.div_add_mod e' (itemsPerBucket P), same, slots]
  · exact (tree.forest.apart _ _ _ _ there there' (by simpa using same)).pieces (element_inside P _ e)
      (element_inside P _ e')

/-- An element is written. -/
theorem writeElement {v : List UInt8} (tree : Tree P base m₀ node c loose items h) (there : e / itemsPerBucket P < c 0)
    (length : v.length = P.elemSize) : Tree P base m₀ node c loose (update items e (some v))
      (h.write (node 0 (e / itemsPerBucket P) + e % itemsPerBucket P * P.elemSize) v) := by
  have inside := element_inside P (node 0 (e / itemsPerBucket P)) e
  refine ⟨tree.ok.write (tree.bucket_live there) (by rwa [length]), tree.filled, tree.live, tree.clear, ?_, ?_, ?_⟩
  · refine tree.forest.of_same tree.forest.live fun k i member => ?_
    have apart := tree.forest.apart _ _ _ _ (tree.forest.parent k i member).2 there (by simp)
    have pieces := apart.pieces (slot_inside P node k i) inside
    simp only [Region.Apart, Region.stop] at pieces
    rw [Heap.readWord, Heap.readWord]
    exact congrArg valueOf (Memory.load_store_apart (by rwa [length]))
  · intro q other a above before
    rw [← tree.frame q other a above before]
    have apart := tree.clear 0 _ there q other
    simp only [Region.Apart, Region.Holds, Region.stop] at apart inside before
    exact Memory.store_outside (by omega)
  · intro e' v' known
    by_cases same : e' = e
    · subst same
      rw [update_self, Option.some.injEq] at known
      subst known
      refine ⟨length, there, ?_⟩
      rw [← length]
      exact Memory.load_store
    · rw [update_of_ne same] at known
      obtain ⟨length', there', content⟩ := tree.stored e' v' known
      refine ⟨length', there', ?_⟩
      have apart := tree.elements_apart there' there same
      simp only [Region.Apart, Region.stop] at apart
      rw [← content]
      exact Memory.load_store_apart (by rwa [length])

theorem count_pred (c : Nat → Nat) (last : c k = i + 1) {k' i' : Nat} :
    i' < update c k i k' ↔ i' < c k' ∧ (k', i') ≠ (k, i) := by
  by_cases same : k' = k
  · subst same
    rw [update_self, last, ne_eq, Prod.mk.injEq]
    omega
  · rw [update_of_ne same]
    simp [same]

/-- The last bucket of its height is freed, when no bucket hangs in it and no element is kept in it. -/
theorem free (tree : Tree P base m₀ node c loose items h) (supply : Supply) (last : c k = i + 1)
    (alone : ∀ k' i', k' + 1 = k → i' < c k' → (k', i') ∉ loose → i' / gaddrsPerBucket P ≠ i)
    (unused : k = 0 → ∀ e v, items e = some v → e / itemsPerBucket P ≠ i) :
    Tree P base m₀ node (update c k i) loose items (h.free supply (node k i)) := by
  have there : i < c k := by omega
  obtain ⟨ok, live, same⟩ := tree.ok.free supply tree.nonempty (tree.bucket_live there)
  -- other buckets and regions are elsewhere, so their bytes stay
  have elsewhere : ∀ {k' i'}, i' < c k' → (k', i') ≠ (k, i) →
      Region.Apart ⟨node k' i', P.bucketSize⟩ ⟨node k i, P.bucketSize⟩ := fun below different =>
    tree.forest.apart _ _ _ _ below there different
  have kept : ∀ {p len : Nat}, Region.Apart ⟨p, len⟩ ⟨node k i, P.bucketSize⟩ →
      (h.free supply (node k i)).mem.load p len = h.mem.load p len := by
    intro p len apart
    apply List.map_congr_left
    intro b listed
    rw [List.mem_range] at listed
    simp only [Region.Apart, Region.stop] at apart
    exact same _ (by simp only [Region.stop]; omega)
  refine ⟨ok, tree.filled, ?_, ?_, ?_, ?_, ?_⟩
  · intro r
    rw [live, tree.live]
    constructor
    · rintro ⟨other | ⟨k', i', below, rfl⟩, different⟩
      · exact Or.inl other
      · refine Or.inr ⟨k', i', (count_pred c last).mpr ⟨below, ?_⟩, rfl⟩
        intro equal
        cases equal
        exact different rfl
    · rintro (other | ⟨k', i', below, rfl⟩)
      · refine ⟨Or.inl other, ?_⟩
        rintro rfl
        have apart := tree.clear k i there _ other
        have positive := bucket_pos P
        simp only [Region.Apart, Region.stop] at apart
        omega
      · obtain ⟨below, different⟩ := (count_pred c last).mp below
        refine ⟨Or.inr ⟨k', i', below, rfl⟩, ?_⟩
        intro equal
        have apart := elsewhere below different
        have positive := bucket_pos P
        rw [equal] at apart
        simp only [Region.Apart, Region.stop] at apart
        omega
  · intro k' i' below q other
    exact tree.clear k' i' ((count_pred c last).mp below).1 q other
  · have fewer : { x : Nat × Nat | x.2 < update c k i x.1 } ⊆ { x | x.2 < c x.1 } :=
      fun x member => ((count_pred c last).mp member).1
    have parents : ∀ k' i', i' < update c k i k' → (k', i') ∉ loose →
        i' / gaddrsPerBucket P < update c k i (k' + 1) := by
      intro k' i' below hung
      have old := ((count_pred c last).mp below).1
      refine (count_pred c last).mpr ⟨(tree.forest.parent k' i' ⟨old, hung⟩).2, fun equal => ?_⟩
      obtain ⟨height, index⟩ := Prod.mk.inj equal
      exact alone k' i' height old hung index
    have restricted : Forest h (gaddrsPerBucket P) (fun _ => P.bucketSize) node
        { x | x.2 < update c k i x.1 } { x | x.2 < update c k i x.1 ∧ x ∉ loose } :=
      tree.forest.restrict fewer (fun x member => ⟨fewer member.1, member.2⟩) fun k' i' member =>
        ⟨member.1, parents k' i' member.1 member.2⟩
    refine restricted.of_same (fun k' i' below => ?_) fun k' i' member => ?_
    · obtain ⟨old, different⟩ := (count_pred c last).mp below
      refine (live _).mpr ⟨tree.bucket_live old, fun equal => ?_⟩
      have apart := elsewhere old different
      have positive := bucket_pos P
      rw [equal] at apart
      simp only [Region.Apart, Region.stop] at apart
      omega
    · obtain ⟨old, different⟩ := (count_pred c last).mp (parents k' i' member.1 member.2)
      rw [Heap.readWord, Heap.readWord, kept]
      have apart := elsewhere old different
      have slot := slot_inside P node k' i'
      simp only [Region.Apart, Region.Holds, Region.stop] at apart slot ⊢
      omega
  · intro q other a above before
    rw [← tree.frame q other a above before]
    have apart := tree.clear k i there q other
    simp only [Region.Apart, Region.stop] at apart before
    exact same a (by simp only [Region.stop]; omega)
  · intro e v known
    obtain ⟨length, old, content⟩ := tree.stored e v known
    have different : (0, e / itemsPerBucket P) ≠ (k, i) := by
      intro equal
      obtain ⟨height, index⟩ := Prod.mk.inj equal
      exact unused height.symm e v known index
    refine ⟨length, (count_pred c last).mpr ⟨old, different⟩, ?_⟩
    rw [kept, content]
    have apart := elsewhere old different
    have slot := element_inside P (node 0 (e / itemsPerBucket P)) e
    simp only [Region.Apart, Region.Holds, Region.stop] at apart slot ⊢
    omega

/-- A new region beside the buckets. -/
theorem mallocBase (tree : Tree P base m₀ node c loose items h) (supply : Supply) {size : Nat} (positive : 0 < size) :
    Returns .memory (h.malloc supply size) fun r =>
      Tree P (⟨r.1, size⟩ :: base) r.2.mem node c loose items r.2 := by
  unfold Heap.malloc
  split
  · next sound =>
    refine Returns.ok ?_
    obtain ⟨_, _, apart⟩ := (Heap.alloc_fresh sound).2
    refine ⟨tree.ok.alloc sound, ?_, ?_, ?_, ?_, fun _ _ _ _ _ => rfl, tree.stored⟩
    · intro q member
      rcases List.mem_cons.mp member with rfl | old
      · exact positive
      · exact tree.filled q old
    · intro r
      rw [Heap.alloc_live, List.mem_cons, List.mem_cons, tree.live, or_assoc]
    · intro k i below q member
      rcases List.mem_cons.mp member with rfl | old
      · exact (apart _ (tree.bucket_live below)).symm
      · exact tree.clear k i below q old
    · exact tree.forest.of_same (fun k i below => List.mem_cons_of_mem _ (tree.bucket_live below)) fun _ _ _ => rfl
  · exact Or.inl rfl

end Tree

end Gam.GArray
