import Gam.Slab.Core

/-! The calls of the allocator keep `Core`, and what they hand out and take back. -/

namespace Gam.Slab.Core

open Function

variable {s t : SlabAllocator} {live : List Chunk} {free : Nat → List Nat}
  {owner : Nat → Option Nat} {id p ptr size requested : Nat}

/-! ## A chunk is taken from a free list -/

/-- What is left of a free list. -/
def taken (free : Nat → List Nat) (id : Nat) : Nat → List Nat := update free id (free id).tail

/-- The chunks of a free list, by its pointers. -/
theorem slots_cons (core : Core s live free owner) (slots : (s.slabclass id).slots = some ptr) :
    free id = ptr :: (free id).tail ∧ Linked s.next s.prev none (some ptr) (ptr :: (free id).tail) := by
  have linked := core.linked id
  cases list : free id with
  | nil =>
    rw [list, slots] at linked
    cases linked
  | cons x rest =>
    rw [list, slots] at linked
    obtain rfl := Option.some.inj linked.1
    exact ⟨rfl, linked⟩

/-- The chunk is in use, and the lists go on without it. -/
theorem take (core : Core s live free owner) (last : id ≤ s.powerLargest)
    (slots : (s.slabclass id).slots = some ptr) (nonzero : size ≠ 0) (requested : Nat) :
    ∃ t, s.takeSlot size id = (some ptr, t) ∧ Core t (⟨ptr, requested, id⟩ :: live) (taken free id) owner ∧
      t.classOf ptr = id ∧ t.sizes = s.sizes ∧ t.memBase = s.memBase ∧ t.memLimit = s.memLimit ∧
      t.memFree = (s.memFree + 2 ^ 64 - s.size id) % 2 ^ 64 := by
  obtain ⟨list, linked⟩ := core.slots_cons slots
  have listed : ptr ∈ free id := core.slots_mem slots
  obtain ⟨owned, it, found, cleared⟩ := core.freed id ptr listed
  have distinct := core.distinct id
  rw [list] at distinct
  obtain ⟨gone, distinct⟩ := List.nodup_cons.mp distinct
  have narrow : id % 2 ^ 8 = id := by
    have few := core.few
    rw [SlabAllocator.powerLargest] at last
    exact Nat.mod_eq_of_lt (by omega)
  have next : s.next ptr = it.next := by rw [SlabAllocator.next, found, Option.bind_some]
  -- the new front of the list is another chunk of it
  have front : ∀ y, it.next = some y → y ∈ (free id).tail := fun y ahead =>
    Linked.start_mem ((next.trans ahead) ▸ linked.2.2)
  obtain ⟨t, ran, own, class', relinks, memFree⟩ : ∃ t, s.takeSlot size id = (some ptr, t) ∧
      t.statsMap ptr = some { it with size := size, slabsClsid := id } ∧
      t.slabclass = update s.slabclass id { s.slabclass id with
        slots := it.next, slCurr := ((s.slabclass id).slCurr + 2 ^ 32 - 1) % 2 ^ 32 } ∧
      Relinks s t id ptr it.next none ∧ t.memFree = (s.memFree + 2 ^ 64 - s.size id) % 2 ^ 64 := by
    simp only [SlabAllocator.takeSlot, slots, found, narrow]
    refine ⟨_, rfl, update_self .., rfl, ⟨fun p other => (update_of_ne other _ _).trans ?_,
      fun jd other => update_of_ne other _ _, rfl, rfl, rfl, rfl, rfl⟩, rfl⟩
    cases ahead : it.next with
    | none => rfl
    | some y =>
      by_cases head : y = p
      · subst head
        rw [if_pos rfl]
        exact update_self ..
      · rw [if_neg fun equal => head (Option.some.inj equal)]
        exact update_of_ne (Ne.symm head) _ _
  have other : ∀ y ∈ (free id).tail, y ≠ ptr := fun y member here => gone (here ▸ member)
  refine ⟨t, ran, ?_, by rw [SlabAllocator.classOf, own], relinks.sizes, relinks.memBase, relinks.memLimit, memFree⟩
  refine relink relinks core owned (fun y ahead => List.mem_of_mem_tail (front y ahead)) ?_ distinct ?_
    (fun p member => Or.inl ⟨other p member, List.mem_of_mem_tail member⟩) ?_ ?_
  · rw [class', update_self, ← next]
    refine linked.pop distinct (fun y ahead => ?_) (fun y member => relinks.next (other y member))
      fun y member behind => relinks.prev (other y member) (next ▸ behind)
    rw [next] at ahead
    obtain ⟨_, it', found', _⟩ := core.freed id y (List.mem_of_mem_tail (front y ahead))
    rw [SlabAllocator.prev, relinks.items y (other y (front y ahead)), if_pos ahead, found']
    rfl
  · have before := core.curr id
    rw [list, List.length_cons] at before
    rw [class', update_self]
    simp only [before]
    omega
  · intro c member
    rcases List.mem_cons.mp member with rfl | old
    · exact Or.inr ⟨rfl, rfl, _, own, rfl, nonzero⟩
    · exact Or.inl ⟨core.free_not_live listed old, old⟩
  · rw [List.map_cons, List.nodup_cons]
    refine ⟨fun member => ?_, core.pointers⟩
    obtain ⟨c, old, here⟩ := List.mem_map.mp member
    exact core.free_not_live listed old here

/-- The front of a free list that is not counted as empty. -/
theorem slots_some (core : Core s live free owner) (counted : (s.slabclass id).slCurr ≠ 0) :
    ∃ ptr, (s.slabclass id).slots = some ptr := by
  have linked := core.linked id
  rw [core.curr id] at counted
  cases list : free id with
  | nil =>
    rw [list] at counted
    exact absurd rfl counted
  | cons x rest =>
    rw [list] at linked
    exact ⟨x, linked.1⟩

/-! ## A chunk is given back -/

/-- The entry of an address is written. -/
def withEntry (s : SlabAllocator) (p : Nat) (it : Item) : SlabAllocator :=
  { s with statsMap := update s.statsMap p (some it) }

/-- The entry of a chunk in use is written. -/
theorem setEntry {c : Chunk} (core : Core s live free owner) (member : c ∈ live) (it : Item) {live' : List Chunk}
    (held : ∀ d ∈ live', d.ptr ≠ c.ptr ∧ d ∈ live ∨ d.ptr = c.ptr ∧ d.id = c.id ∧ it.slabsClsid = c.id ∧ it.size ≠ 0)
    (pointers : (live'.map Chunk.ptr).Nodup) : Core (withEntry s c.ptr it) live' free owner := by
  have other : ∀ jd p, p ∈ free jd → p ≠ c.ptr := fun jd p listed same => core.free_not_live listed member same.symm
  have entries : ∀ p, p ≠ c.ptr → (withEntry s c.ptr it).statsMap p = s.statsMap p := fun p different =>
    update_of_ne different _ _
  exact
    { core with
      linked := fun jd => (core.linked jd).congr fun y listed => by
        simp only [SlabAllocator.next, SlabAllocator.prev, entries y (other jd y listed), and_self]
      known := fun p it' found' => by
        by_cases same : p = c.ptr
        · exact ⟨c.id, same ▸ (core.held c member).1⟩
        · exact core.known p it' ((entries p same).symm.trans found')
      freed := fun jd p listed => by
        rw [entries p (other jd p listed)]
        exact core.freed jd p listed
      held := fun d kept => by
        rcases held d kept with ⟨different, old⟩ | ⟨same, class', used, size⟩
        · rw [entries d.ptr different]
          exact core.held d old
        · rw [same, class']
          exact ⟨(core.held c member).1, it, update_self .., used, size⟩
      pointers := pointers }

/-- The chunks in use but for one. -/
theorem without (core : Core s live free owner) (c : Chunk) :
    (∀ d ∈ live.filter fun d => d.ptr ≠ c.ptr, d.ptr ≠ c.ptr ∧ d ∈ live) ∧ ((live.filter fun d => d.ptr ≠ c.ptr).map Chunk.ptr).Nodup :=
  ⟨fun _ kept => ⟨of_decide_eq_true (List.mem_filter.mp kept).2, (List.mem_filter.mp kept).1⟩,
    core.pointers.sublist (List.filter_sublist.map _)⟩

/-- The chunk goes to the free list of its class. -/
theorem giveBack {c : Chunk} (core : Core s live free owner) (member : c ∈ live) (it : Item) (cleared : it.slabsClsid = 0)
    (nonzero : size ≠ 0) :
    ∃ free', Core ((withEntry s c.ptr it).doSlabsFree c.ptr size c.id) (live.filter fun d => d.ptr ≠ c.ptr) free' owner ∧
      c.ptr ∈ free' c.id ∧ ((withEntry s c.ptr it).doSlabsFree c.ptr size c.id).memBase = s.memBase ∧
      ((withEntry s c.ptr it).doSlabsFree c.ptr size c.id).memLimit = s.memLimit ∧
      ((withEntry s c.ptr it).doSlabsFree c.ptr size c.id).memFree = (s.memFree + s.size c.id) % 2 ^ 64 := by
  obtain ⟨owned, _⟩ := core.held c member
  obtain ⟨first, last⟩ := core.classed _ _ owned
  obtain ⟨others, pointers⟩ := core.without c
  refine ⟨_, (core.setEntry member it (fun d kept => Or.inl (others d kept)) pointers).push owned
    (fun jd listed => core.free_not_live listed member rfl) (fun d kept => (others d kept).1) (fun it' found' => ?_) size, ?_, ?_⟩
  · have own : (withEntry s c.ptr it).statsMap c.ptr = some it := update_self ..
    rw [← Option.some.inj (own.symm.trans found')]
    exact cleared
  · rw [update_self]
    exact List.mem_cons_self
  · rw [SlabAllocator.doSlabsFree, if_neg (by
      show ¬(c.id < 1 ∨ s.powerLargest < c.id)
      omega)]
    exact ⟨rfl, rfl, if_pos nonzero⟩

/-- A region with a chunk is not empty. -/
theorem memLimit_ne (core : Core s live free owner) (owned : owner p = some id) : s.memLimit ≠ 0 := by
  have inside := core.inside _ _ owned
  have least := core.owned_least owned
  have region := core.region
  omega

/-- `sb_free`. -/
theorem drop {c : Chunk} (core : Core s live free owner) (member : c ∈ live) :
    ∃ it size, s.sbFree c.ptr = some ((withEntry s c.ptr it).doSlabsFree c.ptr size c.id) ∧ it.slabsClsid = 0 ∧ size ≠ 0 := by
  obtain ⟨owned, it, found, used, size⟩ := core.held c member
  have nonzero := core.memLimit_ne owned
  refine ⟨{ it with slabsClsid := 0, size := 0 }, it.size, ?_, rfl, size⟩
  simp only [SlabAllocator.sbFree, if_neg nonzero, found, used, withEntry]

/-! ## An allocation -/

/-- What an allocation leaves of the numbers of the allocator. -/
structure Allots (s t : SlabAllocator) (live live' : List Chunk) : Prop where
  sizes : t.sizes = s.sizes
  memBase : t.memBase = s.memBase
  memLimit : t.memLimit = s.memLimit
  memFree : (live' = live ∧ t.memFree = s.memFree) ∨
    ∃ c, live' = c :: live ∧ t.memFree = (s.memFree + 2 ^ 64 - s.size c.id) % 2 ^ 64

/-- `do_slabs_alloc`: nothing, or a chunk of the class. -/
theorem alloc (core : Core s live free owner) (size id : Nat) (nonzero : size ≠ 0) (ok : Bool) (requested : Nat) :
    ∃ free' owner', (s.doSlabsAlloc size id ok).1 = none ∧ Core (s.doSlabsAlloc size id ok).2 live free' owner' ∧
        Kept s (s.doSlabsAlloc size id ok).2 ∨
      ∃ ptr, (s.doSlabsAlloc size id ok).1 = some ptr ∧ 1 ≤ id ∧ id ≤ s.powerLargest ∧
        Core (s.doSlabsAlloc size id ok).2 (⟨ptr, requested, id⟩ :: live) free' owner' ∧
        (s.doSlabsAlloc size id ok).2.classOf ptr = id ∧
        Allots s (s.doSlabsAlloc size id ok).2 live (⟨ptr, requested, id⟩ :: live) := by
  unfold SlabAllocator.doSlabsAlloc
  split
  · exact ⟨free, owner, Or.inl ⟨rfl, core, rfl, rfl, rfl, rfl⟩⟩
  · next valid =>
    have first : 1 ≤ id := by omega
    have last : id ≤ s.powerLargest := by omega
    obtain ⟨free', owner', core', kept⟩ : ∃ free' owner', Core (if (s.slabclass id).slCurr ≠ 0 then s
        else (s.doSlabsNewslab id ok).2) live free' owner' ∧
        Kept s (if (s.slabclass id).slCurr ≠ 0 then s else (s.doSlabsNewslab id ok).2) := by
      split
      · exact ⟨free, owner, core, rfl, rfl, rfl, rfl⟩
      · exact core.newslab first last ok
    dsimp only
    generalize (if (s.slabclass id).slCurr ≠ 0 then s else (s.doSlabsNewslab id ok).2) = s' at core' kept ⊢
    split
    · next counted =>
      obtain ⟨ptr, slots⟩ := core'.slots_some counted
      have last' : id ≤ s'.powerLargest := by rwa [SlabAllocator.powerLargest, kept.sizes]
      obtain ⟨t, ran, done, class', sizes, base, limit, memFree⟩ := core'.take last' slots nonzero requested
      refine ⟨_, owner', Or.inr ⟨ptr, by rw [ran], first, last, by rw [ran]; exact done, by rw [ran]; exact class', ?_⟩⟩
      rw [ran]
      refine ⟨sizes.trans kept.sizes, base.trans kept.memBase, limit.trans kept.memLimit, Or.inr ⟨_, rfl, ?_⟩⟩
      rw [memFree, kept.memFree, SlabAllocator.size, SlabAllocator.size, kept.sizes]
    · exact ⟨free', owner', Or.inl ⟨rfl, core', kept⟩⟩

end Gam.Slab.Core
