import Gam.Slab.Calls

/-!
# Runs of the allocator

`Valid` holds after `slabs_init` and is kept by every call.
-/

namespace Gam.Slab

/-- A heap over the region of `limit` bytes at `base`, with the classes `sizes`. `get_avail` is exact as
long as the limit fits its type. -/
structure Heap.Valid (sizes : List Nat) (base limit : Nat) (h : Heap) : Prop where
  core : ∃ free owner, Core h.alloc h.live free owner
  sizes_eq : h.alloc.sizes = sizes
  base_eq : h.alloc.memBase = base
  limit_eq : h.alloc.memLimit = limit
  account : limit < 2 ^ 64 → h.alloc.memFree + (h.live.map fun c => h.alloc.size c.id).sum = limit

namespace Heap

variable {sizes : List Nat} {base limit : Nat} {h h' : Heap}

/-- The chunks in use are accounted for by the sizes of their classes only. -/
theorem sizes_sum {s t : SlabAllocator} (same : t.sizes = s.sizes) (live : List Chunk) :
    (live.map fun c => t.size c.id).sum = (live.map fun c => s.size c.id).sum := by
  simp only [SlabAllocator.size, same]

/-! ## `slabs_init` -/

theorem valid_preallocate (ok : Nat → Bool) (ids : List Nat) {s t : SlabAllocator} (valid : Valid sizes base limit ⟨s, []⟩)
    (classes : ∀ id ∈ ids, 1 ≤ id ∧ id ≤ sizes.length) (ran : slabsPreallocate ok ids s = some t) : Valid sizes base limit ⟨t, []⟩ := by
  induction ids generalizing s with
  | nil =>
    obtain rfl := Option.some.inj ran
    exact valid
  | cons id rest ih =>
    rw [slabsPreallocate] at ran
    obtain ⟨first, last⟩ := classes id List.mem_cons_self
    obtain ⟨free, owner, core⟩ := valid.core
    have last' : id ≤ s.powerLargest := by rwa [SlabAllocator.powerLargest, valid.sizes_eq]
    obtain ⟨free', owner', core', kept⟩ := core.newslab first last' (ok id)
    cases made : s.doSlabsNewslab id (ok id) with
    | mk done s' =>
      rw [made] at ran core' kept
      cases done with
      | false => cases ran
      | true =>
        refine ih ⟨⟨free', owner', core'⟩, kept.sizes.trans valid.sizes_eq, kept.memBase.trans valid.base_eq,
          kept.memLimit.trans valid.limit_eq, fun bound => ?_⟩ (fun jd member => classes jd (List.mem_cons_of_mem _ member)) ran
        have account := valid.account bound
        exact (congrArg (· + 0) kept.memFree).trans account

theorem valid_init {malloced : Nat} {ok : Nat → Bool} {s : SlabAllocator} (least : ∀ size ∈ sizes, 48 ≤ size)
    (few : sizes.length < 256) (ran : slabsInit sizes limit base malloced ok = some s) : Valid sizes base limit ⟨s, []⟩ := by
  refine valid_preallocate ok _ ?_ ?_ ran
  · refine ⟨⟨fun _ => [], fun _ => none, ?_⟩, rfl, rfl, rfl, fun _ => rfl⟩
    exact
      { least := least
        few := few
        whole := ⟨0, by simp⟩
        region := rfl
        linked := fun _ => rfl
        distinct := fun _ => List.nodup_nil
        curr := fun _ => rfl
        classed := fun _ _ owned => nomatch owned
        inside := fun _ _ owned => nomatch owned
        placed := fun _ _ owned => nomatch owned
        apart := fun _ _ _ _ owned => nomatch owned
        known := fun _ _ found => nomatch found
        freed := fun _ _ listed => nomatch listed
        held := fun _ member => nomatch member
        pointers := List.nodup_nil }
  · intro id member
    obtain ⟨x, inside, rfl⟩ := List.mem_map.mp member
    have := List.mem_range.mp inside
    omega

/-! ## Calls -/

/-- An allocation of the class that `slabs_clsid` found. -/
theorem Valid.handOut (valid : Valid sizes base limit h) (size requested : Nat) (ok : Bool) :
    Valid sizes base limit (h.handOut requested (h.alloc.doSlabsAlloc size (h.alloc.slabsClsid size) ok)) ∧
      ∀ ptr, (h.alloc.doSlabsAlloc size (h.alloc.slabsClsid size) ok).1 = some ptr →
        1 ≤ h.alloc.slabsClsid size ∧ h.alloc.slabsClsid size ≤ sizes.length ∧
        (h.handOut requested (h.alloc.doSlabsAlloc size (h.alloc.slabsClsid size) ok)).live =
          ⟨ptr, requested, h.alloc.slabsClsid size⟩ :: h.live := by
  by_cases zero : size = 0
  · subst zero
    have failed : h.alloc.doSlabsAlloc 0 (h.alloc.slabsClsid 0) ok = (none, h.alloc) := by
      have none : h.alloc.slabsClsid 0 = 0 := if_pos rfl
      rw [SlabAllocator.doSlabsAlloc, none, if_pos (Or.inl Nat.one_pos)]
    rw [failed]
    exact ⟨valid, fun ptr got => nomatch got⟩
  · obtain ⟨free, owner, core⟩ := valid.core
    have account := valid.account
    obtain ⟨free', owner', outcome⟩ := core.alloc size (h.alloc.slabsClsid size) zero ok requested
    generalize h.alloc.doSlabsAlloc size (h.alloc.slabsClsid size) ok = result at outcome ⊢
    obtain ⟨got, t⟩ := result
    rcases outcome with ⟨failed, core', kept⟩ | ⟨ptr, got', first, last, core', class', allots⟩
    · obtain rfl : got = none := failed
      refine ⟨⟨⟨free', owner', core'⟩, kept.sizes.trans valid.sizes_eq, kept.memBase.trans valid.base_eq,
        kept.memLimit.trans valid.limit_eq, fun bound => ?_⟩, fun ptr got => nomatch got⟩
      have same := sizes_sum kept.sizes h.live
      have kept' := kept.memFree
      have account' := account bound
      simp only [Heap.handOut] at same kept' ⊢
      omega
    · obtain rfl : got = some ptr := got'
      have shape : (h.handOut requested (some ptr, t)) = ⟨t, ⟨ptr, requested, h.alloc.slabsClsid size⟩ :: h.live⟩ := by
        simp only [Heap.handOut, class']
      refine ⟨?_, fun ptr' same => ?_⟩
      · rw [shape]
        refine ⟨⟨free', owner', core'⟩, allots.sizes.trans valid.sizes_eq, allots.memBase.trans valid.base_eq,
          allots.memLimit.trans valid.limit_eq, fun bound => ?_⟩
        have account' := account bound
        have room := core'.live_sum_le
        have same := sizes_sum allots.sizes (⟨ptr, requested, h.alloc.slabsClsid size⟩ :: h.live)
        have limit' := allots.memLimit.trans valid.limit_eq
        rcases allots.memFree with ⟨impossible, _⟩ | ⟨c, list, memFree⟩
        · exact absurd (congrArg List.length impossible) (by simp)
        · obtain ⟨rfl, _⟩ := List.cons.inj list
          rw [same, limit', List.map_cons, List.sum_cons] at room
          rw [same, memFree, List.map_cons, List.sum_cons]
          omega
      · obtain rfl := Option.some.inj same
        rw [shape]
        refine ⟨first, ?_, rfl⟩
        rwa [SlabAllocator.powerLargest, valid.sizes_eq] at last

/-- The two allocation calls look for a class of `size` bytes, or do nothing without a region. -/
theorem Valid.allocate (valid : Valid sizes base limit h) (size requested : Nat) (ok : Bool) {result : Option Nat × SlabAllocator}
    (called : result = if h.alloc.memLimit = 0 then (none, h.alloc)
      else h.alloc.doSlabsAlloc size (h.alloc.slabsClsid size) ok) :
    Valid sizes base limit (h.handOut requested result) ∧ ∀ ptr, result.1 = some ptr →
      1 ≤ h.alloc.slabsClsid size ∧ h.alloc.slabsClsid size ≤ sizes.length ∧
      (h.handOut requested result).live = ⟨ptr, requested, h.alloc.slabsClsid size⟩ :: h.live := by
  subst called
  split
  · exact ⟨valid, fun ptr got => nomatch got⟩
  · exact valid.handOut size requested ok

/-- A chunk and the others account for all chunks in use. -/
theorem sum_without {s : SlabAllocator} {live : List Chunk} {c : Chunk} (pointers : (live.map Chunk.ptr).Nodup) (member : c ∈ live) :
    s.size c.id + ((live.filter fun d => d.ptr ≠ c.ptr).map fun d => s.size d.id).sum = (live.map fun d => s.size d.id).sum := by
  have apart : (live.filter fun d => d.ptr ≠ c.ptr) = live.erase c := by
    rw [(List.Nodup.of_map _ pointers).erase_eq_filter]
    refine List.filter_congr fun d listed => ?_
    have same : d.ptr = c.ptr ↔ d = c := ⟨List.inj_on_of_nodup_map pointers listed member, congrArg _⟩
    by_cases equal : d = c <;> simp [same, equal]
  have sum := ((List.perm_cons_erase member).map fun d => s.size d.id).sum_eq
  rw [List.map_cons, List.sum_cons] at sum
  rw [apart, sum]

/-- A chunk in use goes to its free list. -/
theorem Valid.giveBack {c : Chunk} (valid : Valid sizes base limit h) (member : c ∈ h.live) {it : Item} (cleared : it.slabsClsid = 0)
    {size : Nat} (nonzero : size ≠ 0) : Valid sizes base limit
      ⟨(Core.withEntry h.alloc c.ptr it).doSlabsFree c.ptr size c.id, h.live.filter fun d => d.ptr ≠ c.ptr⟩ := by
  obtain ⟨free, owner, core⟩ := valid.core
  obtain ⟨free', core', _, base', limit', memFree⟩ := core.giveBack member it cleared nonzero
  have sizes' := Core.sizes_doSlabsFree (Core.withEntry h.alloc c.ptr it) c.ptr size c.id
  refine ⟨⟨free', owner, core'⟩, sizes'.trans valid.sizes_eq, base'.trans valid.base_eq, limit'.trans valid.limit_eq, fun bound => ?_⟩
  have account := valid.account bound
  have sum : h.alloc.size c.id + _ = _ := sum_without core.pointers member
  rw [sizes_sum (sizes'.trans rfl : _ = h.alloc.sizes), memFree]
  dsimp only
  omega

/-- `sb_free` of a chunk in use succeeds. -/
theorem Valid.release {c : Chunk} (valid : Valid sizes base limit h) (member : c ∈ h.live) :
    ∃ s, h.alloc.sbFree c.ptr = some s ∧ Valid sizes base limit ⟨s, h.live.filter fun d => d.ptr ≠ c.ptr⟩ := by
  obtain ⟨_, _, core⟩ := valid.core
  obtain ⟨it, size, ran, cleared, nonzero⟩ := core.drop member
  exact ⟨_, ran, valid.giveBack member cleared nonzero⟩

theorem Valid.step (call : Call) (valid : Valid sizes base limit h) : ∃ h', h.step call = some h' ∧ Valid sizes base limit h' := by
  cases call with
  | malloc size ok => exact ⟨_, rfl, (valid.allocate size.toNat size.toNat ok rfl).1⟩
  | alignedMalloc size block ok => exact ⟨_, rfl, (valid.allocate (SlabAllocator.align size block).toNat size.toNat ok rfl).1⟩
  | free ptr =>
    by_cases used : ptr ∈ h.live.map Chunk.ptr
    · obtain ⟨c, member, rfl⟩ := List.mem_map.mp used
      obtain ⟨s, ran, done⟩ := valid.release member
      refine ⟨_, ?_, done⟩
      rw [Heap.step, if_pos used, ran]
    · exact ⟨h, if_neg used, valid⟩

/-- Every sequence of calls runs, and keeps the heap valid. -/
theorem Valid.run (calls : List Call) (valid : Valid sizes base limit h) : ∃ h', h.run calls = some h' ∧ Valid sizes base limit h' := by
  induction calls generalizing h with
  | nil => exact ⟨h, rfl, valid⟩
  | cons call rest ih =>
    obtain ⟨h₁, first, valid₁⟩ := valid.step call
    obtain ⟨h₂, last, valid₂⟩ := ih valid₁
    refine ⟨h₂, ?_, valid₂⟩
    rw [Heap.run, List.foldlM_cons, first]
    exact last

end Heap

end Gam.Slab
