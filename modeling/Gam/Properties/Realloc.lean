import Gam.Properties.AllocationFailure
import Gam.Properties.SlabHeap
import Gam.Slab.Realloc

/-!
# Blocks that change their size

The size of a block and the accounts of the allocator are right after every `sb_realloc`. What the block held
is kept as long as it stays in its class; a block that moves starts with what was in the memory there.
-/

namespace Gam.Slab

open SlabAllocator (slabsClsid_enough)

/-- A copy of a block onto itself. -/
theorem memcpy_self (mem : Nat → UInt8) (p len : Nat) : memcpy mem p p len = mem := by
  funext a
  rw [memcpy]
  split
  · next inside => rw [Nat.add_sub_of_le inside.1]
  · rfl

namespace Heap

variable {sizes : List Nat} {base limit : Nat} {h h' : Heap} {c : Chunk} {size : Nat}

section
variable (valid : Valid sizes base limit h) (member : c ∈ h.live)
include valid member

/-- A block that stays has another size from then on. -/
theorem Valid.resize {it : Item} (used : it.slabsClsid = c.id) (nonzero : size ≠ 0) : Valid sizes base limit ⟨Core.withEntry h.alloc c.ptr { it with size := size },
      ⟨c.ptr, size, c.id⟩ :: h.live.filter fun d => d.ptr ≠ c.ptr⟩ := by
  obtain ⟨free, owner, core⟩ := valid.core
  obtain ⟨others, pointers⟩ := core.without c
  refine ⟨⟨free, owner, core.setEntry member _ ?_ ?_⟩, valid.sizes_eq, valid.base_eq, valid.limit_eq, fun bound => ?_⟩
  · intro d kept
    rcases List.mem_cons.mp kept with rfl | old
    · exact Or.inr ⟨rfl, rfl, used, nonzero⟩
    · exact Or.inl (others d old)
  · rw [List.map_cons, List.nodup_cons]
    refine ⟨fun listed => ?_, pointers⟩
    obtain ⟨d, kept, same⟩ := List.mem_map.mp listed
    exact (others d kept).1 same
  · rw [← valid.account bound, ← sum_without core.pointers member]
    rfl

/-- What `sb_realloc` of the block `c` leaves: the block at `ptr` and the heap. -/
structure Reallocated (sizes : List Nat) (base limit : Nat) (h : Heap) (c : Chunk) (size ptr : Nat) (t : SlabAllocator) : Prop where
  valid : Valid sizes base limit (h.moved c.ptr size ptr t)
  enough : size ≤ t.size (t.classOf ptr)
  freed : t.isFree c.ptr = some (decide (ptr ≠ c.ptr))

variable {mem : Nat → UInt8} {size : UInt64} {ok : Bool}

/-- The block stays in its class. -/
theorem Valid.realloc_stays (stays : h.alloc.slabsClsid size.toNat = c.id) :
    ∃ t, h.alloc.sbRealloc mem (some c.ptr) size ok = some (some c.ptr, t, mem) ∧ Reallocated sizes base limit h c size.toNat c.ptr t := by
  obtain ⟨free, owner, core⟩ := valid.core
  obtain ⟨owned, it, found, used, _⟩ := core.held c member
  obtain ⟨first, last⟩ := core.classed _ _ owned
  obtain ⟨some_bytes, enough⟩ := h.alloc.slabsClsid_enough (stays.symm ▸ first)
  have own : (Core.withEntry h.alloc c.ptr { it with size := size.toNat }).statsMap c.ptr = some { it with size := size.toNat } :=
    Function.update_self ..
  have class' : (Core.withEntry h.alloc c.ptr { it with size := size.toNat }).classOf c.ptr = c.id := by
    rw [SlabAllocator.classOf, own]
    exact used
  refine ⟨Core.withEntry h.alloc c.ptr { it with size := size.toNat }, ?_, ?_, ?_, ?_⟩
  · simp only [SlabAllocator.sbRealloc, if_neg (core.memLimit_ne owned), found, if_pos (used.trans stays.symm)]
    rw [if_neg (by omega)]
    rfl
  · rw [moved, class']
    exact valid.resize member used some_bytes
  · rw [class', ← stays]
    exact enough
  · rw [SlabAllocator.isFree, own]
    simp only [Option.map_some, used, ne_eq, not_true_eq_false, decide_false, Option.some.injEq, beq_eq_false_iff_ne]
    omega

/-- The block moves to a chunk of another class. -/
theorem Valid.realloc_moves (moves : h.alloc.slabsClsid size.toNat ≠ c.id)
    {ptr : Nat} (got : (h.alloc.doSlabsAlloc size.toNat (h.alloc.slabsClsid size.toNat) ok).1 = some ptr) :
    ∃ t, h.alloc.sbRealloc mem (some c.ptr) size ok = some (some ptr, t, mem) ∧ Reallocated sizes base limit h c size.toNat ptr t := by
  obtain ⟨_, _, core⟩ := valid.core
  obtain ⟨owned, it, found, used, nonzero⟩ := core.held c member
  obtain ⟨handed, taken⟩ := valid.handOut size.toNat size.toNat ok
  obtain ⟨first, _, live⟩ := taken ptr got
  obtain ⟨_, enough⟩ := h.alloc.slabsClsid_enough first
  generalize result : h.alloc.doSlabsAlloc size.toNat (h.alloc.slabsClsid size.toNat) ok = pair at *
  obtain ⟨_, s⟩ := pair
  obtain rfl : _ = some ptr := got
  obtain ⟨_, _, core'⟩ := handed.core
  rw [live] at core'
  have here : c ∈ (h.handOut size.toNat (some ptr, s)).live := List.mem_cons_of_mem _ member
  have other : ptr ≠ c.ptr := fun same => (List.nodup_cons.mp core'.pointers).1 (List.mem_map.mpr ⟨c, member, same.symm⟩)
  generalize cleared : ({ (s.statsMap c.ptr).getD {} with slabsClsid := 0 } : Item) = it'
  have zero : it'.slabsClsid = 0 := by rw [← cleared]
  have gaveBack := handed.giveBack here zero nonzero
  obtain ⟨_, core'', listed, _⟩ := core'.giveBack (live ▸ here) it' zero nonzero
  rw [live, List.filter_cons_of_pos (by simpa using other)] at gaveBack
  have alloc : (h.handOut size.toNat (some ptr, s)).alloc = s := rfl
  rw [alloc] at core'' gaveBack
  have freed := (core''.freed _ _ listed).2
  have class' : ((Core.withEntry s c.ptr it').doSlabsFree c.ptr it.size c.id).classOf ptr = h.alloc.slabsClsid size.toNat := by
    obtain ⟨_, _, last⟩ := gaveBack.core
    obtain ⟨_, entry, found', used', _⟩ := last.held _ List.mem_cons_self
    rw [SlabAllocator.classOf, found']
    exact used'
  refine ⟨(Core.withEntry s c.ptr it').doSlabsFree c.ptr it.size c.id, ?_, ?_, ?_, ?_⟩
  · simp only [SlabAllocator.sbRealloc, if_neg (core.memLimit_ne owned), found, used, if_neg (Ne.symm moves), result, memcpy_self, cleared]
    rfl
  · rw [moved, class']
    exact gaveBack
  · rw [class', SlabAllocator.size, gaveBack.sizes_eq, ← valid.sizes_eq]
    exact enough
  · obtain ⟨entry, found', zero'⟩ := freed
    rw [SlabAllocator.isFree, found']
    simp [zero', other]

/-- The block stays, or there is a chunk of another class for it. -/
def Resizable (s : SlabAllocator) (c : Chunk) (size : Nat) (ok : Bool) : Prop := s.slabsClsid size = c.id ∨ s.Serves size ok

theorem Valid.realloc (resizable : Resizable h.alloc c size.toNat ok) :
    ∃ ptr t, h.alloc.sbRealloc mem (some c.ptr) size ok = some (some ptr, t, mem) ∧ Reallocated sizes base limit h c size.toNat ptr t ∧
      (h.alloc.slabsClsid size.toNat = c.id → ptr = c.ptr) := by
  by_cases stays : h.alloc.slabsClsid size.toNat = c.id
  · obtain ⟨t, ran, done⟩ := valid.realloc_stays member stays
    exact ⟨c.ptr, t, ran, done, fun _ => rfl⟩
  · obtain ⟨_, _, core⟩ := valid.core
    obtain ⟨ptr, got⟩ := core.serves (resizable.resolve_left stays)
    obtain ⟨t, ran, done⟩ := valid.realloc_moves member stays got
    exact ⟨ptr, t, ran, done, fun same => absurd same stays⟩

/-- Without such a chunk the look-up of the new block fails. -/
theorem Valid.realloc_none (moves : h.alloc.slabsClsid size.toNat ≠ c.id)
    (failed : (h.alloc.doSlabsAlloc size.toNat (h.alloc.slabsClsid size.toNat) ok).1 = none) :
    h.alloc.sbRealloc mem (some c.ptr) size ok = none := by
  obtain ⟨_, _, core⟩ := valid.core
  obtain ⟨owned, it, found, used, _⟩ := core.held c member
  simp only [SlabAllocator.sbRealloc, if_neg (core.memLimit_ne owned), found, used, if_neg (Ne.symm moves)]
  generalize h.alloc.doSlabsAlloc size.toNat (h.alloc.slabsClsid size.toNat) ok = pair at failed
  obtain ⟨_, s⟩ := pair
  obtain rfl : _ = none := failed
  rfl

end

/-! ## Every run -/

/-- An operation does nothing, is a call, or resizes a block in use. -/
theorem Valid.stepOp_cases {op : Op} (valid : Valid sizes base limit h) (ran : h.stepOp op = some h') :
    h' = h ∨ (∃ call, op = .call call ∧ h.step call = some h') ∨
      ∃ c ∈ h.live, ∃ (size : UInt64) (ptr : Nat) (t : SlabAllocator),
        Reallocated sizes base limit h c size.toNat ptr t ∧ h' = h.moved c.ptr size.toNat ptr t := by
  cases op with
  | call call => exact Or.inr (Or.inl ⟨call, rfl, ran⟩)
  | realloc mem ptr size ok =>
    rw [Heap.stepOp] at ran
    split at ran
    · next used =>
      obtain ⟨c, member, rfl⟩ := List.mem_map.mp used
      by_cases stays : h.alloc.slabsClsid size.toNat = c.id
      · obtain ⟨t, called, done⟩ := valid.realloc_stays member stays
        rw [called] at ran
        exact Or.inr (Or.inr ⟨c, member, size, c.ptr, t, done, (Option.some.inj ran).symm⟩)
      · cases got : (h.alloc.doSlabsAlloc size.toNat (h.alloc.slabsClsid size.toNat) ok).1 with
        | none =>
          rw [valid.realloc_none member stays got] at ran
          cases ran
        | some ret =>
          obtain ⟨t, called, done⟩ := valid.realloc_moves member stays got
          rw [called] at ran
          exact Or.inr (Or.inr ⟨c, member, size, ret, t, done, (Option.some.inj ran).symm⟩)
    · exact Or.inl (Option.some.inj ran).symm

/-- The calls among the operations do not wrap in `ALIGN`. -/
def Fitting (ops : List Op) : Prop := ∀ call, Op.call call ∈ ops → call.Fits

theorem Valid.runOps {ops : List Op} (valid : Valid sizes base limit h) (ran : h.runOps ops = some h') :
    Valid sizes base limit h' ∧ (h.Ample → Fitting ops → h'.Ample) := by
  induction ops generalizing h with
  | nil =>
    obtain rfl := Option.some.inj ran
    exact ⟨valid, fun ample _ => ample⟩
  | cons op rest ih =>
    rw [Heap.runOps, List.foldlM_cons, Option.bind_eq_bind, Option.bind_eq_some_iff] at ran
    obtain ⟨next, first, later⟩ := ran
    have step : Valid sizes base limit next ∧ (h.Ample → Fitting (op :: rest) → next.Ample) := by
      rcases valid.stepOp_cases first with rfl | ⟨call, rfl, called⟩ | ⟨c, member, size, ptr, t, done, rfl⟩
      · exact ⟨valid, fun ample _ => ample⟩
      · obtain ⟨next', called', done⟩ := valid.step call
        obtain rfl := Option.some.inj (called'.symm.trans called)
        exact ⟨done, fun ample fits => ample.step valid (fits call List.mem_cons_self) called⟩
      · refine ⟨done.valid, fun ample _ d listed => ?_⟩
        rcases List.mem_cons.mp listed with rfl | old
        · exact done.enough
        · rw [SlabAllocator.size, done.valid.sizes_eq, ← valid.sizes_eq]
          exact ample d (List.mem_filter.mp old).1
    obtain ⟨last, ample⟩ := ih step.1 later
    exact ⟨last, fun before fits => ample (step.2 before fits) fun call listed => fits call (List.mem_cons_of_mem _ listed)⟩

section
variable (g : Growth) (increasing : g.slabSizes.Pairwise (· < ·)) (few : g.slabSizes.length < powerLargestMax)
  (limit base malloced : Nat) (bound : limit < 2 ^ 64) (grows : Nat → Bool) (s : SlabAllocator)
  (init : slabsInit g.slabSizes limit base malloced grows = some s) (ops : List Op)
include increasing few bound init

/-- The heap is sound after any operations that do not end the process. -/
theorem runOps_sound (fits : Fitting ops) (h : Heap) (ran : runOps ⟨s, []⟩ ops = some h) : h.Sound base limit := by
  obtain ⟨valid, ample⟩ := (valid_init (least_slabSizes g increasing) (Nat.lt_trans few (by decide)) init).runOps ran
  exact valid.sound (ample (fun _ member => nomatch member) fits) bound

/-- After any operations `sb_realloc` gives a block that is large enough, the old one is free exactly if the block
moved, and the accounts are right. The contents are kept if the block stays in its class. -/
theorem realloc_keeps (h : Heap) (ran : runOps ⟨s, []⟩ ops = some h) (c : Chunk) (member : c ∈ h.live) (mem : Nat → UInt8)
    (size : UInt64) (ok : Bool) (resizable : Resizable h.alloc c size.toNat ok) :
    ∃ ptr t mem', h.alloc.sbRealloc mem (some c.ptr) size ok = some (some ptr, t, mem') ∧ size.toNat ≤ t.size (t.classOf ptr) ∧
      t.isFree c.ptr = some (decide (ptr ≠ c.ptr)) ∧ t.getAvail + t.size (t.classOf ptr) = h.alloc.getAvail + t.size c.id ∧
      (h.alloc.slabsClsid size.toNat = c.id → ∀ i < min c.requested size.toNat, mem' (ptr + i) = mem (c.ptr + i)) := by
  obtain ⟨valid, _⟩ := (valid_init (least_slabSizes g increasing) (Nat.lt_trans few (by decide)) init).runOps ran
  obtain ⟨ptr, t, called, done, stays⟩ := valid.realloc member resizable
  refine ⟨ptr, t, mem, called, done.enough, done.freed, ?_, fun same i _ => by rw [stays same]⟩
  obtain ⟨_, _, core⟩ := valid.core
  have sizes : t.sizes = h.alloc.sizes := done.valid.sizes_eq.trans valid.sizes_eq.symm
  have before := valid.account bound
  have after := done.valid.account bound
  have sum : h.alloc.size c.id + _ = _ := sum_without core.pointers member
  simp only [moved, List.map_cons, List.sum_cons, SlabAllocator.size, sizes] at before after sum
  simp only [SlabAllocator.size, sizes, SlabAllocator.getAvail]
  omega

end

theorem runOps_sound_resized : ∃ s h, slabsInit (Growth.slabSizes ⟨fun _ => false, id⟩) itemSizeMax 8192 0 (fun _ => true) = some s ∧
    runOps ⟨s, []⟩ [.call (.malloc 100 true), .realloc (fun _ => 1) 8192 200 false] = some h ∧ h.Sound 8192 itemSizeMax := by
  have fits : Fitting [.call (.malloc 100 true), .realloc (fun _ => 1) 8192 200 false] := fun call member => by
    simp at member
    rw [member]
    trivial
  exact ⟨_, _, rfl, rfl, runOps_sound ⟨fun _ => false, id⟩ (by decide) (by decide) itemSizeMax 8192 0 (by decide) (fun _ => true) _ rfl
    _ fits _ rfl⟩

theorem realloc_keeps_stays : ∃ s h, slabsInit (Growth.slabSizes ⟨fun _ => false, id⟩) itemSizeMax 8192 0 (fun _ => true) = some s ∧
    runOps ⟨s, []⟩ [.call (.malloc 100 true)] = some h ∧ h.live = [⟨8192, 100, 1⟩] ∧ Resizable h.alloc ⟨8192, 100, 1⟩ 200 false ∧
    ∃ ptr t mem', h.alloc.sbRealloc (fun _ => 1) (some 8192) 200 false = some (some ptr, t, mem') ∧ mem' (ptr + 99) = 1 := by
  obtain ⟨ptr, t, mem', called, _, _, _, kept⟩ := realloc_keeps ⟨fun _ => false, id⟩ (by decide) (by decide) itemSizeMax 8192 0
    (by decide) (fun _ => true) _ rfl [.call (.malloc 100 true)] _ rfl ⟨8192, 100, 1⟩ List.mem_cons_self (fun _ => 1) 200 false (Or.inl rfl)
  exact ⟨_, _, rfl, rfl, rfl, Or.inl rfl, ptr, t, mem', called, kept rfl 99 (by decide)⟩

/-- A block of one byte grows beyond its class, and the byte is lost. -/
theorem realloc_loses : ∃ s h t mem', slabsInit [itemSizeMax / 2, itemSizeMax] (2 * itemSizeMax) 0 0 (fun _ => true) = some s ∧
    runOps ⟨s, []⟩ [.call (.malloc 1 true)] = some h ∧ h.live = [⟨262144, 1, 1⟩] ∧
    h.alloc.sbRealloc (fun a => if a = 262144 then 7 else 0) (some 262144) 262145 true = some (some 524288, t, mem') ∧
    mem' 524288 ≠ 7 := by
  refine ⟨_, _, _, _, rfl, rfl, rfl, rfl, ?_⟩
  decide

end Heap

end Gam.Slab
