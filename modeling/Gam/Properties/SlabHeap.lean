import Gam.Slab.Classes
import Gam.Slab.Runs
import Mathlib.Data.Nat.Bitwise

/-!
# The heap of the slab allocator

What holds after any sequence of calls. The macro `ALIGN` adds the block to the size before it rounds
down, and that sum can wrap; with a block that is a power of two it then wraps to zero.
-/

namespace Gam.Slab

/-! ## The table of the default configuration -/

theorem quarter_table : slabSizes.Pairwise (· < ·) ∧ slabSizes.length < powerLargestMax := by decide +kernel

/-! ## `ALIGN` -/

namespace SlabAllocator

/-- The bits outside a mask and those inside. -/
theorem and_not_add_and (x m : UInt64) : (x &&& ~~~m) + (x &&& m) = x := by
  apply UInt64.toBitVec_inj.mp
  show (x.toBitVec &&& ~~~m.toBitVec) + (x.toBitVec &&& m.toBitVec) = x.toBitVec
  rw [BitVec.add_eq_or_of_and_eq_zero]
  · ext i
    simp
    cases x.toBitVec[i] <;> simp
  · ext i
    simp
    grind

theorem and_not_ge (x m : UInt64) : x.toNat ≤ (x &&& ~~~m).toNat + m.toNat := by
  have sum := congrArg UInt64.toNat (and_not_add_and x m)
  rw [UInt64.toNat_add] at sum
  have part : (x &&& m).toNat ≤ m.toNat := by
    rw [UInt64.toNat_and]
    exact Nat.and_le_right
  have least := Nat.mod_le ((x &&& ~~~m).toNat + (x &&& m).toNat) (2 ^ 64)
  omega

/-- The sum that `ALIGN` forms does not wrap, or the block is a power of two. -/
def Fits (size block : UInt64) : Prop := size.toNat + block.toNat ≤ 2 ^ 64 ∨ block.toNat.isPowerOfTwo

theorem align_zero (size : UInt64) : align size 0 = 0 := by
  have mask : ~~~((0 : UInt64) - 1) = 0 := by decide
  rw [align, mask, UInt64.and_zero]

theorem sub_one_toNat {block : UInt64} (least : 1 ≤ block.toNat) : (block - 1).toNat = block.toNat - 1 :=
  UInt64.toNat_sub_of_le _ _ (UInt64.le_iff_toNat_le.mpr least)

theorem align_ge {size block : UInt64} (positive : block ≠ 0) (fits : size.toNat + block.toNat ≤ 2 ^ 64) :
    size.toNat ≤ (align size block).toNat := by
  have above := and_not_ge (size + (block - 1)) (block - 1)
  have least : 1 ≤ block.toNat := Nat.pos_of_ne_zero fun zero => positive (UInt64.toNat_inj.mp zero)
  rw [UInt64.toNat_add, sub_one_toNat least] at above
  rw [align]
  omega

/-- Below a power of two nothing is left of a number that is rounded down. -/
theorem align_wrapped {size block : UInt64} {k : Nat} (power : block.toNat = 2 ^ k) (wraps : 2 ^ 64 < size.toNat + block.toNat) :
    align size block = 0 := by
  have least : 1 ≤ block.toNat := by
    rw [power]
    exact Nat.one_le_two_pow
  have less : (block - 1).toNat = 2 ^ k - 1 := by rw [sub_one_toNat least, power]
  have small : (size + (block - 1)).toNat < 2 ^ k := by
    have bound := size.toNat_lt
    have bound' := block.toNat_lt
    rw [UInt64.toNat_add, less]
    omega
  have inside : (size + (block - 1)) &&& (block - 1) = size + (block - 1) := by
    apply UInt64.toNat_inj.mp
    rw [UInt64.toNat_and, less, Nat.and_two_pow_sub_one_eq_mod, Nat.mod_eq_of_lt small]
  have parts := and_not_add_and (size + (block - 1)) (block - 1)
  rw [inside] at parts
  exact UInt64.add_eq_right.mp parts

/-- What is rounded is never less than what was asked for, unless it is zero. -/
theorem align_enough {size block : UInt64} (fits : Fits size block) (nonzero : (align size block).toNat ≠ 0) :
    size.toNat ≤ (align size block).toNat := by
  have positive : block ≠ 0 := by
    rintro rfl
    exact nonzero (congrArg UInt64.toNat (align_zero size))
  by_cases sum : size.toNat + block.toNat ≤ 2 ^ 64
  · exact align_ge positive sum
  · obtain ⟨k, power⟩ := fits.resolve_left sum
    exact absurd (congrArg UInt64.toNat (align_wrapped power (Nat.lt_of_not_le sum))) nonzero

/-- The class that `slabs_clsid` finds is large enough. -/
theorem slabsClsid_enough (s : SlabAllocator) {size : Nat} (found : 1 ≤ s.slabsClsid size) : size ≠ 0 ∧ size ≤ s.size (s.slabsClsid size) := by
  obtain ⟨_, _, _, _, same, _, enough⟩ := s.slabsClsid_spec found
  refine ⟨?_, same ▸ enough⟩
  rintro rfl
  exact absurd found (by simp [slabsClsid])

end SlabAllocator

/-! ## Requests -/

/-- A call whose sum in `ALIGN` is fine. -/
def Call.Fits : Call → Prop
  | .alignedMalloc size block _ => SlabAllocator.Fits size block
  | _ => True

namespace Heap

variable {sizes : List Nat} {base limit : Nat} {h h' : Heap}

/-- Every chunk in use is at least as large as was asked for. -/
def Ample (h : Heap) : Prop := ∀ c ∈ h.live, c.requested ≤ h.alloc.size c.id

theorem Ample.allocate (ample : h.Ample) (valid : Valid sizes base limit h) {size requested : Nat} {ok : Bool}
    {result : Option Nat × SlabAllocator} (called : result = if h.alloc.memLimit = 0 then (none, h.alloc)
      else h.alloc.doSlabsAlloc size (h.alloc.slabsClsid size) ok)
    (enough : size ≠ 0 → requested ≤ size) : (h.handOut requested result).Ample := by
  obtain ⟨valid', taken⟩ := valid.allocate size requested ok called
  have sizes' := valid'.sizes_eq.trans valid.sizes_eq.symm
  intro c member
  rw [SlabAllocator.size, sizes']
  obtain ⟨got, t⟩ := result
  cases got with
  | none => exact ample c member
  | some ptr =>
    obtain ⟨first, _, live⟩ := taken ptr rfl
    rw [live] at member
    rcases List.mem_cons.mp member with rfl | old
    · obtain ⟨nonzero, large⟩ := h.alloc.slabsClsid_enough first
      exact Nat.le_trans (enough nonzero) large
    · exact ample c old

theorem Ample.step {call : Call} (ample : h.Ample) (valid : Valid sizes base limit h) (fits : call.Fits) (ran : h.step call = some h') :
    h'.Ample := by
  cases call with
  | malloc size ok =>
    obtain rfl := Option.some.inj ran
    exact ample.allocate valid rfl fun _ => Nat.le_refl _
  | alignedMalloc size block ok =>
    obtain rfl := Option.some.inj ran
    exact ample.allocate valid rfl (SlabAllocator.align_enough fits)
  | free ptr =>
    by_cases used : ptr ∈ h.live.map Chunk.ptr
    · obtain ⟨d, there, rfl⟩ := List.mem_map.mp used
      obtain ⟨s, freed, valid'⟩ := valid.release there
      rw [Heap.step, if_pos used, freed] at ran
      obtain rfl := Option.some.inj ran
      intro c member
      rw [SlabAllocator.size, valid'.sizes_eq.trans valid.sizes_eq.symm]
      exact ample c (List.mem_filter.mp member).1
    · rw [Heap.step, if_neg used] at ran
      obtain rfl := Option.some.inj ran
      exact ample

theorem Ample.run {calls : List Call} (ample : h.Ample) (valid : Valid sizes base limit h) (fits : ∀ call ∈ calls, call.Fits)
    (ran : h.run calls = some h') : h'.Ample := by
  induction calls generalizing h with
  | nil =>
    obtain rfl := Option.some.inj ran
    exact ample
  | cons call rest ih =>
    obtain ⟨h₁, first, valid₁⟩ := valid.step call
    rw [Heap.run, List.foldlM_cons, first] at ran
    exact ih (ample.step valid (fits call List.mem_cons_self) first) valid₁
      (fun other member => fits other (List.mem_cons_of_mem _ member)) ran

/-! ## Every run -/

/-- The free lists, and the class that each chunk was carved for. `sl_curr` is an `unsigned int`. -/
structure Listed (base limit : Nat) (h : Heap) (free : Nat → List Nat) (owner : Nat → Option Nat) : Prop where
  linked : ∀ id, Linked h.alloc.next h.alloc.prev none (h.alloc.slabclass id).slots (free id)
  acyclic : ∀ id, (free id).Nodup
  counted : limit < 48 * 2 ^ 32 → ∀ id, (h.alloc.slabclass id).slCurr = (free id).length
  ofClass : ∀ id, ∀ p ∈ free id, owner p = some id ∧ p ∉ h.live.map Chunk.ptr
  used : ∀ c ∈ h.live, owner c.ptr = some c.id
  region : ∀ p id, owner p = some id → base ≤ p ∧ p + h.alloc.size id ≤ base + limit
  disjoint : ∀ p id q jd, owner p = some id → owner q = some jd → p ≠ q → Apart p (h.alloc.size id) q (h.alloc.size jd)

structure Sound (base limit : Nat) (h : Heap) : Prop where
  apart : h.live.Pairwise fun c d => Apart c.ptr (h.alloc.size c.id) d.ptr (h.alloc.size d.id)
  inside : ∀ c ∈ h.live, base ≤ c.ptr ∧ c.ptr + h.alloc.size c.id ≤ base + limit
  enough : ∀ c ∈ h.live, c.requested ≤ h.alloc.size c.id
  lists : ∃ free owner, Listed base limit h free owner
  avail : h.alloc.getAvail + (h.live.map fun c => h.alloc.size c.id).sum = limit

theorem Valid.listed (valid : Valid sizes base limit h) : ∃ free owner, Listed base limit h free owner := by
  obtain ⟨free, owner, core⟩ := valid.core
  have region := core.region
  rw [valid.base_eq, valid.limit_eq] at region
  refine ⟨free, owner, core.linked, core.distinct, ?_, ?_, fun c member => (core.held c member).1, ?_, core.apart⟩
  · intro small id
    rw [core.curr id, Nat.mod_eq_of_lt (core.length_free_lt (valid.limit_eq ▸ small) id)]
  · intro id p listed
    refine ⟨(core.freed id p listed).1, fun used => ?_⟩
    obtain ⟨c, member, same⟩ := List.mem_map.mp used
    exact core.free_not_live listed member same
  · intro p id owned
    have inside := core.inside p id owned
    rw [valid.base_eq] at inside
    omega

theorem Valid.sound (valid : Valid sizes base limit h) (ample : h.Ample) (bound : limit < 2 ^ 64) : h.Sound base limit := by
  obtain ⟨free, owner, listed⟩ := valid.listed
  obtain ⟨_, _, core⟩ := valid.core
  refine ⟨?_, fun c member => listed.region _ _ (listed.used c member), ample, ⟨free, owner, listed⟩, valid.account bound⟩
  refine (List.Nodup.of_map _ core.pointers).pairwise_of_forall_ne fun c here d there other => ?_
  exact listed.disjoint _ _ _ _ (listed.used c here) (listed.used d there)
    fun same => other (List.inj_on_of_nodup_map core.pointers here there same)

/-- Every sequence of calls after `slabs_init` runs, and the heap it ends with is sound. -/
theorem run_sound (g : Growth) (increasing : g.slabSizes.Pairwise (· < ·)) (few : g.slabSizes.length < powerLargestMax)
    (limit base malloced : Nat) (bound : limit < 2 ^ 64) (ok : Nat → Bool) (s : SlabAllocator)
    (init : slabsInit g.slabSizes limit base malloced ok = some s) (calls : List Call) (fits : ∀ call ∈ calls, call.Fits) :
    ∃ h, Heap.run ⟨s, []⟩ calls = some h ∧ h.Sound base limit := by
  have start := Heap.valid_init (least_slabSizes g increasing) (Nat.lt_trans few (by decide)) init
  obtain ⟨h, ran, valid⟩ := start.run calls
  have ample : Ample ⟨s, []⟩ := fun c member => nomatch member
  exact ⟨h, ran, valid.sound (ample.run start fits ran) bound⟩

/-- Two allocations, of which the second fails, and a free. -/
theorem run_sound_three : ∃ s h, slabsInit (Growth.slabSizes ⟨fun _ => false, id⟩) itemSizeMax 8192 0 (fun _ => true) = some s ∧
    Heap.run ⟨s, []⟩ [.malloc 100 true, .alignedMalloc 5000 4096 true, .free 8192] = some h ∧ h.Sound 8192 itemSizeMax := by
  obtain ⟨h, ran, sound⟩ := run_sound ⟨fun _ => false, id⟩ (by decide) (by decide) itemSizeMax 8192 0 (by decide) (fun _ => true) _ rfl
    [.malloc 100 true, .alignedMalloc 5000 4096 true, .free 8192] (by simp [Call.Fits, SlabAllocator.Fits])
  exact ⟨_, h, rfl, ran, sound⟩

/-- A request for all bytes but one of the address space, in blocks of three, gets a chunk. -/
theorem aligned_wraps : ∃ s h, slabsInit (Growth.slabSizes ⟨fun _ => false, id⟩) itemSizeMax 8192 0 (fun _ => true) = some s ∧
    Heap.run ⟨s, []⟩ [.alignedMalloc 0xFFFFFFFFFFFFFFFF 3 true] = some h ∧ h.live = [⟨8192, 0xFFFFFFFFFFFFFFFF, 1⟩] ∧
    h.alloc.size 1 = itemSizeMax ∧ ¬h.Sound 8192 itemSizeMax := by
  refine ⟨_, _, rfl, rfl, rfl, rfl, fun sound => ?_⟩
  exact absurd (sound.enough ⟨8192, 0xFFFFFFFFFFFFFFFF, 1⟩ List.mem_cons_self) (by decide)

end Heap

end Gam.Slab
