import Gam.Slab.Classes
import Gam.Slab.Runs

/-!
# Blocks are aligned

Nothing in `sb_aligned_malloc` aligns the address it returns. It is a multiple of the block size because
slabs start at such multiples and the class it is taken from holds whole blocks.
-/

namespace Gam.Slab

/-- `ALIGN` to the default block. -/
theorem align_block (size : UInt64) : (SlabAllocator.align size 4096).toNat % blockSize = 0 := by
  have mask : (~~~(4096 - 1 : UInt64)).toNat % 2 ^ 12 = 0 := by decide
  show _ % 2 ^ 12 = 0
  rw [SlabAllocator.align, UInt64.toNat_and, Nat.and_mod_two_pow, mask, Nat.and_zero]

/-- The class of a number of whole blocks holds whole blocks. -/
theorem whole_class {g : Growth} {s : SlabAllocator} {newsize : Nat} (table : s.sizes = g.slabSizes)
    (whole : newsize % blockSize = 0) (found : 1 ≤ s.slabsClsid newsize) : s.size (s.slabsClsid newsize) % blockSize = 0 := by
  have nonzero : newsize ≠ 0 := by
    rintro rfl
    exact absurd found (by simp [SlabAllocator.slabsClsid])
  have above : 48 < newsize := by
    rw [blockSize] at whole
    omega
  obtain ⟨before, chunk, after, same, size, smaller, enough⟩ := s.slabsClsid_spec found
  rw [size]
  exact firstWhole_chunkSizes g whole _ _ _ _ above before chunk after (table.symm.trans same) smaller enough

/-- A chunk of whole blocks starts at a block boundary. -/
theorem place_aligned {base size : Nat} (aligned : base % blockSize = 0) (whole : size % blockSize = 0) (slab x : Nat) :
    (base + slab * itemSizeMax + x * size) % blockSize = 0 := by
  have slabs : blockSize ∣ slab * itemSizeMax := Nat.dvd_mul_left_of_dvd (by decide) slab
  have chunks : blockSize ∣ x * size := Nat.dvd_mul_left_of_dvd (Nat.dvd_of_mod_eq_zero whole) x
  exact Nat.mod_eq_zero_of_dvd (Nat.dvd_add (Nat.dvd_add (Nat.dvd_of_mod_eq_zero aligned) slabs) chunks)

/-- Every address that `sb_aligned_malloc` returns for the default block is a multiple of `BLOCK_SIZE`. -/
theorem sbAlignedMalloc_aligned (g : Growth) (increasing : g.slabSizes.Pairwise (· < ·)) (few : g.slabSizes.length < powerLargestMax)
    (limit base malloced : Nat) (aligned : base % blockSize = 0) (ok : Nat → Bool) (s : SlabAllocator)
    (init : slabsInit g.slabSizes limit base malloced ok = some s) (calls : List Call) (h : Heap)
    (ran : Heap.run ⟨s, []⟩ calls = some h) (size : UInt64) (more : Bool) (p : Nat)
    (got : (h.alloc.sbAlignedMalloc size 4096 more).1 = some p) : p % blockSize = 0 := by
  have few' : g.slabSizes.length < 256 := Nat.lt_trans few (by decide)
  obtain ⟨h', ran', valid⟩ := (Heap.valid_init (least_slabSizes g increasing) few' init).run calls
  obtain rfl := Option.some.inj (ran.symm.trans ran')
  obtain ⟨valid', taken⟩ := valid.allocate (SlabAllocator.align size 4096).toNat size.toNat more rfl
  obtain ⟨first, _, live⟩ := taken p got
  have whole := whole_class valid.sizes_eq (align_block size) first
  obtain ⟨free, owner, core⟩ := valid'.core
  have owned := (core.held _ (live ▸ List.mem_cons_self)).1
  obtain ⟨slab, x, place⟩ := core.placed _ _ owned
  have sizes := valid'.sizes_eq.trans valid.sizes_eq.symm
  rw [SlabAllocator.size] at whole
  rw [valid'.base_eq, SlabAllocator.size, sizes] at place
  exact (congrArg (· % blockSize) place).trans (place_aligned aligned whole slab x)

/-- A factor so large that the only class is that of whole slabs. -/
theorem sbAlignedMalloc_aligned_slab : ∃ s h, slabsInit (Growth.slabSizes ⟨fun _ => false, id⟩) itemSizeMax 8192 0 (fun _ => true) = some s ∧
    Heap.run ⟨s, []⟩ [.alignedMalloc 5000 4096 true, .free 8192] = some h ∧ h.live = [] ∧
    (h.alloc.sbAlignedMalloc 70000 4096 true).1 = some 8192 ∧ 8192 % blockSize = 0 := by
  refine ⟨_, _, rfl, rfl, rfl, rfl, ?_⟩
  exact sbAlignedMalloc_aligned ⟨fun _ => false, id⟩ (by decide) (by decide) itemSizeMax 8192 0 (by decide) (fun _ => true) _ rfl
    [.alignedMalloc 5000 4096 true, .free 8192] _ rfl 70000 true 8192 rfl

end Gam.Slab
