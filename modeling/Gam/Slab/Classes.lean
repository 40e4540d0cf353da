import Gam.Slab.Allocator
import Mathlib.Data.List.Pairwise

/-!
# The table of classes

Where the chunk sizes cross a block boundary `slabs_init` puts in a class of whole blocks. So the first
class that is large enough for a number of blocks holds whole blocks itself.
-/

namespace Gam.Slab

namespace SlabAllocator

/-- The class that `slabs_clsid` finds. -/
theorem clsidFrom_spec (size : Nat) (sizes : List Nat) (first : Nat) (found : clsidFrom size sizes (first + 1) ≠ 0) :
    ∃ before chunk after, sizes = before ++ chunk :: after ∧ clsidFrom size sizes (first + 1) = first + before.length + 1 ∧
      (∀ other ∈ before, other < size) ∧ size ≤ chunk := by
  induction sizes generalizing first with
  | nil => exact absurd rfl found
  | cons chunk rest ih =>
    rw [clsidFrom] at found ⊢
    split at found
    · next small =>
      rw [if_pos small]
      obtain ⟨before, chunk', after, same, class', smaller, enough⟩ := ih (first + 1) found
      refine ⟨chunk :: before, chunk', after, by rw [same]; rfl, ?_, ?_, enough⟩
      · rw [class', List.length_cons]
        omega
      · intro other member
        rcases List.mem_cons.mp member with rfl | member
        · exact small
        · exact smaller other member
    · next large =>
      rw [if_neg large]
      exact ⟨[], chunk, rest, rfl, rfl, fun _ member => (nomatch member), Nat.le_of_not_lt large⟩

/-- `slabs_clsid` finds the first class that is large enough. -/
theorem slabsClsid_spec (s : SlabAllocator) {size : Nat} (found : 1 ≤ s.slabsClsid size) :
    ∃ before chunk after, s.sizes = before ++ chunk :: after ∧ s.size (s.slabsClsid size) = chunk ∧
      (∀ other ∈ before, other < size) ∧ size ≤ chunk := by
  unfold slabsClsid at found ⊢
  split at found
  · cases found
  · next nonzero =>
    rw [if_neg nonzero]
    obtain ⟨before, chunk, after, same, class', smaller, enough⟩ := clsidFrom_spec size s.sizes 0 (Nat.ne_of_gt found)
    refine ⟨before, chunk, after, same, ?_, smaller, enough⟩
    rw [SlabAllocator.size, class', same]
    simp

end SlabAllocator

/-- The first class that is large enough for whole blocks. -/
def FirstWhole (size : Nat) (sizes : List Nat) : Prop :=
  ∀ before chunk after, sizes = before ++ chunk :: after → (∀ other ∈ before, other < size) → size ≤ chunk → chunk % blockSize = 0

theorem FirstWhole.cons {size chunk : Nat} {sizes : List Nat} (here : size ≤ chunk → chunk % blockSize = 0)
    (rest : chunk < size → FirstWhole size sizes) : FirstWhole size (chunk :: sizes) := by
  intro before other after same smaller enough
  cases before with
  | nil =>
    obtain ⟨rfl, _⟩ := List.cons.inj same
    exact here enough
  | cons head before =>
    obtain ⟨rfl, same'⟩ := List.cons.inj same
    exact rest (smaller _ List.mem_cons_self) before other after same' (fun x member => smaller x (List.mem_cons_of_mem _ member)) enough

/-- The invariant of the loop of `slabs_init`: the classes before were too small. -/
theorem firstWhole_chunkSizes (g : Growth) {newsize : Nat} (whole : newsize % blockSize = 0) (fuel i size preSize : Nat)
    (before : preSize < newsize) : FirstWhole newsize (g.chunkSizes fuel i size preSize ++ [itemSizeMax]) := by
  have last : FirstWhole newsize [itemSizeMax] :=
    .cons (fun _ => by decide) fun _ before chunk after same => absurd (congrArg List.length same) (by simp)
  induction fuel generalizing i size preSize with
  | zero => exact last
  | succ fuel ih =>
    rw [Growth.chunkSizes]
    split
    · dsimp only
      generalize alignChunk size = size'
      split
      · -- A class of whole blocks just below `size'`: a number of blocks above it is above `size'` too.
        refine .cons (fun _ => Nat.mul_mod_left ..) fun above => ?_
        have more : size' < newsize := by
          rw [blockSize] at *
          omega
        exact .cons (fun enough => absurd more (Nat.not_lt.mpr enough)) fun _ => ih _ _ _ more
      · next same =>
        refine .cons (fun enough => ?_) fun more => ih _ _ _ more
        -- No boundary was crossed, so a number of blocks above `preSize` is above `size'`.
        rw [blockSize] at *
        omega
    · exact last

/-- Strictly increasing classes start with 48 bytes. -/
theorem least_slabSizes (g : Growth) (increasing : g.slabSizes.Pairwise (· < ·)) : ∀ size ∈ g.slabSizes, 48 ≤ size := by
  have head : ∃ rest, g.slabSizes = 48 :: rest ∨ g.slabSizes = [itemSizeMax] := by
    rw [Growth.slabSizes, powerLargestMax, Growth.chunkSizes]
    split
    · exact ⟨_, Or.inl (by rw [if_neg (by decide)]; rfl)⟩
    · exact ⟨[], Or.inr rfl⟩
  intro size member
  obtain ⟨rest, same | same⟩ := head
  · rw [same] at increasing member
    rcases List.mem_cons.mp member with rfl | later
    · exact Nat.le_refl _
    · exact Nat.le_of_lt ((List.pairwise_cons.mp increasing).1 size later)
  · rw [same] at member
    rw [List.mem_singleton.mp member]
    decide

end Gam.Slab
