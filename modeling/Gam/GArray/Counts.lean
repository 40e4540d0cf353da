import Mathlib.Algebra.Order.Floor.Semifield
import Mathlib.Analysis.SpecialFunctions.Log.Base
import Gam.GArray

/-!
# How many buckets an array needs

The counts that `CalLayers` computes and the number of layers, as long as the number of buckets fits an
`int`.
-/

namespace Gam.GArray
variable {P : Params} {n m k i j : Nat}

/-- The sizes whose buckets can be counted by an `int`. -/
def Small (P : Params) (n : Nat) : Prop := n ≤ (2 ^ 31 - 1) * itemsPerBucket P

/-- The layers of an array of `n` elements. -/
def depth (P : Params) (n : Nat) : Nat := Nat.clog (gaddrsPerBucket P) (blocks P n 0) + 1

theorem items_pos (P : Params) : 0 < itemsPerBucket P := Nat.div_pos P.fits P.positive

theorem gaddrs_two (P : Params) : 2 ≤ gaddrsPerBucket P := by
  have two := P.two
  unfold gaddrsPerBucket
  omega

theorem gaddrs_room (P : Params) : 8 * gaddrsPerBucket P ≤ P.bucketSize := by
  unfold gaddrsPerBucket
  omega

theorem items_room (P : Params) : P.elemSize * itemsPerBucket P ≤ P.bucketSize := Nat.mul_div_le ..

theorem items_le (P : Params) : itemsPerBucket P ≤ P.bucketSize := Nat.div_le_self ..

/-- Rounding up is the least number of groups. -/
theorem ceil_le_iff {a b c : Nat} (positive : 0 < b) : (a + b - 1) / b ≤ c ↔ a ≤ b * c := by
  rw [← Nat.lt_succ_iff, Nat.div_lt_iff_lt_mul positive, Nat.succ_mul, Nat.mul_comm c]
  omega

section
variable (allocated : P.bucketSize ≤ Slab.itemSizeMax) (small : Small P n)
include allocated small

theorem blocks_zero : blocks P n 0 = (n + itemsPerBucket P - 1) / itemsPerBucket P := by
  have items := items_le P
  unfold Slab.itemSizeMax at allocated
  have bound : (2 ^ 31 - 1) * itemsPerBucket P ≤ (2 ^ 31 - 1) * (512 * 1024) := Nat.mul_le_mul_left _ (by omega)
  unfold Small at small
  rw [blocks, ceilDivide, Nat.mod_eq_of_lt]
  omega

theorem blocks_zero_lt : blocks P n 0 < 2 ^ 31 := by
  rw [blocks_zero allocated small]
  refine Nat.lt_of_le_of_lt ((ceil_le_iff (c := 2 ^ 31 - 1) (items_pos P)).mpr ?_) (by decide)
  rw [Nat.mul_comm]
  exact small

/-- The number of buckets of the next layer. -/
theorem blocks_succ_lt (k : Nat) : blocks P n k < 2 ^ 31 ∧
      blocks P n (k + 1) = (blocks P n k + gaddrsPerBucket P - 1) / gaddrsPerBucket P := by
  have two := gaddrs_two P
  have room := gaddrs_room P
  unfold Slab.itemSizeMax at allocated
  have exact' : ∀ {a}, a < 2 ^ 31 → ceilDivide a (gaddrsPerBucket P) = (a + gaddrsPerBucket P - 1) / gaddrsPerBucket P :=
    fun {a} bound => by rw [ceilDivide, Nat.mod_eq_of_lt (by omega)]
  induction k with
  | zero => exact ⟨blocks_zero_lt allocated small, exact' (blocks_zero_lt allocated small)⟩
  | succ k ih =>
    have bound : blocks P n (k + 1) < 2 ^ 31 := by
      rw [ih.2]
      refine Nat.lt_of_le_of_lt ((ceil_le_iff (by omega)).mpr ?_) ih.1
      exact Nat.le_mul_of_pos_left _ (by omega)
    exact ⟨bound, exact' bound⟩

theorem blocks_lt (k : Nat) : blocks P n k < 2 ^ 31 :=
  (blocks_succ_lt allocated small k).1

theorem blocks_succ (k : Nat) : blocks P n (k + 1) = (blocks P n k + gaddrsPerBucket P - 1) / gaddrsPerBucket P :=
  (blocks_succ_lt allocated small k).2

theorem blocks_succ_le_iff : blocks P n (k + 1) ≤ j ↔ blocks P n k ≤ gaddrsPerBucket P * j := by
  rw [blocks_succ allocated small, ceil_le_iff (by have := gaddrs_two P; omega)]

theorem blocks_zero_le_iff : blocks P n 0 ≤ j ↔ n ≤ itemsPerBucket P * j := by
  rw [blocks_zero allocated small, ceil_le_iff (items_pos P)]

/-- The bucket of an element is there. -/
theorem element_lt_blocks (below : i < n) : i / itemsPerBucket P < blocks P n 0 := by
  by_contra beyond
  have bound := (blocks_zero_le_iff allocated small).mp (Nat.not_lt.mp beyond)
  have rounded := Nat.mul_div_le i (itemsPerBucket P)
  omega

/-- The parent of a bucket is there. -/
theorem parent_lt_blocks (below : i < blocks P n k) : i / gaddrsPerBucket P < blocks P n (k + 1) := by
  by_contra beyond
  have bound := (blocks_succ_le_iff allocated small).mp (Nat.not_lt.mp beyond)
  have rounded := Nat.mul_div_le i (gaddrsPerBucket P)
  omega

/-- So are all its ancestors. -/
theorem ancestor_lt_blocks (below : i < blocks P n k) (j : Nat) : i / gaddrsPerBucket P ^ j < blocks P n (k + j) := by
  induction j with
  | zero => simpa using below
  | succ j ih =>
    have next := parent_lt_blocks allocated small ih
    rwa [Nat.div_div_eq_div_mul, ← Nat.pow_succ] at next

theorem blocks_pos (some : 0 < n) (k : Nat) : 0 < blocks P n k := by
  induction k with
  | zero =>
    exact Nat.zero_lt_of_lt (element_lt_blocks allocated small some)
  | succ k ih =>
    exact Nat.zero_lt_of_lt (parent_lt_blocks allocated small ih)

end

section
variable (allocated : P.bucketSize ≤ Slab.itemSizeMax)
include allocated

theorem blocks_mono (small : Small P m) (le : n ≤ m) (k : Nat) : blocks P n k ≤ blocks P m k := by
  have small' : Small P n := Nat.le_trans le small
  induction k with
  | zero =>
    rw [blocks_zero_le_iff allocated small']
    exact Nat.le_trans le ((blocks_zero_le_iff allocated small).mp (Nat.le_refl _))
  | succ k ih =>
    rw [blocks_succ_le_iff allocated small']
    exact Nat.le_trans ih ((blocks_succ_le_iff allocated small).mp (Nat.le_refl _))

/-- Each layer divides the number of buckets. -/
theorem blocks_le_pow (small : Small P n) (k : Nat) :
    ∀ j, blocks P n 0 ≤ gaddrsPerBucket P ^ (k + j) → blocks P n k ≤ gaddrsPerBucket P ^ j := by
  induction k with
  | zero =>
    intro j bound
    rwa [Nat.zero_add] at bound
  | succ k ih =>
    intro j bound
    rw [blocks_succ_le_iff allocated small, ← Nat.pow_succ']
    exact ih (j + 1) (by rwa [Nat.add_right_comm, Nat.add_assoc] at bound)

/-- There is one bucket at the top. -/
theorem blocks_top (small : Small P n) (some : 0 < n) (high : depth P n ≤ k + 1) : blocks P n k = 1 := by
  refine Nat.le_antisymm ?_ (blocks_pos allocated small some k)
  have bound : blocks P n 0 ≤ gaddrsPerBucket P ^ k :=
    Nat.le_trans (Nat.le_pow_clog (gaddrs_two P) _) (Nat.pow_le_pow_right (by have := gaddrs_two P; omega)
      (by unfold depth at high; omega))
  have one := blocks_le_pow allocated small k 0 (by simpa using bound)
  rwa [Nat.pow_zero] at one

theorem depth_mono (small : Small P m) (le : n ≤ m) : depth P n ≤ depth P m :=
  Nat.succ_le_succ (Nat.clog_mono_right _ (blocks_mono allocated small le 0))

/-- `Layers` is exact for sizes that need at least one layer. -/
theorem layers_eq (small : Small P n) (large : itemsPerBucket P < n * gaddrsPerBucket P) : layers P n = depth P n := by
  unfold layers
  by_cases many : itemsPerBucket P < n
  · rw [if_pos many, depth, blocks_zero allocated small]
    rfl
  · rw [if_neg many]
    have some : 0 < n := Nat.pos_of_mul_pos_right (Nat.zero_lt_of_lt large)
    have single : blocks P n 0 = 1 := by
      refine Nat.le_antisymm ?_ (blocks_pos allocated small some 0)
      rw [blocks_zero_le_iff allocated small]
      omega
    have none : Nat.log (gaddrsPerBucket P) (itemsPerBucket P / n) = 0 := by
      rw [Nat.log_eq_zero_iff]
      left
      rw [Nat.div_lt_iff_lt_mul some, Nat.mul_comm]
      exact large
    rw [none, depth, single, Nat.clog_one_right]
    rfl

end

/-- `Layers` is the formula of the source for every positive size. -/
theorem layers_eq_ceil_log (P : Params) (n : Nat) (some : 0 < n) :
    layers P n = ⌈Real.log ((n : ℝ) / itemsPerBucket P) / Real.log (gaddrsPerBucket P)⌉ + 1 := by
  have items : (0 : ℝ) < itemsPerBucket P := Nat.cast_pos.mpr (items_pos P)
  rw [Real.log_div_log, Real.ceil_logb_natCast (by positivity), layers]
  by_cases many : itemsPerBucket P < n
  · rw [if_pos many, Int.clog_of_one_le_right _ ((one_le_div items).mpr (Nat.cast_le.mpr (Nat.le_of_lt many)))]
    have rounded : ⌈(n : ℝ) / itemsPerBucket P⌉₊ = (n + itemsPerBucket P - 1) / itemsPerBucket P := by
      refine eq_of_forall_ge_iff fun c => ?_
      rw [Nat.ceil_le, div_le_iff₀ items, ceil_le_iff (items_pos P), mul_comm]
      exact_mod_cast Iff.rfl
    rw [rounded]
  · rw [if_neg many, Int.clog_of_right_le_one _ ((div_le_one items).mpr (Nat.cast_le.mpr (Nat.not_lt.mp many)))]
    rw [inv_div, Nat.floor_div_eq_div]
    ring

end Gam.GArray
