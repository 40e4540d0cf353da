import Mathlib.Data.List.Range
import Mathlib.Data.List.Nodup
import Mathlib.Data.List.Perm.Subperm
import Mathlib.Data.Nat.ModEq

/-!
# Rings

A ring of `cap` cells used first in, first out: the cells in use are a window of consecutive
positions that starts at the tail and wraps around at the end.
-/

namespace Gam.Ring

/-- The `count` consecutive positions from `tail` on, in a ring of `cap` cells. -/
def window (cap tail count : Nat) : List Nat :=
  (List.range count).map fun i => (tail + i) % cap

variable {cap tail count n : Nat}

@[simp] theorem window_zero : window cap tail 0 = [] := rfl

@[simp] theorem length_window : (window cap tail count).length = count := by simp [window]

theorem window_succ : window cap tail (count + 1) = window cap tail count ++ [(tail + count) % cap] := by
  simp [window, List.range_succ]

theorem mem_window {i : Nat} : i ∈ window cap tail count ↔ ∃ k < count, (tail + k) % cap = i := by
  simp [window]

/-- Offsets less than one turn apart are different cells. -/
theorem offset_injective {i j : Nat} (first : i < cap) (second : j < cap)
    (same : (tail + i) % cap = (tail + j) % cap) : i = j := by
  have congruent : i ≡ j [MOD cap] := Nat.ModEq.add_left_cancel' tail same
  rw [Nat.ModEq, Nat.mod_eq_of_lt first, Nat.mod_eq_of_lt second] at congruent
  exact congruent

theorem nodup_window (fits : count ≤ cap) : (window cap tail count).Nodup := by
  apply List.Nodup.map_on _ List.nodup_range
  intro i first j second same
  rw [List.mem_range] at first second
  exact offset_injective (by omega) (by omega) same

/-- The cell after the window is free as long as the ring has a free cell. -/
theorem next_notMem_window (free : count < cap) : (tail + count) % cap ∉ window cap tail count := by
  intro member
  obtain ⟨k, before, same⟩ := mem_window.mp member
  exact absurd (offset_injective (by omega) free same) (by omega)

theorem window_cons (inside : tail < cap) :
    window cap tail (count + 1) = tail :: window cap ((tail + 1) % cap) count := by
  simp only [window, List.range_succ_eq_map, List.map_cons, List.map_map, Nat.add_zero, Nat.mod_eq_of_lt inside]
  refine congrArg (tail :: ·) (List.map_congr_left fun i _ => ?_)
  simp only [Function.comp_apply, Nat.mod_add_mod]
  congr 1
  omega

/-- A whole turn visits every cell once. -/
theorem window_perm : (window cap tail cap).Perm (List.range cap) := by
  refine (List.subperm_of_subset (nodup_window (Nat.le_refl cap)) fun i member => ?_).perm_of_length_le (by simp)
  obtain ⟨k, below, rfl⟩ := mem_window.mp member
  exact List.mem_range.mpr (Nat.mod_lt _ (Nat.zero_lt_of_lt below))

/-- Giving back the oldest `n` cells moves the tail. -/
theorem drop_window : (window cap tail count).drop n = window cap ((tail + n) % cap) (count - n) := by
  apply List.ext_getElem
  · simp
  · intro i first second
    simp [window, Nat.add_assoc]

end Gam.Ring
