import Mathlib

/-!
# Disjoint intervals

Pieces of memory that lie apart from each other inside a region are together no longer than it.
-/

namespace Gam

/-- Two intervals, given by start and length, that lie apart. -/
def Apart (p m q n : Nat) : Prop := p + m ≤ q ∨ q + n ≤ p

theorem Apart.symm {p m q n : Nat} (apart : Apart p m q n) : Apart q n p m := Or.symm apart

theorem sum_lengths_le {ι : Type} (start length : ι → Nat) {low high : Nat} {pieces : List ι}
    (apart : pieces.Pairwise fun x y => Apart (start x) (length x) (start y) (length y))
    (inside : ∀ x ∈ pieces, low ≤ start x ∧ start x + length x ≤ high) : (pieces.map length).sum ≤ high - low := by
  -- the points covered so far are as many as the lengths add up to
  have covered : ∃ points : Finset Nat, points.card = (pieces.map length).sum ∧
      ∀ a ∈ points, ∃ x ∈ pieces, start x ≤ a ∧ a < start x + length x := by
    induction pieces with
    | nil => exact ⟨∅, rfl, by simp⟩
    | cons x rest ih =>
      obtain ⟨first, later⟩ := List.pairwise_cons.mp apart
      obtain ⟨points, card, from_rest⟩ :=
        ih later fun y member => inside y (List.mem_cons_of_mem _ member)
      refine ⟨Finset.Ico (start x) (start x + length x) ∪ points, ?_, ?_⟩
      · rw [Finset.card_union_of_disjoint, Nat.card_Ico, card, List.map_cons, List.sum_cons]
        · omega
        · rw [Finset.disjoint_left]
          intro a here there
          obtain ⟨y, member, above, below⟩ := from_rest a there
          rw [Finset.mem_Ico] at here
          rcases first y member with before | after <;> omega
      · intro a member
        rcases Finset.mem_union.mp member with here | there
        · rw [Finset.mem_Ico] at here
          exact ⟨x, List.mem_cons_self .., here⟩
        · obtain ⟨y, listed, bounds⟩ := from_rest a there
          exact ⟨y, List.mem_cons_of_mem _ listed, bounds⟩
  obtain ⟨points, card, from_pieces⟩ := covered
  have subset : points ⊆ Finset.Ico low high := by
    intro a member
    obtain ⟨x, listed, above, below⟩ := from_pieces a member
    have bounds := inside x listed
    rw [Finset.mem_Ico]
    omega
  have bounded := Finset.card_le_card subset
  rwa [Nat.card_Ico, card] at bounded

end Gam
