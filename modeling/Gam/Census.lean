import Mathlib.Data.Set.Card

/-!
# Counting a set that changes at one place

A counter that is kept next to a set: when one element enters or leaves, the counter moves by one.
-/

namespace Gam

open Classical in
/-- Whether an element is there, as a number. -/
noncomputable def mark {α : Type*} (set : Set α) (a : α) : Int := if a ∈ set then 1 else 0

theorem mark_of_mem {α : Type*} {set : Set α} {a : α} (member : a ∈ set) : mark set a = 1 := if_pos member

theorem mark_of_notMem {α : Type*} {set : Set α} {a : α} (absent : a ∉ set) : mark set a = 0 := if_neg absent

/-- The set is finite and has so many elements. -/
structure Census {α : Type*} (set : Set α) (count : Int) : Prop where
  finite : set.Finite
  exact : count = set.ncard

namespace Census

variable {α : Type*} {set set' : Set α} {count : Int}

theorem empty : Census (∅ : Set α) 0 := ⟨Set.finite_empty, by rw [Set.ncard_empty]; rfl⟩

theorem le {count' : Int} (census : Census set count) (census' : Census set' count') (subset : set ⊆ set') : count ≤ count' := by
  rw [census.exact, census'.exact, Int.ofNat_le]
  exact Set.ncard_le_ncard subset census'.finite

theorem ext_at {a : α} (here : a ∈ set' ↔ a ∈ set) (others : ∀ b, b ≠ a → (b ∈ set' ↔ b ∈ set)) : set' = set := by
  ext b
  by_cases same : b = a
  · rw [same]
    exact here
  · exact others b same

/-- The two sets agree everywhere but at one element. -/
theorem change (census : Census set count) (a : α) (others : ∀ b, b ≠ a → (b ∈ set' ↔ b ∈ set)) :
    Census set' (count + mark set' a - mark set a) := by
  by_cases before : a ∈ set <;> by_cases after : a ∈ set'
  · rw [ext_at (iff_of_true after before) others, add_sub_cancel_right]
    exact census
  · have less : set' = set \ {a} :=
      ext_at (iff_of_false after fun inside => inside.2 rfl) fun b other =>
        (others b other).trans ⟨fun member => ⟨member, other⟩, fun member => member.1⟩
    rw [mark_of_mem before, mark_of_notMem after, less]
    refine ⟨census.finite.subset Set.sdiff_subset, ?_⟩
    have size := Set.ncard_sdiff_singleton_add_one before census.finite
    have counted := census.exact
    omega
  · have more : set' = insert a set :=
      ext_at (iff_of_true after (Or.inl rfl)) fun b other =>
        (others b other).trans ⟨Or.inr, fun member => member.resolve_left other⟩
    rw [mark_of_notMem before, mark_of_mem after, more]
    refine ⟨census.finite.insert a, ?_⟩
    rw [Set.ncard_insert_of_notMem before census.finite, census.exact]
    omega
  · rw [mark_of_notMem before, mark_of_notMem after, ext_at (iff_of_false after before) others, add_zero, sub_zero]
    exact census

end Census

end Gam
