import Mathlib.Data.List.Basic

/-!
# Copies between places of a memory

A copy says for each place it writes which place it reads. When many copies agree on where each place comes
from, and no place is both read and written, their order does not matter and neither does it when one is
repeated.
-/

namespace Gam

/-- For each place that is written, the place that is read. -/
abbrev Transfer (α : Type*) := α → Option α

namespace Transfer

variable {α β : Type*}

/-- The memory after a copy. -/
def apply (memory : α → β) (copy : Transfer α) : α → β := fun a =>
  match copy a with
  | none => memory a
  | some source => memory source

/-- The memory after copies, one after the other. -/
def run (memory : α → β) (copies : List (Transfer α)) : α → β := copies.foldl apply memory

variable {memory : α → β} {copy : Transfer α} {copies : List (Transfer α)} {a source : α}

theorem apply_of_none (kept : copy a = none) : apply memory copy a = memory a := by rw [apply, kept]

theorem apply_of_some (copied : copy a = some source) : apply memory copy a = memory source := by rw [apply, copied]

/-- Nothing else is written. -/
theorem run_of_none (kept : ∀ copy ∈ copies, copy a = none) : run memory copies a = memory a := by
  induction copies generalizing memory with
  | nil => rfl
  | cons copy rest ih =>
    rw [run, List.foldl_cons]
    exact (ih fun c later => kept c (List.mem_cons_of_mem _ later)).trans (apply_of_none (kept copy List.mem_cons_self))

/-- A place that is written has what its source held at the start. -/
theorem run_of_some (agree : ∀ copy ∈ copies, copy a = none ∨ copy a = some source) (covered : ∃ copy ∈ copies, copy a = some source)
    (still : ∀ copy ∈ copies, copy source = none) : run memory copies a = memory source := by
  induction copies generalizing memory with
  | nil =>
    obtain ⟨_, impossible, _⟩ := covered
    exact absurd impossible List.not_mem_nil
  | cons copy rest ih =>
    rw [run, List.foldl_cons]
    have unread : apply memory copy source = memory source := apply_of_none (still copy List.mem_cons_self)
    have later : ∀ c ∈ rest, c a = none ∨ c a = some source := fun c member => agree c (List.mem_cons_of_mem _ member)
    by_cases again : ∃ c ∈ rest, c a = some source
    · rw [← unread]
      exact ih later again fun c member => still c (List.mem_cons_of_mem _ member)
    · -- the first copy is the last one to this place
      have kept : ∀ c ∈ rest, c a = none := fun c member => (later c member).resolve_right fun same => again ⟨c, member, same⟩
      have here : copy a = some source := by
        obtain ⟨c, member, copied⟩ := covered
        rcases List.mem_cons.mp member with rfl | member
        · exact copied
        · exact absurd ⟨c, member, copied⟩ again
      exact (run_of_none kept).trans (apply_of_some here)

end Transfer

end Gam
