import Gam.Ring

/-!
# What a ring holds

The values in a window of a ring, read in order, and stores of several values that wrap around at the end of
the ring. A store behind the window makes the window longer by the values stored.
-/

namespace Gam.Ring

variable {α : Type} {cap tail pos count : Nat} {buf buf' buf'' : Nat → α} {values more : List α}

/-- The values of the `count` cells from `tail` on. -/
def contents (cap : Nat) (buf : Nat → α) (tail count : Nat) : List α := (window cap tail count).map buf

@[simp] theorem length_contents : (contents cap buf tail count).length = count := by
  simp [contents]

theorem getElem_contents {i : Nat} (inside : i < (contents cap buf tail count).length) :
    (contents cap buf tail count)[i] = buf ((tail + i) % cap) := by
  simp [contents, window]

/-- `buf'` holds `values` from cell `pos` on and is `buf` elsewhere. -/
structure Stored (cap : Nat) (buf buf' : Nat → α) (pos : Nat) (values : List α) : Prop where
  here : ∀ i, (inside : i < values.length) → buf' ((pos + i) % cap) = values[i]
  elsewhere : ∀ cell, cell ∉ window cap pos values.length → buf' cell = buf cell

theorem notMem_window_append {first second cell : Nat} (outside : cell ∉ window cap pos (first + second)) :
    cell ∉ window cap pos first ∧ cell ∉ window cap ((pos + first) % cap) second := by
  constructor
  · intro member
    obtain ⟨k, below, rfl⟩ := mem_window.mp member
    exact outside (mem_window.mpr ⟨k, by omega, rfl⟩)
  · intro member
    obtain ⟨k, below, rfl⟩ := mem_window.mp member
    refine outside (mem_window.mpr ⟨first + k, by omega, ?_⟩)
    rw [Nat.mod_add_mod, Nat.add_assoc]

/-- A cell of a window is not one of the cells that follow it, as long as they fit into one turn. -/
theorem notMem_window_of_mem {first second i : Nat} (fits : first + second ≤ cap) (below : i < first) :
    (pos + i) % cap ∉ window cap ((pos + first) % cap) second := by
  intro member
  obtain ⟨k, bound, same⟩ := mem_window.mp member
  rw [Nat.mod_add_mod, Nat.add_assoc] at same
  have equal := offset_injective (by omega) (by omega) same
  omega

/-- Two stores, the second right behind the first. -/
theorem Stored.append (first : Stored cap buf buf' pos values) (second : Stored cap buf' buf'' ((pos + values.length) % cap) more)
    (fits : values.length + more.length ≤ cap) : Stored cap buf buf'' pos (values ++ more) := by
  constructor
  · intro i inside
    by_cases before : i < values.length
    · rw [List.getElem_append_left before, second.elsewhere _ (notMem_window_of_mem fits before), first.here i before]
    · rw [List.length_append] at inside
      rw [List.getElem_append_right (by omega), ← second.here (i - values.length) (by omega), Nat.mod_add_mod]
      congr 2
      omega
  · intro cell outside
    rw [List.length_append] at outside
    obtain ⟨notFirst, notSecond⟩ := notMem_window_append outside
    rw [second.elsewhere cell notSecond, first.elsewhere cell notFirst]

/-- A store behind a window leaves the window. -/
theorem Stored.keeps (stored : Stored cap buf buf' ((tail + count) % cap) values) (fits : count + values.length ≤ cap) :
    ∀ cell ∈ window cap tail count, buf' cell = buf cell := by
  intro cell member
  obtain ⟨i, below, rfl⟩ := mem_window.mp member
  exact stored.elsewhere _ (notMem_window_of_mem fits below)

/-- A store right behind a window adds the values to it. -/
theorem Stored.contents_add (stored : Stored cap buf buf' ((tail + count) % cap) values) (fits : count + values.length ≤ cap) :
    contents cap buf' tail (count + values.length) = contents cap buf tail count ++ values := by
  apply List.ext_getElem (by simp)
  intro i inside _
  rw [length_contents] at inside
  rw [getElem_contents]
  by_cases before : i < count
  · rw [List.getElem_append_left (by simpa using before), getElem_contents,
      stored.keeps fits _ (mem_window.mpr ⟨i, before, rfl⟩)]
  · rw [List.getElem_append_right (by simpa using before)]
    have value := stored.here (i - count) (by omega)
    rw [Nat.mod_add_mod, Nat.add_assoc, Nat.add_sub_of_le (Nat.le_of_not_lt before)] at value
    rw [value]
    simp only [length_contents]

end Gam.Ring
