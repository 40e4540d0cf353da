import Mathlib.Data.List.Range
import Mathlib.Tactic.Ring

/-!
# Flat byte memory

Memory as a function from addresses to bytes, with the two block operations programs use: `store`
copies a list of bytes to an address and `load` reads a number of bytes from one.
-/

namespace Gam

/-- A byte for each address. -/
abbrev Memory := Nat → UInt8

namespace Memory

/-- `memcpy` of `data` to the address `p`. -/
def store (m : Memory) (p : Nat) (data : List UInt8) : Memory := fun a =>
  if p ≤ a then data.getD (a - p) (m a) else m a

/-- The `len` bytes at the address `p`. -/
def load (m : Memory) (p len : Nat) : List UInt8 := (List.range len).map fun i => m (p + i)

variable {m : Memory} {p q len : Nat} {data more : List UInt8}

@[simp] theorem length_load : (m.load p len).length = len := by simp [load]

@[simp] theorem load_zero : m.load p 0 = [] := rfl

theorem load_add {first second : Nat} : m.load p (first + second) = m.load p first ++ m.load (p + first) second := by
  simp [load, List.range_add, Nat.add_assoc, Function.comp_def]

theorem store_outside {a : Nat} (away : a < p ∨ p + data.length ≤ a) : m.store p data a = m a := by
  unfold store
  split
  · rw [List.getD_eq_getElem?_getD, List.getElem?_eq_none (by omega), Option.getD_none]
  · rfl

theorem store_inside {i : Nat} (inside : i < data.length) : m.store p data (p + i) = data[i] := by
  simp [store, inside]

theorem load_store : (m.store p data).load p data.length = data := by
  apply List.ext_getElem
  · simp
  · intro i first second
    simp [load, store_inside second]

/-- Bytes that lie apart from the copied ones stay. -/
theorem load_store_apart (apart : q + len ≤ p ∨ p + data.length ≤ q) : (m.store p data).load q len = m.load q len := by
  apply List.map_congr_left
  intro i member
  rw [List.mem_range] at member
  exact store_outside (by omega)

/-- A copy right behind a piece of memory extends what is read there. -/
theorem load_store_behind (data : List UInt8) (held : m.load p len = more) :
    (m.store (p + len) data).load p (len + data.length) = more ++ data := by
  rw [load_add, load_store, load_store_apart (Or.inl (Nat.le_refl _)), held]

/-- The front of a copied list is read back from the address it was copied to. -/
theorem load_store_front {front : List UInt8} (split : data = front ++ more) :
    (m.store p data).load p front.length = front := by
  have whole : (m.store p data).load p data.length = data := load_store
  rw [split] at whole ⊢
  rw [List.length_append, load_add] at whole
  exact (List.append_inj whole (by simp)).1

end Memory

end Gam
