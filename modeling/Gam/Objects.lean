import Mathlib.Data.Set.Insert
import Mathlib.Logic.Function.Basic
import Gam.Heap

/-!
# Objects in a heap

A program's data as objects with names of any type: each object is a list of words inside a live
region, and different objects lie apart. Writing one object leaves the others, and a new region gives
room for a new object.
-/

namespace Gam

open Function

namespace Heap

/-- The `n` words at `p`. -/
def readWords (h : Heap) (p n : Nat) : List Nat := (List.range n).map fun i => h.readWord (p + 8 * i)

def writeWords (p : Nat) (words : List Nat) (h : Heap) : Heap := h.write p (words.flatMap (bytesOf 8))

variable {h : Heap} {p q n : Nat} {words : List Nat}

theorem length_flatMap_bytesOf (words : List Nat) : (words.flatMap (bytesOf 8)).length = 8 * words.length := by
  induction words with
  | nil => rfl
  | cons w words ih => rw [List.flatMap_cons, List.length_append, ih, length_bytesOf, List.length_cons]; omega

@[simp] theorem length_readWords : (h.readWords p n).length = n := by simp [readWords]

@[simp] theorem writeWords_live : (h.writeWords p words).live = h.live := rfl

@[simp] theorem writeWords_sound : (h.writeWords p words).sound = h.sound := rfl

@[simp] theorem writeWords_tick : (h.writeWords p words).tick = h.tick := rfl

/-- What lies apart from the written words stays. -/
theorem readWords_writeWords_apart (apart : Region.Apart ⟨p, 8 * words.length⟩ ⟨q, 8 * n⟩) :
    (h.writeWords p words).readWords q n = h.readWords q n := by
  apply List.map_congr_left
  intro i member
  rw [List.mem_range] at member
  rw [readWord, readWord]
  congr 1
  apply Memory.load_store_apart
  rw [length_flatMap_bytesOf]
  simp only [Region.Apart, Region.stop] at apart
  omega

theorem flatMap_bytesOf_slice {i : Nat} (below : i < words.length) :
    ((words.flatMap (bytesOf 8)).drop (8 * i)).take 8 = bytesOf 8 (words.get ⟨i, below⟩) := by
  induction words generalizing i with
  | nil => exact absurd below (Nat.not_lt_zero i)
  | cons w words ih =>
    rw [List.flatMap_cons]
    cases i with
    | zero => rw [Nat.mul_zero, List.drop_zero, List.take_left' (length_bytesOf ..)]; rfl
    | succ i =>
      rw [Nat.mul_succ, Nat.add_comm, ← List.drop_drop, List.drop_left' (length_bytesOf ..)]
      exact ih (Nat.lt_of_succ_lt_succ below)

theorem readWords_writeWords (small : ∀ w ∈ words, w < 2 ^ 64) :
    (h.writeWords p words).readWords p words.length = words := by
  apply List.ext_getElem
  · simp
  · intro i first second
    have stored : (h.writeWords p words).mem.load (p + 8 * i) 8 = bytesOf 8 (words.get ⟨i, second⟩) := by
      rw [← flatMap_bytesOf_slice second]
      apply List.ext_getElem
      · simp
        omega
      · intro j first' second'
        have inside : 8 * i + j < (words.flatMap (bytesOf 8)).length := by
          simp at first'
          rw [length_flatMap_bytesOf]
          omega
        simp only [Memory.load, List.getElem_map, List.getElem_range, List.getElem_take, List.getElem_drop]
        rw [Nat.add_assoc]
        exact Memory.store_inside inside
    simp only [readWords, List.getElem_map, List.getElem_range, readWord, stored]
    exact valueOf_bytesOf (small _ (List.get_mem ..))

end Heap

/-- The objects in `alive` are in the heap, at `addr` and with the content `words`. -/
structure Objects {ι : Type} (h : Heap) (alive : Set ι) (addr : ι → Nat) (words : ι → List Nat) : Prop where
  inside : ∀ x ∈ alive, ∃ r ∈ h.live, r.Holds (addr x) (8 * (words x).length)
  apart : ∀ x ∈ alive, ∀ y ∈ alive, x ≠ y →
    Region.Apart ⟨addr x, 8 * (words x).length⟩ ⟨addr y, 8 * (words y).length⟩
  content : ∀ x ∈ alive, h.readWords (addr x) (words x).length = words x

namespace Objects
variable {ι : Type} {h : Heap} {alive : Set ι} {addr : ι → Nat} {words : ι → List Nat}
  {supply : Supply} {x : ι} {new : List Nat}

/-- Addresses of objects are not null and fit a word. -/
theorem placed (objects : Objects h alive addr words) (ok : h.Ok) (member : x ∈ alive)
    (nonempty : words x ≠ []) : addr x ≠ 0 ∧ addr x < 2 ^ 64 := by
  obtain ⟨r, live, holds⟩ := objects.inside x member
  have bounds := ok.placed r live
  have length := List.length_pos_iff.mpr nonempty
  simp only [Region.Holds] at holds
  omega

variable [DecidableEq ι]

/-- An object gets new content of the same length. -/
theorem write (objects : Objects h alive addr words) (ok : h.Ok) (x : ι) (new : List Nat) (member : x ∈ alive)
    (length : new.length = (words x).length) (small : ∀ w ∈ new, w < 2 ^ 64) : (h.writeWords (addr x) new).Ok ∧
      Objects (h.writeWords (addr x) new) alive addr (update words x new) := by
  obtain ⟨r, live, holds⟩ := objects.inside x member
  have lengths : ∀ y, (update words x new y).length = (words y).length := fun y => by
    by_cases same : y = x
    · rw [same, update_self, length]
    · rw [update_of_ne same]
  refine ⟨ok.write live (by rwa [Heap.length_flatMap_bytesOf, length]), ?_, ?_, ?_⟩
  · intro y there
    rw [lengths]
    exact objects.inside y there
  · intro y there z there' different
    rw [lengths, lengths]
    exact objects.apart y there z there' different
  · intro y there
    by_cases same : y = x
    · subst same
      rw [update_self]
      exact Heap.readWords_writeWords small
    · rw [update_of_ne same, Heap.readWords_writeWords_apart, objects.content y there]
      rw [length]
      exact objects.apart x member y there (Ne.symm same)

/-- A fresh region becomes a new object. -/
theorem create (objects : Objects h alive addr words) (ok : h.Ok) (absent : x ∉ alive)
    (sound : (h.alloc supply (8 * new.length)).2.sound = true) (small : ∀ w ∈ new, w < 2 ^ 64) :
    ((h.alloc supply (8 * new.length)).2.writeWords (h.alloc supply (8 * new.length)).1 new).Ok ∧
      Objects ((h.alloc supply (8 * new.length)).2.writeWords (h.alloc supply (8 * new.length)).1 new)
        (insert x alive) (update addr x (h.alloc supply (8 * new.length)).1) (update words x new) := by
  obtain ⟨_, _, fresh⟩ := (Heap.alloc_fresh sound).2
  have others : ∀ y ∈ alive, y ≠ x := fun y member same => absent (same ▸ member)
  have away : ∀ y ∈ alive, Region.Apart ⟨(h.alloc supply (8 * new.length)).1, 8 * new.length⟩
      ⟨addr y, 8 * (words y).length⟩ := fun y member => by
    obtain ⟨r, live, holds⟩ := objects.inside y member
    refine (fresh r live).pieces ?_ holds
    simp [Region.Holds, Region.stop]
  refine ⟨(ok.alloc sound).write (List.mem_cons_self ..) ?_, ?_, ?_, ?_⟩
  · rw [Heap.length_flatMap_bytesOf]
    exact ⟨Nat.le_refl _, Nat.le_refl _⟩
  · rintro y (rfl | member)
    · rw [update_self, update_self]
      exact ⟨_, List.mem_cons_self .., Nat.le_refl _, Nat.le_refl _⟩
    · rw [update_of_ne (others y member), update_of_ne (others y member)]
      obtain ⟨r, live, holds⟩ := objects.inside y member
      exact ⟨r, List.mem_cons_of_mem _ live, holds⟩
  · rintro y (rfl | member) z (rfl | member') different
    · exact absurd rfl different
    · rw [update_self, update_self, update_of_ne (others z member'), update_of_ne (others z member')]
      exact away z member'
    · rw [update_self, update_self, update_of_ne (others y member), update_of_ne (others y member)]
      exact (away y member).symm
    · rw [update_of_ne (others y member), update_of_ne (others y member),
        update_of_ne (others z member'), update_of_ne (others z member')]
      exact objects.apart y member z member' different
  · rintro y (rfl | member)
    · rw [update_self, update_self]
      exact Heap.readWords_writeWords small
    · rw [update_of_ne (others y member), update_of_ne (others y member),
        Heap.readWords_writeWords_apart (away y member)]
      exact objects.content y member

/-- A program that needs memory for a new object gets it or ends. -/
theorem malloc (objects : Objects h alive addr words) (ok : h.Ok) (supply : Supply) (size : Nat) (x : ι)
    (new : List Nat) (absent : x ∉ alive) (length : size = 8 * new.length) (nonempty : new ≠ []) (small : ∀ w ∈ new, w < 2 ^ 64) :
    h.malloc supply size = .error .memory ∨ ∃ p g, h.malloc supply size = .ok (p, g) ∧ p ≠ 0 ∧ p < 2 ^ 64 ∧
      (g.writeWords p new).Ok ∧
      Objects (g.writeWords p new) (insert x alive) (update addr x p) (update words x new) := by
  subst length
  unfold Heap.malloc
  by_cases sound : (h.alloc supply (8 * new.length)).2.sound = true
  · rw [if_pos sound]
    obtain ⟨ok', created⟩ := objects.create ok absent sound small
    have bounds := created.placed ok' (Set.mem_insert x alive) (by rwa [update_self])
    rw [update_self] at bounds
    exact Or.inr ⟨_, _, rfl, bounds.1, bounds.2, ok', created⟩
  · exact Or.inl (if_neg sound)

end Objects

end Gam
