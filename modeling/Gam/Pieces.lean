import Mathlib.Data.Set.Insert
import Mathlib.Logic.Function.Basic
import Gam.Heap

/-!
# Pieces of memory in a heap

A program's data as pieces with names of any type: each piece is a string of bytes inside a live region,
and different pieces lie apart. A write to one piece leaves the others, a new region gives room for a new
piece, and a piece that is a region of its own can be freed.
-/

namespace Gam

open Function

/-- The pieces in `alive` are in the heap, at `addr` and with the content `bytes`. -/
structure Pieces {ι : Type} (h : Heap) (alive : Set ι) (addr : ι → Nat) (bytes : ι → List UInt8) : Prop where
  inside : ∀ x ∈ alive, ∃ r ∈ h.live, r.Holds (addr x) (bytes x).length
  apart : ∀ x ∈ alive, ∀ y ∈ alive, x ≠ y → Region.Apart ⟨addr x, (bytes x).length⟩ ⟨addr y, (bytes y).length⟩
  content : ∀ x ∈ alive, h.mem.load (addr x) (bytes x).length = bytes x

namespace Pieces

variable {ι : Type} {h : Heap} {alive alive' : Set ι} {addr addr' : ι → Nat} {bytes bytes' : ι → List UInt8}
  {supply : Supply} {x : ι}

theorem mono (pieces : Pieces h alive addr bytes) (fewer : alive' ⊆ alive) : Pieces h alive' addr bytes :=
  ⟨fun x there => pieces.inside x (fewer there), fun x there y there' => pieces.apart x (fewer there) y (fewer there'),
    fun x there => pieces.content x (fewer there)⟩

/-- Only the places and contents of the pieces matter. -/
theorem congr (pieces : Pieces h alive addr bytes) (same : ∀ x ∈ alive, addr' x = addr x ∧ bytes' x = bytes x) :
    Pieces h alive addr' bytes' := by
  refine ⟨fun x there => ?_, fun x there y there' different => ?_, fun x there => ?_⟩
  · rw [(same x there).1, (same x there).2]
    exact pieces.inside x there
  · rw [(same x there).1, (same x there).2, (same y there').1, (same y there').2]
    exact pieces.apart x there y there' different
  · rw [(same x there).1, (same x there).2]
    exact pieces.content x there

/-- Addresses of pieces are not null and fit a word. -/
theorem placed (pieces : Pieces h alive addr bytes) (ok : h.Ok) (member : x ∈ alive) (nonempty : bytes x ≠ []) :
    addr x ≠ 0 ∧ addr x < 2 ^ 64 := by
  obtain ⟨r, live, holds⟩ := pieces.inside x member
  have bounds := ok.placed r live
  have length := List.length_pos_iff.mpr nonempty
  simp only [Region.Holds] at holds
  omega

variable [DecidableEq ι]

/-- The front of a piece is overwritten. -/
theorem write (pieces : Pieces h alive addr bytes) (ok : h.Ok) (x : ι) (data : List UInt8) (member : x ∈ alive)
    (short : data.length ≤ (bytes x).length) : (h.write (addr x) data).Ok ∧
      Pieces (h.write (addr x) data) alive addr (update bytes x (data ++ (bytes x).drop data.length)) := by
  obtain ⟨r, live, holds⟩ := pieces.inside x member
  have lengths : ∀ y, (update bytes x (data ++ (bytes x).drop data.length) y).length = (bytes y).length := fun y => by
    by_cases same : y = x
    · rw [same, update_self, List.length_append, List.length_drop]
      omega
    · rw [update_of_ne same]
  refine ⟨ok.write live ⟨holds.1, ?_⟩, ?_, ?_, ?_⟩
  · have stop := holds.2
    omega
  · intro y there
    rw [lengths]
    exact pieces.inside y there
  · intro y there z there' different
    rw [lengths, lengths]
    exact pieces.apart y there z there' different
  · intro y there
    by_cases same : y = x
    · subst same
      rw [update_self, List.length_append, List.length_drop, Memory.load_add]
      have old := pieces.content y there
      rw [← Nat.add_sub_of_le short, Memory.load_add] at old
      have tail := congrArg (List.drop data.length) old
      rw [List.drop_left' Memory.length_load] at tail
      congr 1
      · exact Memory.load_store
      · exact (Memory.load_store_apart (Or.inr (Nat.le_refl _))).trans tail
    · have apart := pieces.apart x member y there (Ne.symm same)
      rw [update_of_ne same]
      refine (Memory.load_store_apart ?_).trans (pieces.content y there)
      simp only [Region.Apart, Region.stop] at apart
      omega

/-- A piece gets new content of the same length. -/
theorem rewrite (pieces : Pieces h alive addr bytes) (ok : h.Ok) (x : ι) (data : List UInt8) (member : x ∈ alive)
    (length : data.length = (bytes x).length) :
    (h.write (addr x) data).Ok ∧ Pieces (h.write (addr x) data) alive addr (update bytes x data) := by
  have written := pieces.write ok x data member length.le
  rwa [length, List.drop_length, List.append_nil] at written

/-- A fresh region becomes a new piece. -/
theorem create (pieces : Pieces h alive addr bytes) (ok : h.Ok) (x : ι) (new : List UInt8) (absent : x ∉ alive)
    (sound : (h.alloc supply new.length).2.sound = true) :
    ((h.alloc supply new.length).2.write (h.alloc supply new.length).1 new).Ok ∧
      Pieces ((h.alloc supply new.length).2.write (h.alloc supply new.length).1 new) (insert x alive)
        (update addr x (h.alloc supply new.length).1) (update bytes x new) := by
  obtain ⟨_, _, fresh⟩ := (Heap.alloc_fresh sound).2
  have others : ∀ y ∈ alive, y ≠ x := fun y member same => absent (same ▸ member)
  have away : ∀ y ∈ alive, Region.Apart ⟨(h.alloc supply new.length).1, new.length⟩ ⟨addr y, (bytes y).length⟩ := fun y member => by
    obtain ⟨r, live, holds⟩ := pieces.inside y member
    refine (fresh r live).pieces ?_ holds
    simp [Region.Holds, Region.stop]
  refine ⟨(ok.alloc sound).write (List.mem_cons_self ..) ⟨Nat.le_refl _, Nat.le_refl _⟩, ?_, ?_, ?_⟩
  · rintro y (rfl | member)
    · rw [update_self, update_self]
      exact ⟨_, List.mem_cons_self .., Nat.le_refl _, Nat.le_refl _⟩
    · rw [update_of_ne (others y member), update_of_ne (others y member)]
      obtain ⟨r, live, holds⟩ := pieces.inside y member
      exact ⟨r, List.mem_cons_of_mem _ live, holds⟩
  · rintro y (rfl | member) z (rfl | member') different
    · exact absurd rfl different
    · rw [update_self, update_self, update_of_ne (others z member'), update_of_ne (others z member')]
      exact away z member'
    · rw [update_self, update_self, update_of_ne (others y member), update_of_ne (others y member)]
      exact (away y member).symm
    · rw [update_of_ne (others y member), update_of_ne (others y member),
        update_of_ne (others z member'), update_of_ne (others z member')]
      exact pieces.apart y member z member' different
  · rintro y (rfl | member)
    · rw [update_self, update_self]
      exact Memory.load_store
    · rw [update_of_ne (others y member), update_of_ne (others y member)]
      refine (Memory.load_store_apart ?_).trans (pieces.content y member)
      have apart := away y member
      simp only [Region.Apart, Region.stop] at apart
      omega

omit [DecidableEq ι] in
/-- A piece that is a region of its own is freed. -/
theorem free (pieces : Pieces h alive addr bytes) (ok : h.Ok) (supply : Supply) (filled : ∀ r ∈ h.live, 0 < r.len)
    (nonempty : ∀ y ∈ alive, bytes y ≠ []) (x : ι) (member : x ∈ alive) (region : ⟨addr x, (bytes x).length⟩ ∈ h.live) :
    (h.free supply (addr x)).Ok ∧ Pieces (h.free supply (addr x)) (alive \ {x}) addr bytes ∧
      ∀ r, r ∈ (h.free supply (addr x)).live ↔ r ∈ h.live ∧ r ≠ ⟨addr x, (bytes x).length⟩ := by
  obtain ⟨ok', live, kept⟩ := ok.free supply filled region
  refine ⟨ok', ⟨?_, ?_, ?_⟩, live⟩
  · rintro y ⟨there, other⟩
    obtain ⟨r, listed, holds⟩ := pieces.inside y there
    refine ⟨r, (live r).mpr ⟨listed, ?_⟩, holds⟩
    rintro rfl
    have apart := pieces.apart y there x member other
    have length := List.length_pos_iff.mpr (nonempty y there)
    simp only [Region.Apart, Region.Holds, Region.stop] at apart holds
    omega
  · exact fun y there z there' => pieces.apart y there.1 z there'.1
  · rintro y ⟨there, other⟩
    have apart := pieces.apart y there x member other
    rw [← pieces.content y there, Memory.length_load]
    refine List.map_congr_left fun i below => kept _ ?_
    rw [List.mem_range] at below
    simp only [Region.Apart, Region.stop] at apart ⊢
    omega

end Pieces

end Gam
