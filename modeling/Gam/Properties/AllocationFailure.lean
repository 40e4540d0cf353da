import Gam.Slab.Classes
import Gam.Slab.Requests
import Gam.Slab.Runs

/-!
# Requests for memory that is not there

`memset` clears the memory before the requests look at the pointer, the client under memory pressure is
locked before it is looked at, and a cache line is kept with whatever pointer it got. All is well when the
allocator has a chunk of the class.
-/

namespace Gam.Slab

open Function

/-! ## When the allocator has a chunk -/

namespace SlabAllocator

variable {s : SlabAllocator} {id ptr size : Nat}

theorem slCurr_doSlabsFree (first : 1 ≤ id) (last : id ≤ s.powerLargest) (ptr size : Nat) :
    ((s.doSlabsFree ptr size id).slabclass id).slCurr = ((s.slabclass id).slCurr + 1) % 2 ^ 32 := by
  rw [doSlabsFree, if_neg (by omega)]
  show (update s.slabclass id _ id).slCurr = _
  rw [update_self]

/-- The chunks of a new slab are counted. -/
theorem slCurr_splitSlabPage (count : Nat) (first : 1 ≤ id) (last : id ≤ s.powerLargest) :
    ((splitSlabPage id count ptr s).slabclass id).slCurr % 2 ^ 32 = ((s.slabclass id).slCurr + count) % 2 ^ 32 := by
  induction count generalizing ptr s with
  | zero => rfl
  | succ count ih =>
    have last' : id ≤ (s.doSlabsFree ptr 0 id).powerLargest := by rwa [powerLargest, Core.sizes_doSlabsFree]
    rw [splitSlabPage, ih last', slCurr_doSlabsFree first last]
    omega

/-- There is room for another slab of the class. -/
def SlabFits (s : SlabAllocator) (id : Nat) (ok : Bool) : Prop :=
  s.size id ≤ itemSizeMax ∧ ¬(s.memLimit ≠ 0 ∧ s.memLimit < (s.memMalloced + itemSizeMax) % 2 ^ 64 ∧ 0 < (s.slabclass id).slabs) ∧
    ((s.slabclass id).slabs ≠ (s.slabclass id).listSize ∨ ok) ∧ itemSizeMax ≤ s.memAvail

/-- There is a class for the size, and a free chunk of it or room for a slab of such chunks. -/
def Serves (s : SlabAllocator) (size : Nat) (ok : Bool) : Prop :=
  s.memLimit ≠ 0 ∧ 1 ≤ s.slabsClsid size ∧ ((s.slabclass (s.slabsClsid size)).slCurr ≠ 0 ∨ s.SlabFits (s.slabsClsid size) ok)

/-- A new slab of a class that has no free chunk brings some. -/
theorem slCurr_newslab {ok : Bool} (least : 0 < s.size id) (first : 1 ≤ id) (last : id ≤ s.powerLargest)
    (empty : (s.slabclass id).slCurr = 0) (fits : s.SlabFits id ok) : ((s.doSlabsNewslab id ok).2.slabclass id).slCurr ≠ 0 := by
  obtain ⟨small, below, grows, room⟩ := fits
  have positive : 0 < s.perslab id := Nat.div_pos small least
  have bound : s.perslab id ≤ itemSizeMax := Nat.div_le_self ..
  obtain ⟨s₁, grown, count, avail, sizes⟩ : ∃ s₁, s.growSlabList id ok = some s₁ ∧ (s₁.slabclass id).slCurr = 0 ∧
      s₁.memAvail = s.memAvail ∧ s₁.sizes = s.sizes := by
    rw [growSlabList]
    dsimp only
    by_cases full : (s.slabclass id).slabs = (s.slabclass id).listSize
    · have more : ok = true := grows.resolve_left fun other => other full
      rw [if_pos full, if_pos more]
      refine ⟨_, rfl, ?_, rfl, rfl⟩
      simp only [update_self]
      exact empty
    · rw [if_neg full]
      exact ⟨s, rfl, empty, rfl, rfl⟩
  obtain ⟨ptr, s₂, allocated, class₂, sizes₂⟩ : ∃ ptr s₂, s₁.memoryAllocate itemSizeMax = some (ptr, s₂) ∧
      s₂.slabclass = s₁.slabclass ∧ s₂.sizes = s₁.sizes := by
    rw [memoryAllocate, if_neg (by rw [avail]; omega)]
    exact ⟨_, _, rfl, rfl, rfl⟩
  have last₂ : id ≤ s₂.powerLargest := by rwa [powerLargest, sizes₂, sizes]
  have same : s₂.perslab id = s.perslab id := by rw [perslab, perslab, SlabAllocator.size, SlabAllocator.size, sizes₂, sizes]
  have counted := @slCurr_splitSlabPage s₂ id ptr (s₂.perslab id) first last₂
  rw [class₂, count, same] at counted
  simp only [doSlabsNewslab, if_neg below, grown, allocated, update_self, same]
  rw [itemSizeMax] at bound
  omega

theorem slabsClsid_le (s : SlabAllocator) {size : Nat} (found : 1 ≤ s.slabsClsid size) : s.slabsClsid size ≤ s.powerLargest := by
  unfold slabsClsid at found ⊢
  split at found
  · cases found
  · next nonzero =>
    obtain ⟨before, chunk, after, same, class', _⟩ := clsidFrom_spec size s.sizes 0 (Nat.ne_of_gt found)
    rw [if_neg nonzero, class', powerLargest, same, List.length_append, List.length_cons]
    omega

end SlabAllocator

/-- An allocation that can be served succeeds. -/
theorem Core.serves {s : SlabAllocator} {live : List Chunk} {free : Nat → List Nat} {owner : Nat → Option Nat} {size : Nat} {ok : Bool}
    (core : Core s live free owner) (serves : s.Serves size ok) : ∃ ptr, (s.doSlabsAlloc size (s.slabsClsid size) ok).1 = some ptr := by
  obtain ⟨_, first, chunk⟩ := serves
  have last := s.slabsClsid_le first
  have nonzero : size ≠ 0 := by
    rintro rfl
    exact absurd first (by simp [SlabAllocator.slabsClsid])
  generalize s.slabsClsid size = id at first last chunk
  obtain ⟨free', owner', core', kept, counted⟩ : ∃ free' owner',
      Core (if (s.slabclass id).slCurr ≠ 0 then s else (s.doSlabsNewslab id ok).2) live free' owner' ∧
        Kept s (if (s.slabclass id).slCurr ≠ 0 then s else (s.doSlabsNewslab id ok).2) ∧
        ((if (s.slabclass id).slCurr ≠ 0 then s else (s.doSlabsNewslab id ok).2).slabclass id).slCurr ≠ 0 := by
    by_cases some_chunk : (s.slabclass id).slCurr ≠ 0
    · rw [if_pos some_chunk]
      exact ⟨free, owner, core, ⟨rfl, rfl, rfl, rfl⟩, some_chunk⟩
    · rw [if_neg some_chunk]
      obtain ⟨free', owner', core', kept⟩ := core.newslab first last ok
      have least : 0 < s.size id := Nat.lt_of_lt_of_le (by decide) (core.size_least first last)
      exact ⟨free', owner', core', kept,
        SlabAllocator.slCurr_newslab least first last (not_not.mp some_chunk) (chunk.resolve_left some_chunk)⟩
  obtain ⟨ptr, slots⟩ := core'.slots_some counted
  have last' : id ≤ (if (s.slabclass id).slCurr ≠ 0 then s else (s.doSlabsNewslab id ok).2).powerLargest := by
    rwa [SlabAllocator.powerLargest, kept.sizes]
  obtain ⟨t, ran, _⟩ := core'.take last' slots nonzero 0
  refine ⟨ptr, ?_⟩
  rw [SlabAllocator.doSlabsAlloc, if_neg (by omega)]
  dsimp only
  rw [if_pos counted, ran]

/-! ## The requests -/

/-- The number of bytes that are looked for. -/
def Request.bytes (wr : Request) : UInt64 := if wr.aligned then SlabAllocator.align wr.size 4096 else wr.size

/-- The request is for no bytes, or can be served. -/
def Request.Served (wr : Request) (s : SlabAllocator) (ok : Bool) : Prop := wr.size = 0 ∨ s.Serves wr.bytes.toNat ok

namespace Worker

variable {w : Worker} {live : List Chunk} {free : Nat → List Nat} {owner : Nat → Option Nat} {wr : Request} {ok : Bool}

/-- A request for which there is no memory is answered with an error and changes nothing. -/
def Answers (w : Worker) (wr : Request) (ok : Bool) (outcome : Outcome) (w' : Worker) : Prop :=
  (w.allocate wr ok).1 = none → outcome = .answered .allocError wr.addr ∧ w'.ghostSize = w.ghostSize ∧ w'.mem = w.mem

end Worker

end Gam.Slab
