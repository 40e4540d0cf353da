import Gam.Slab.Allocator

/-!
# Calls of the allocator

A sequence of calls, together with the chunks that were handed out and not given back yet.
-/

namespace Gam.Slab

/-- The class an address is allocated in, as its entry in `stats_map` says. -/
def SlabAllocator.classOf (s : SlabAllocator) (ptr : Nat) : Nat :=
  match s.statsMap ptr with
  | none => 0
  | some it => it.slabsClsid

/-- A chunk in use: its address, the number of bytes asked for, and its class. -/
structure Chunk where
  ptr : Nat
  requested : Nat
  id : Nat
deriving DecidableEq, Repr

structure Heap where
  alloc : SlabAllocator
  live : List Chunk

inductive Call where
  | malloc (size : UInt64) (ok : Bool)
  | alignedMalloc (size block : UInt64) (ok : Bool)
  | free (ptr : Nat)
deriving DecidableEq, Repr

/-- The heap after an allocation that was asked for `requested` bytes. -/
def Heap.handOut (h : Heap) (requested : Nat) : Option Nat × SlabAllocator → Heap
  | (none, s) => { h with alloc := s }
  | (some ptr, s) => { alloc := s, live := ⟨ptr, requested, s.classOf ptr⟩ :: h.live }

/-- One call. Only addresses in use are freed; `none` is a failed look-up in `stats_map`. -/
def Heap.step (h : Heap) : Call → Option Heap
  | .malloc size ok => some (h.handOut size.toNat (h.alloc.sbMalloc size ok))
  | .alignedMalloc size block ok => some (h.handOut size.toNat (h.alloc.sbAlignedMalloc size block ok))
  | .free ptr =>
    if ptr ∈ h.live.map Chunk.ptr then match h.alloc.sbFree ptr with
      | none => none
      | some s => some { alloc := s, live := h.live.filter fun c => c.ptr ≠ ptr } else some h

def Heap.run (h : Heap) (calls : List Call) : Option Heap := calls.foldlM Heap.step h

end Gam.Slab
