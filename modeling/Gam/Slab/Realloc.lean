import Gam.Slab.Heap

/-!
# `sb_realloc`

In the branch for another class the new block is called `ptr` as well, so the copy is from the new block.
-/

namespace Gam.Slab

/-- `memcpy` in the memory of the process. -/
def memcpy (mem : Nat → UInt8) (dst src len : Nat) : Nat → UInt8 := fun a =>
  if dst ≤ a ∧ a < dst + len then mem (src + (a - dst)) else mem a

namespace SlabAllocator

variable (s : SlabAllocator)

/-- `is_free`, or a failed look-up. -/
def isFree (ptr : Nat) : Option Bool := (s.statsMap ptr).map fun it => it.slabsClsid == 0

/-- `sb_realloc`: what it returns, the allocator and the memory. `none` is a failed look-up or `abort`. -/
def sbRealloc (mem : Nat → UInt8) (ptr : Option Nat) (size : UInt64) (ok : Bool) :
    Option (Option Nat × SlabAllocator × (Nat → UInt8)) :=
  if s.memLimit = 0 then some (none, s, mem)
  else
    match ptr with
    | none =>
      let (ret, s) := s.sbMalloc size ok
      some (ret, s, mem)
    | some old =>
      match s.statsMap old with
      | none => none
      | some it₁ =>
        let id₁ := it₁.slabsClsid
        let size₂ := size.toNat
        let id₂ := s.slabsClsid size₂
        if id₁ = id₂ then
          -- `slabs_adjust_mem_requested` checks the class
          if id₁ < 1 ∨ s.powerLargest < id₁ then none
          else some (some old, { s with statsMap := Function.update s.statsMap old (some { it₁ with size := size₂ }) }, mem)
        else
          match s.doSlabsAlloc size₂ id₂ ok with
          | (none, _) => none
          | (some ptr, s) =>
            let mem := memcpy mem ptr ptr (if size₂ < it₁.size then size₂ else it₁.size)
            let it := (s.statsMap old).getD {}
            let s := { s with statsMap := Function.update s.statsMap old (some { it with slabsClsid := 0 }) }
            some (some ptr, s.doSlabsFree old it₁.size id₁, mem)

end SlabAllocator

/-- A call, or `sb_realloc` of an address, with the memory as it is then. -/
inductive Op where
  | call (call : Call)
  | realloc (mem : Nat → UInt8) (ptr : Nat) (size : UInt64) (ok : Bool)

/-- What `sb_realloc` leaves of the chunks in use. -/
def Heap.moved (h : Heap) (old : Nat) (size : Nat) (ret : Nat) (s : SlabAllocator) : Heap :=
  ⟨s, ⟨ret, size, s.classOf ret⟩ :: h.live.filter fun c => c.ptr ≠ old⟩

def Heap.stepOp (h : Heap) : Op → Option Heap
  | .call call => h.step call
  | .realloc mem ptr size ok =>
    if ptr ∈ h.live.map Chunk.ptr then match h.alloc.sbRealloc mem (some ptr) size ok with
      | some (some ret, s, _) => some (h.moved ptr size.toNat ret s)
      | _ => none else some h

def Heap.runOps (h : Heap) (ops : List Op) : Option Heap := ops.foldlM Heap.stepOp h

end Gam.Slab
