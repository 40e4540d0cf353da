import Mathlib

/-!
# The slab allocator

`SlabAllocator` of `slabs.cc` in the default build. Chunks are named by their address. Counters have
the width they have in the source; whether `realloc` succeeds is an argument.
-/

namespace Gam.Slab

open Function

def itemSizeMax : Nat := 512 * 1024

def blockSize : Nat := 4096

def chunkAlignBytes : Nat := 8

def powerLargestMax : Nat := 200

/-- `_stritem`, the entry of `stats_map` for a chunk. -/
structure Item where
  next : Option Nat := none
  prev : Option Nat := none
  size : Nat := 0
  slabsClsid : Nat := 0
deriving DecidableEq, Repr

/-- The part of `slabclass_t` that changes after `slabs_init`. -/
structure SlabClass where
  slots : Option Nat := none
  slCurr : Nat := 0
  slabs : Nat := 0
  listSize : Nat := 0
deriving DecidableEq, Repr

/-- The allocator. `sizes` are the chunk sizes of the classes `1, …, power_largest`. -/
structure SlabAllocator where
  slabclass : Nat → SlabClass
  sizes : List Nat
  memLimit : Nat
  memMalloced : Nat
  memBase : Nat
  memCurrent : Nat
  memAvail : Nat
  memFree : Nat
  statsMap : Nat → Option Item

namespace SlabAllocator

variable (s : SlabAllocator)

def powerLargest : Nat := s.sizes.length

def size (id : Nat) : Nat := s.sizes.getD (id - 1) 0

def perslab (id : Nat) : Nat := itemSizeMax / s.size id

/-- The loop of `slabs_clsid` from the class `res` on. -/
def clsidFrom (size : Nat) : List Nat → Nat → Nat
  | [], _ => 0
  | chunk :: rest, res => if chunk < size then clsidFrom size rest (res + 1) else res

/-- `slabs_clsid`: the first class whose chunks are large enough, `0` if there is none. -/
def slabsClsid (size : Nat) : Nat := if size = 0 then 0 else clsidFrom size s.sizes 1

def getAvail : Nat := s.memFree

/-- `memory_allocate`, with `none` for a null pointer. -/
def memoryAllocate (size : Nat) : Option (Nat × SlabAllocator) :=
  if s.memAvail < size then
    none
  else
    let size' := if size % chunkAlignBytes ≠ 0
      then size + (chunkAlignBytes - size % chunkAlignBytes) else size
    some (s.memCurrent, { s with
      memCurrent := s.memCurrent + size'
      memAvail := if size' < s.memAvail then s.memAvail - size' else 0 })

/-- `grow_slab_list`; `ok` says whether `realloc` succeeds. -/
def growSlabList (id : Nat) (ok : Bool) : Option SlabAllocator :=
  let p := s.slabclass id
  if p.slabs = p.listSize then
    let newSize := if p.listSize ≠ 0 then p.listSize * 2 % 2 ^ 32 else 16
    if ok then some { s with slabclass := update s.slabclass id { p with listSize := newSize } }
    else none
  else
    some s

/-- `do_slabs_free`: the chunk goes to the front of the free list of its class. -/
def doSlabsFree (ptr size id : Nat) : SlabAllocator :=
  if id < 1 ∨ s.powerLargest < id then
    s
  else
    let p := s.slabclass id
    let it := (s.statsMap ptr).getD {}
    let items := update s.statsMap ptr (some { it with prev := none, next := p.slots })
    let items := match p.slots with
      | none => items
      | some front =>
        update items front ((items front).map fun it => { it with prev := some ptr })
    { s with
      statsMap := items
      slabclass := update s.slabclass id
        { p with slots := some ptr, slCurr := (p.slCurr + 1) % 2 ^ 32 }
      memFree := if size ≠ 0 then (s.memFree + s.size id) % 2 ^ 64 else s.memFree }

/-- `split_slab_page_into_freelist` for the last `count` chunks of a slab. -/
def splitSlabPage (id : Nat) : Nat → Nat → SlabAllocator → SlabAllocator
  | 0, _, s => s
  | count + 1, ptr, s => splitSlabPage id count (ptr + s.size id) (s.doSlabsFree ptr 0 id)

/-- `do_slabs_newslab`: whether a new slab was added to the class. -/
def doSlabsNewslab (id : Nat) (ok : Bool) : Bool × SlabAllocator :=
  if s.memLimit ≠ 0 ∧ s.memLimit < (s.memMalloced + itemSizeMax) % 2 ^ 64 ∧
      0 < (s.slabclass id).slabs then
    (false, s)
  else
    match s.growSlabList id ok with
    | none => (false, s)
    | some s₁ =>
      match s₁.memoryAllocate itemSizeMax with
      | none => (false, s₁)
      | some (ptr, s₂) =>
        let s₃ := splitSlabPage id (s₂.perslab id) ptr s₂
        let p := s₃.slabclass id
        (true, { s₃ with
          slabclass := update s₃.slabclass id { p with slabs := (p.slabs + 1) % 2 ^ 32 }
          memMalloced := (s₃.memMalloced + itemSizeMax) % 2 ^ 64 })

/-- The part of `do_slabs_alloc` that takes the front of the free list. -/
def takeSlot (size id : Nat) : Option Nat × SlabAllocator :=
  let p := s.slabclass id
  match p.slots with
  | none => (none, s)
  | some ptr =>
    match s.statsMap ptr with
    | none => (none, s)
    | some it =>
      let items := match it.next with
        | none => s.statsMap
        | some front =>
          update s.statsMap front
            ((s.statsMap front).map fun it => { it with prev := none })
      let items := update items ptr
        (some { it with size := size, slabsClsid := id % 2 ^ 8 })
      (some ptr, { s with
        statsMap := items
        slabclass := update s.slabclass id
          { p with slots := it.next, slCurr := (p.slCurr + 2 ^ 32 - 1) % 2 ^ 32 }
        memFree := (s.memFree + 2 ^ 64 - s.size id) % 2 ^ 64 })

/-- `do_slabs_alloc`. -/
def doSlabsAlloc (size id : Nat) (ok : Bool) : Option Nat × SlabAllocator :=
  if id < 1 ∨ s.powerLargest < id then
    (none, s)
  else
    let s' := if (s.slabclass id).slCurr ≠ 0 then s else (s.doSlabsNewslab id ok).2
    if (s'.slabclass id).slCurr ≠ 0 then s'.takeSlot size id else (none, s')

/-- `sb_malloc`. -/
def sbMalloc (size : UInt64) (ok : Bool) : Option Nat × SlabAllocator :=
  if s.memLimit = 0 then (none, s)
  else s.doSlabsAlloc size.toNat (s.slabsClsid size.toNat) ok

/-- The macro `ALIGN`. -/
def align (x a : UInt64) : UInt64 := (x + (a - 1)) &&& ~~~(a - 1)

/-- `sb_aligned_malloc`. -/
def sbAlignedMalloc (size block : UInt64) (ok : Bool) : Option Nat × SlabAllocator :=
  if s.memLimit = 0 then (none, s)
  else
    let newsize := align size block
    s.doSlabsAlloc newsize.toNat (s.slabsClsid newsize.toNat) ok

/-- `sb_free` of a chunk that has an entry in `stats_map`; `none` if it has none. -/
def sbFree (ptr : Nat) : Option SlabAllocator :=
  if s.memLimit = 0 then some s
  else
    match s.statsMap ptr with
    | none => none
    | some it =>
      let cleared := update s.statsMap ptr (some { it with slabsClsid := 0, size := 0 })
      some ({ s with statsMap := cleared }.doSlabsFree ptr it.size it.slabsClsid)

end SlabAllocator

/-! ## `slabs_init` -/

/-- `size` rounded up to a multiple of eight. -/
def alignChunk (size : Nat) : Nat :=
  if size % chunkAlignBytes ≠ 0 then size + (chunkAlignBytes - size % chunkAlignBytes) else size

/-- The growth factor: the test `size <= item_size_max / factor`, and `size *= factor`. -/
structure Growth where
  within : Nat → Bool
  grow : Nat → Nat

/-- The loop of `slabs_init` that finds the chunk sizes. A class of whole blocks is put in where a block
boundary is crossed. The first argument bounds the number of turns, of which `++i` allows
`POWER_LARGEST - 1`. -/
def Growth.chunkSizes (g : Growth) : Nat → Nat → Nat → Nat → List Nat
  | 0, _, _, _ => []
  | fuel + 1, i, size, preSize =>
    if i + 1 < powerLargestMax ∧ g.within size then let size' := alignChunk size
      if preSize / blockSize < size' / blockSize ∧ size' % blockSize ≠ 0 then
        size' / blockSize * blockSize :: size' :: g.chunkSizes fuel (i + 2) (g.grow size') size'
      else
        size' :: g.chunkSizes fuel (i + 1) (g.grow size') size'
    else []

/-- The chunk sizes of all classes; the last one is for whole slabs. -/
def Growth.slabSizes (g : Growth) : List Nat := g.chunkSizes powerLargestMax 0 48 48 ++ [itemSizeMax]

/-- The factor `1.25` of the default configuration: each class is a quarter larger. -/
def quarter : Growth := ⟨fun size => size * 5 ≤ itemSizeMax * 4, fun size => size * 5 / 4⟩

def slabSizes : List Nat := quarter.slabSizes

/-- `slabs_preallocate`: a slab for each of the classes, or the process ends. -/
def slabsPreallocate (ok : Nat → Bool) : List Nat → SlabAllocator → Option SlabAllocator
  | [], s => some s
  | id :: rest, s =>
    match s.doSlabsNewslab id (ok id) with
    | (true, s') => slabsPreallocate ok rest s'
    | (false, _) => none

/-- `slabs_init` with a region of `limit` bytes mapped at `base`, `malloced` as the value of
`T_MEMD_INITIAL_MALLOC`, and preallocation. -/
def slabsInit (sizes : List Nat) (limit base malloced : Nat) (ok : Nat → Bool) : Option SlabAllocator :=
  slabsPreallocate ok ((List.range sizes.length).map (· + 1)) {
    slabclass := fun _ => {}
    sizes := sizes
    memLimit := limit
    memMalloced := malloced
    memBase := base
    memCurrent := base
    memAvail := limit
    memFree := limit
    statsMap := fun _ => none }

end Gam.Slab
