import Mathlib.Data.Nat.Log
import Gam.Loops
import Gam.Objects
import Gam.Radix
import Gam.Slab.Allocator

/-!
# `GArray`

An array in global memory that can be resized (`garray.h`): a radix tree of buckets whose lowest layer
holds the elements, and a header with the fields of the object. Every operation first reads the header.
Layer counts are computed exactly, and a bucket larger than `ITEM_SIZE_MAX` cannot be allocated, so that
the numbers per bucket fit an `int`. Assertions are compiled out; an index out of bounds of a local array
and an overflow of an `int` counter are `undefined`.
-/

namespace Gam.GArray

open Heap (Stop)

/-- The parameters of the template: `sizeof(T)` and `BUCKET_SIZE`. -/
structure Params where
  elemSize : Nat
  bucketSize : Nat
  positive : 0 < elemSize
  fits : elemSize ≤ bucketSize
  two : 16 ≤ bucketSize

/-- The fields of the object that the header holds. -/
structure Fields where
  rootAddr : Nat
  size : Nat
  capacity : Nat
  layer : Int
  flag : Nat
deriving DecidableEq, Repr

namespace Fields

def words (f : Fields) : List Nat :=
  [f.rootAddr, f.size, f.capacity, (BitVec.ofInt 32 f.layer).toNat + 2 ^ 32 * f.flag]

def ofWords (w : List Nat) : Fields :=
  ⟨w.getD 0 0, w.getD 1 0, w.getD 2 0, (BitVec.ofNat 32 (w.getD 3 0)).toInt, w.getD 3 0 / 2 ^ 32⟩

end Fields

/-- `ceil_divide`. -/
def ceilDivide (a b : Nat) : Nat := (a + b - 1) % 2 ^ 64 / b

/-- `SyncFrom`. -/
def syncFrom (header : Nat) (h : Heap) : Fields := Fields.ofWords (h.readWords header 4)

/-- `SyncTo`. -/
def syncTo (header : Nat) (f : Fields) (h : Heap) : Heap := h.writeWords header f.words

variable (P : Params)

def itemsPerBucket : Nat := P.bucketSize / P.elemSize

def gaddrsPerBucket : Nat := P.bucketSize / 8

/-- `AlignedMalloc` of a bucket. -/
def mallocBucket (supply : Supply) (h : Heap) : Except Stop (Nat × Heap) :=
  if P.bucketSize ≤ Slab.itemSizeMax then h.malloc supply P.bucketSize else .error .memory

/-- `Layers`: `ceil(log(size / items_per_bucket) / log(gaddrs_per_bucket)) + 1` for `size ≥ 1`. -/
def layers (size : Nat) : Int :=
  if itemsPerBucket P < size then Nat.clog (gaddrsPerBucket P) ((size + itemsPerBucket P - 1) / itemsPerBucket P) + 1
  else 1 - Nat.log (gaddrsPerBucket P) (itemsPerBucket P / size)

/-- `CalLayers`: the number of buckets `height` layers above the lowest one. -/
def blocks (size : Nat) : Nat → Nat
  | 0 => ceilDivide size (itemsPerBucket P)
  | height + 1 => ceilDivide (blocks size height) (gaddrsPerBucket P)

/-- `Capacity`. -/
def capacity (size : Nat) : Nat := ceilDivide size (itemsPerBucket P) * itemsPerBucket P

/-- `Locate`. -/
def locate (f : Fields) (off : Nat) (h : Heap) : Except Stop Nat :=
  if 1 ≤ f.layer then
    .ok (h.walk f.rootAddr (digits (gaddrsPerBucket P) (f.layer - 1).toNat (off / itemsPerBucket P)) +
      off % itemsPerBucket P * P.elemSize)
  else .error .undefined

/-- `LocateInternal`; `layer` is at least 1. -/
def locateInternal (rootAddr totalLayer layer idx : Nat) (h : Heap) : Nat :=
  let numPerBucket := if layer = totalLayer then itemsPerBucket P else gaddrsPerBucket P
  let itemSize := if layer = totalLayer then P.elemSize else 8
  h.walk rootAddr (digits (gaddrsPerBucket P) (layer - 1) (idx / numPerBucket)) + idx % numPerBucket * itemSize

/-- `InsertBlock`. -/
def insertBlock (rootAddr totalLayer l idx newbk : Nat) (h : Heap) : Heap :=
  h.writeWord (locateInternal P rootAddr totalLayer l idx h) newbk

/-- A new bucket becomes block `j` of layer `i + 1`. -/
def addBlock (supply : Supply) (rootAddr totalLayer i : Nat) (h : Heap) (j : Nat) : Except Stop Heap := do
  let (newbk, h) ← mallocBucket P supply h
  return insertBlock P rootAddr totalLayer i j newbk h

/-- The loop `for (j = first; j < last; j++)` that adds blocks to a layer. -/
def addBlocks (supply : Supply) (rootAddr totalLayer i first last : Nat) (h : Heap) : Except Stop Heap :=
  (List.range' first (last - first)).foldlM (addBlock P supply rootAddr totalLayer i) h

/-- The layers below the root in the constructor, whose counter is an `int`. -/
def buildLayer (supply : Supply) (rootAddr layer size : Nat) (h : Heap) (i : Nat) : Except Stop Heap :=
  if blocks P size (layer - 1 - i) < 2 ^ 31 then
    addBlocks P supply rootAddr layer i 0 (blocks P size (layer - 1 - i)) h
  else .error .undefined

/-- The buckets that the constructor allocates. -/
def build (supply : Supply) (size flag : Nat) (h : Heap) : Except Stop (Fields × Heap) := do
  let (rootAddr, h) ← mallocBucket P supply h
  if size ≤ itemsPerBucket P then return (⟨rootAddr, size, itemsPerBucket P, 1, flag⟩, h)
  else
    let layer := (layers P size).toNat
    let h ← (List.range' 1 (layer - 1)).foldlM (buildLayer P supply rootAddr layer size) h
    return (⟨rootAddr, size, capacity P size, layer, flag⟩, h)

/-- The constructor with `Globalize`: the address of the header. -/
def construct (supply : Supply) (size flag : Nat) (h : Heap) : Except Stop (Nat × Heap) := do
  let (f, h) ← build P supply size flag h
  let (header, h) ← h.malloc supply 32
  return (header, syncTo header f h)

/-- `Resize` beyond the capacity with more layers than before: a new root, the layers above the old
root, the layer of the old root, and the layers below. -/
def growLayers (supply : Supply) (f : Fields) (n layer : Nat) (h : Heap) : Except Stop (Nat × Heap) := do
  let oldLayer := f.layer.toNat
  let (rootAddr, h) ← mallocBucket P supply h
  let h ← (List.range' 1 (layer - oldLayer - 1)).foldlM (fun h i =>
    addBlocks P supply rootAddr layer i 0 (blocks P n (layer - 1 - i)) h) h
  let i := layer - oldLayer
  let h := insertBlock P rootAddr layer i 0 f.rootAddr h
  let h ← addBlocks P supply rootAddr layer i 1 (blocks P n (layer - 1 - i)) h
  let h ← (List.range' (i + 1) (layer - (i + 1))).foldlM (fun h i =>
    addBlocks P supply rootAddr layer i (blocks P f.size (oldLayer - 1 - (i - (layer - oldLayer))))
      (blocks P n (layer - 1 - i)) h) h
  return (rootAddr, h)

/-- `Resize` beyond the capacity with as many layers as before. -/
def growBlocks (supply : Supply) (f : Fields) (n layer : Nat) (h : Heap) : Except Stop (Nat × Heap) := do
  let oldLayer := f.layer.toNat
  let h ← (List.range' 1 (layer - 1)).foldlM (fun h i =>
    addBlocks P supply f.rootAddr oldLayer i (blocks P f.size (oldLayer - 1 - i)) (blocks P n (layer - 1 - i)) h) h
  return (f.rootAddr, h)

/-- `Resize` beyond the capacity: the root and the heap. -/
def grow (supply : Supply) (f : Fields) (n : Nat) (h : Heap) : Except Stop (Nat × Heap) :=
  if f.layer < layers P n then growLayers P supply f n (layers P n).toNat h
  else growBlocks P supply f n (layers P n).toNat h

/-- `Resize` to more elements. -/
def enlarge (supply : Supply) (header : Nat) (f : Fields) (n : Nat) (h : Heap) : Except Stop Heap :=
  if f.capacity < n then do
    let (rootAddr, h) ← grow P supply f n h
    let layer := if f.layer < layers P n then layers P n else f.layer
    return syncTo header { f with rootAddr, size := n, capacity := capacity P n, layer } h
  else .ok (syncTo header { f with size := n } h)

/-- Block `j` of layer `i + 1` is freed. -/
def freeBlock (supply : Supply) (oldRoot oldLayer i : Nat) (h : Heap) (j : Nat) : Heap :=
  h.free supply (h.readWord (locateInternal P oldRoot oldLayer i j h))

/-- The loop `for (int j = last - 1; j >= first; j--)` that frees blocks of a layer. -/
def freeBlocks (supply : Supply) (oldRoot oldLayer i first last : Nat) (h : Heap) : Heap :=
  let start := (BitVec.ofInt 32 (last - 1)).toInt
  (List.range' first (start + 1 - first).toNat).reverse.foldl (freeBlock P supply oldRoot oldLayer i) h

/-- The fields after `Resize` to fewer elements; the new root is reached by the first slots. -/
def shrunk (f : Fields) (n : Nat) (h : Heap) : Fields :=
  { f with
    rootAddr := h.walk f.rootAddr (List.replicate (f.layer - layers P n).toNat 0)
    size := n
    capacity := capacity P n
    layer := layers P n }

/-- `new_layers`: 0 for the layers above the new root. If there is no layer left, the count of the last
layer is written in front of the others. -/
def newLayers (oldLayer reducedLayer n i : Nat) : Nat :=
  if i = oldLayer - 1 ∨ reducedLayer ≤ i then blocks P n (oldLayer - 1 - i) else 0

/-- The memory is released bottom-up. -/
def release (supply : Supply) (f : Fields) (n : Nat) (h : Heap) : Heap :=
  let oldLayer := f.layer.toNat
  let reducedLayer := (f.layer - layers P n).toNat
  let h := (List.range' 1 (oldLayer - 1)).reverse.foldl (fun h i =>
    freeBlocks P supply f.rootAddr oldLayer i (newLayers P oldLayer reducedLayer n i) (blocks P f.size (oldLayer - 1 - i)) h) h
  if reducedLayer ≠ 0 then h.free supply f.rootAddr else h

/-- `Resize` to fewer elements. With less than no layer left, zeros are written behind `new_layers`. -/
def shrink (supply : Supply) (header : Nat) (f : Fields) (n : Nat) (h : Heap) : Except Stop Heap :=
  if layers P n < 0 then .error .undefined
  else .ok (release P supply f n (syncTo header (shrunk P f n h) h))

/-- `Resize`. -/
def resize (supply : Supply) (header n : Nat) (h : Heap) : Except Stop Heap :=
  let f := syncFrom header h
  if f.size < n then enlarge P supply header f n h
  else if n < f.size then shrink P supply header f n h
  else .ok h

/-- `Read`. -/
def read (header idx : Nat) (h : Heap) : Except Stop (List UInt8) := do
  let addr ← locate P (syncFrom header h) idx h
  return h.mem.load addr P.elemSize

/-- `Write`. -/
def write (header idx : Nat) (val : List UInt8) (h : Heap) : Except Stop Heap := do
  let addr ← locate P (syncFrom header h) idx h
  return h.write addr val

end Gam.GArray
