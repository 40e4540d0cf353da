import Gam.Loops
import Gam.Radix

/-!
# `GAddrArray`

An array in global memory as a tree of segments of 1024 slots (`GAddrArray.h`): the slots of the last
layer hold the elements, those of the other layers the addresses of segments. An assertion that
fails, and a loop that does not end, is `none`. Addresses are numbers: no address computed inside a
live segment passes the end of the address space.
-/

namespace Gam.Database

/-- `N`. -/
def fanout : Nat := 1024

structure GAddrArray where
  rootAddr : UInt64
  arraySize : UInt64
  elementSize : UInt64
  layerSize : Fin 4 → UInt64
  layerNum : UInt64

namespace GAddrArray

/-- `LocateParentNode`: `path` is read from entry 1 on. -/
def locateParentNode (arr : GAddrArray) (layerId : Fin 4) (pos : Nat) (h : Heap) : Option Nat :=
  if pos < (arr.layerSize layerId).toNat then
    some (h.walk arr.rootAddr.toNat (digits fanout layerId (pos / fanout)).tail)
  else none

/-- The loop that decides the number of layers; after 7 rounds `bound` has become 0 for good. -/
def countLayers (count : UInt64) : Nat → UInt64 → Nat → Option Nat
  | 0, _, _ => none
  | fuel + 1, bound, layers =>
    if bound < count then countLayers count fuel (bound * 1024) (layers + 1) else some layers

/-- One round of the loop over the positions of a layer. -/
def addSegment (supply : Supply) (arr : GAddrArray) (layerId : Fin 4) (h : Heap) (pos : Nat) : Option Heap :=
  let perSlotSize := if layerId.val < arr.layerNum.toNat - 1 then 8 else arr.elementSize
  let segment := h.alloc supply (perSlotSize * 1024).toNat
  (arr.locateParentNode layerId pos segment.2).map fun parent =>
    segment.2.writeWord (parent + 8 * (pos % fanout)) segment.1

def addLayer (supply : Supply) (arr : GAddrArray) (h : Heap) (layerId : Fin 4) : Option Heap :=
  (List.range (arr.layerSize layerId).toNat).foldlM (addSegment supply arr layerId) h

/-- `Init`; `old` is what the object held before. -/
def init (supply : Supply) (old : GAddrArray) (count elementSize : UInt64) (h : Heap) : Option (GAddrArray × Heap) :=
  (countLayers count 8 1 0).bind fun layers =>
    let layerSize (i : Fin 4) := if i.val ≤ layers then UInt64.ofNat (fanout ^ i.val) else old.layerSize i
    if layers < 4 ∧ count ≤ layerSize (Fin.ofNat 4 layers) then
      let slotSize := if layers = 1 then elementSize else 8
      let root := h.alloc supply (slotSize * 1024).toNat
      let arr : GAddrArray := ⟨.ofNat root.1, count, elementSize, layerSize, .ofNat layers⟩
      ((List.range (layers - 1)).foldlM (fun h i => addLayer supply arr h (Fin.ofNat 4 (i + 1))) root.2).map
        fun h => (arr, h)
    else none

/-- `GetElementGAddr`. -/
def getElementGAddr (arr : GAddrArray) (offset : Nat) (h : Heap) : Option Nat :=
  if offset < arr.arraySize.toNat then
    (arr.locateParentNode (Fin.ofNat 4 arr.layerNum.toNat) offset h).map fun parent =>
      parent + offset % fanout * arr.elementSize.toNat
  else none

end GAddrArray

end Gam.Database
