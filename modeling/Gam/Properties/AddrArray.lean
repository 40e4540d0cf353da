import Gam.Database.GAddrArray
import Gam.Slab.Allocator

/-! `GAddrArray::Init` builds a tree in which every element has its own place. -/

namespace Gam.Database.GAddrArray
variable {supply : Supply} {arr : GAddrArray} {h h' : Heap} {base : List Region}
  {L l pos k i size : Nat}
variable {count elementSize : UInt64} {old : GAddrArray} {node : Nat → Nat → Nat}

/-- The nodes of a tree of `L` layers when those above layer `l` are complete and `pos` of layer `l`
are there. -/
def built (L l pos : Nat) : Set (Nat × Nat) :=
  { x | ∃ layer, x.1 + layer + 1 = L ∧ (layer < l ∧ x.2 < fanout ^ layer ∨ layer = l ∧ x.2 < pos) }

/-- The length of a segment by its height. -/
def segmentSize (size k : Nat) : Nat := if k = 0 then size * fanout else 8 * fanout

/-- The fields `Init` fills in before it allocates the other layers. -/
structure Shaped (arr : GAddrArray) (size L : Nat) : Prop where
  layers : arr.layerNum.toNat = L
  element : arr.elementSize.toNat = size
  few : L < 4
  sizes : ∀ i : Fin 4, i.val ≤ L → (arr.layerSize i).toNat = fanout ^ i.val
  positive : 0 < size
  small : size * fanout ≤ Slab.itemSizeMax

theorem Shaped.segment (shaped : Shaped arr size L) (deep : l + 1 < L) :
    ((if l + 1 < arr.layerNum.toNat - 1 then 8 else arr.elementSize) * 1024).toNat =
      segmentSize size (L - 1 - (l + 1)) := by
  obtain ⟨layers, element, -, -, -, small⟩ := shaped
  unfold Slab.itemSizeMax fanout at small
  rw [layers, segmentSize, fanout]
  by_cases last : l + 1 < L - 1
  · rw [if_pos last, if_neg (by omega)]
    rfl
  · rw [if_neg last, if_pos (by omega), UInt64.toNat_mul, element]
    simp only [UInt64.reduceToNat]
    omega

/-- The object after `Init` decided the number of layers. -/
def shape (old : GAddrArray) (root count elementSize : UInt64) (L : Nat) : GAddrArray :=
  ⟨root, count, elementSize, fun i => if i.val ≤ L then UInt64.ofNat (fanout ^ i.val) else old.layerSize i, .ofNat L⟩

end Gam.Database.GAddrArray
