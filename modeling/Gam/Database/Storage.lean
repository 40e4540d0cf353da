import Gam.Database.HashIndex
import Gam.Serial

/-!
# Tables and their serialised form

The storage manager, its tables, their schemas and indexes (`StorageManager.h`, `Table.h`,
`RecordSchema.h`, `HashIndex.h`, `GAddrArray.h`), with the functions that write them to global memory and
read them on another node. Each one advances its own offset. The secondary indexes are disabled.
-/

namespace Gam.Database

open Format (word array)

def kMaxTableNum : Nat := 16

def kMaxColumnNum : Nat := 32

inductive ValueType
  | int | int8 | int16 | int32 | int64 | double | float | varchar | metaData
deriving DecidableEq, Repr

namespace ValueType

def toWord : ValueType → UInt64
  | int => 0
  | int8 => 1
  | int16 => 2
  | int32 => 3
  | int64 => 4
  | double => 5
  | float => 6
  | varchar => 7
  | metaData => 8

def ofWord (w : UInt64) : ValueType :=
  if w = 0 then int else if w = 1 then int8 else if w = 2 then int16 else if w = 3 then int32
  else if w = 4 then int64 else if w = 5 then double else if w = 6 then float else if w = 7 then varchar else metaData

theorem ofWord_toWord (t : ValueType) : ofWord t.toWord = t := by cases t <;> rfl

end ValueType

structure ColumnInfo where
  columnName : Fin 16 → UInt8
  columnType : ValueType
  columnSize : UInt64
  columnOffset : UInt64

/-- The layout of the structure, without padding. -/
def ColumnInfo.format : Format ColumnInfo :=
  ((array 16 .byte).pair (.pair (word.via ValueType.toWord ValueType.ofWord ValueType.ofWord_toWord)
    (.pair word word))).via
    (fun c => (c.columnName, c.columnType, c.columnSize, c.columnOffset)) (fun x => ⟨x.1, x.2.1, x.2.2.1, x.2.2.2⟩)
    fun _ => rfl

namespace GAddrArray

def serialize (arr : GAddrArray) (addr : Nat) (m : Memory) : Memory :=
  let off := 0
  let m := m.put word (addr + off) arr.rootAddr
  let off := off + 8
  let m := m.put word (addr + off) arr.arraySize
  let off := off + 8
  let m := m.put word (addr + off) arr.elementSize
  let off := off + 8
  let m := m.put (array 4 word) (addr + off) arr.layerSize
  let off := off + 8 * 4
  m.put word (addr + off) arr.layerNum

def deserialize (addr : Nat) (m : Memory) : GAddrArray where
  rootAddr := m.get word addr
  arraySize := m.get word (addr + 8)
  elementSize := m.get word (addr + 16)
  layerSize := m.get (array 4 word) (addr + 24)
  layerNum := m.get word (addr + 56)

/-- `GetSerializeSize`. -/
def serializeSize : Nat := 8 + 8 * 5 + 8 * 2

end GAddrArray

namespace HashIndex

def serialize (index : HashIndex) (addr : Nat) (m : Memory) : Memory :=
  let m := index.buckets.serialize addr m
  let off := GAddrArray.serializeSize
  let m := m.put word (addr + off) index.bucketsCount
  let off := off + 8
  m.put word (addr + off) index.recordCount

def deserialize (addr : Nat) (m : Memory) : HashIndex where
  buckets := GAddrArray.deserialize addr m
  bucketsCount := m.get word (addr + GAddrArray.serializeSize)
  recordCount := m.get word (addr + (GAddrArray.serializeSize + 8))

def serializeSize : Nat := GAddrArray.serializeSize + 8 * 2

end HashIndex

/-- `columns_` has `column_count_` elements. -/
structure RecordSchema where
  tableId : UInt64
  columnCount : UInt64
  columnOffset : UInt64
  primaryColumnIds : Fin 5 → UInt64
  primaryColumnNum : UInt64
  secondaryColumnIds : Fin 3 → Fin 5 → UInt64
  secondaryColumnNum : Fin 3 → UInt64
  secondaryIndexNum : UInt64
  partitionColumnIds : Fin 5 → UInt64
  partitionColumnNum : UInt64
  columns : List ColumnInfo
  sized : columns.length = columnCount.toNat

namespace RecordSchema

def serialize (schema : RecordSchema) (addr : Nat) (m : Memory) : Memory :=
  let off := 0
  let m := m.put word (addr + off) schema.tableId
  let off := off + 8
  let m := m.put word (addr + off) schema.columnCount
  let off := off + 8
  let m := m.put word (addr + off) schema.columnOffset
  let off := off + 8
  let m := m.put (array 5 word) (addr + off) schema.primaryColumnIds
  let off := off + 8 * 5
  let m := m.put word (addr + off) schema.primaryColumnNum
  let off := off + 8
  -- the loop over the three secondary indexes
  let m := m.put (array 5 word) (addr + off) (schema.secondaryColumnIds 0)
  let off := off + 8 * 5
  let m := m.put (array 5 word) (addr + off) (schema.secondaryColumnIds 1)
  let off := off + 8 * 5
  let m := m.put (array 5 word) (addr + off) (schema.secondaryColumnIds 2)
  let off := off + 8 * 5
  let m := m.put (array 3 word) (addr + off) schema.secondaryColumnNum
  let off := off + 8 * 3
  let m := m.put word (addr + off) schema.secondaryIndexNum
  let off := off + 8
  let m := m.put (array 5 word) (addr + off) schema.partitionColumnIds
  let off := off + 8 * 5
  let m := m.put word (addr + off) schema.partitionColumnNum
  let off := off + 8
  m.store (addr + off) (ColumnInfo.format.encodeAll schema.columns)

def deserialize (addr : Nat) (m : Memory) : RecordSchema where
  tableId := m.get word addr
  columnCount := m.get word (addr + 8)
  columnOffset := m.get word (addr + 16)
  primaryColumnIds := m.get (array 5 word) (addr + 24)
  primaryColumnNum := m.get word (addr + 64)
  secondaryColumnIds i := m.get (array 5 word) (addr + (72 + 40 * i.val))
  secondaryColumnNum := m.get (array 3 word) (addr + 192)
  secondaryIndexNum := m.get word (addr + 216)
  partitionColumnIds := m.get (array 5 word) (addr + 224)
  partitionColumnNum := m.get word (addr + 264)
  columns := ColumnInfo.format.decodeAll (m.get word (addr + 8)).toNat
    (m.load (addr + 272) (ColumnInfo.format.width * (m.get word (addr + 8)).toNat))
  sized := ColumnInfo.format.length_decodeAll _ _

def serializeSize : Nat :=
  8 * 3 + (8 * 5 + 8) + (8 * 3 * 5 + 8 * 3 + 8) + (8 * 5 + 8) + ColumnInfo.format.width * kMaxColumnNum

end RecordSchema

structure Table where
  tableId : UInt64
  secondaryCount : UInt64
  schema : RecordSchema
  primaryIndex : HashIndex

namespace Table

def serialize (table : Table) (addr : Nat) (m : Memory) : Memory :=
  let off := 0
  let m := m.put word (addr + off) table.tableId
  let off := off + 8
  let m := m.put word (addr + off) table.secondaryCount
  let off := off + 8
  let curAddr := addr + off
  let m := table.schema.serialize curAddr m
  let curAddr := curAddr + RecordSchema.serializeSize
  table.primaryIndex.serialize curAddr m

def deserialize (addr : Nat) (m : Memory) : Table where
  tableId := m.get word addr
  secondaryCount := m.get word (addr + 8)
  schema := RecordSchema.deserialize (addr + 16) m
  primaryIndex := HashIndex.deserialize (addr + 16 + RecordSchema.serializeSize) m

def serializeSize : Nat := 8 * 2 + RecordSchema.serializeSize + HashIndex.serializeSize

end Table

/-- `tables_` has `table_count_` elements. -/
structure StorageManager where
  tableCount : UInt64
  tables : List Table
  sized : tables.length = tableCount.toNat

namespace StorageManager

def serialize (manager : StorageManager) (addr : Nat) (m : Memory) : Memory :=
  let m := m.put word addr manager.tableCount
  serializeAll Table.serialize Table.serializeSize manager.tables (addr + 8) m

def deserialize (addr : Nat) (m : Memory) : StorageManager where
  tableCount := m.get word addr
  tables := deserializeAll Table.deserialize Table.serializeSize (m.get word addr).toNat (addr + 8) m
  sized := Serial.length_deserializeAll _

def serializeSize : Nat := 8 + kMaxTableNum * Table.serializeSize

end StorageManager

end Gam.Database
