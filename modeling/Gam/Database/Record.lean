import Gam.Database.Storage

/-!
# Records

`InsertColumns` lays out the columns of a schema (`RecordSchema.h`), and a record keeps its columns in one
buffer of the size of the schema (`Record.h`). A failed assertion and a copy past the end of a buffer are
`none`.
-/

namespace Gam.Database

namespace RecordSchema

def getSchemaSize (schema : RecordSchema) : UInt64 := schema.columnOffset

/-- `GetColumnOffset`. -/
def getColumnOffset (schema : RecordSchema) (index : UInt64) : Option UInt64 := schema.columns[index.toNat]?.map ColumnInfo.columnOffset

/-- `GetColumnSize`. -/
def getColumnSize (schema : RecordSchema) (index : UInt64) : Option UInt64 := schema.columns[index.toNat]?.map ColumnInfo.columnSize

def getMetaColumnId (schema : RecordSchema) : UInt64 := schema.columnCount - 1

end RecordSchema

/-- `sizeof(MetaColumn)`. -/
def kMetaSize : Nat := 1

/-- A record; `data` is its buffer, whose size is that of the schema. -/
structure Record where
  schema : RecordSchema
  data : Memory

namespace Record

/-- `memcpy` into the buffer. -/
def copyIn (r : Record) (offset : Nat) (bytes : List UInt8) : Option Record :=
  if offset + bytes.length ≤ r.schema.getSchemaSize.toNat then some { r with data := r.data.store offset bytes } else none

/-- `SetColumn` with a size. -/
def setColumnSized (r : Record) (colId : UInt64) (data : Memory) (dataSize : UInt64) : Option Record := do
  let offset ← r.schema.getColumnOffset colId
  r.copyIn offset.toNat (data.load 0 dataSize.toNat)

/-- `SetColumn`. -/
def setColumn (r : Record) (colId : UInt64) (data : Memory) : Option Record := do
  let offset ← r.schema.getColumnOffset colId
  let colSize ← r.schema.getColumnSize colId
  r.copyIn offset.toNat (data.load 0 colSize.toNat)

/-- `GetColumn`: the bytes that are copied. -/
def getColumn (r : Record) (colId : UInt64) : Option (List UInt8) := do
  let offset ← r.schema.getColumnOffset colId
  let colSize ← r.schema.getColumnSize colId
  if offset.toNat + colSize.toNat ≤ r.schema.getSchemaSize.toNat then some (r.data.load offset.toNat colSize.toNat) else none

/-- `SetVisible`. The column is copied into a variable of the size of a `MetaColumn`. -/
def setVisible (r : Record) (val : Bool) : Option Record := do
  let metaColId := r.schema.getMetaColumnId
  let metaCol ← r.getColumn metaColId
  if metaCol.length ≤ kMetaSize then
    let changed := metaCol.set 0 (if val then 1 else 0)
    r.setColumn metaColId fun k => changed.getD k 0
  else none

end Record

/-- A call on a record. -/
inductive Call where
  | setColumn (colId : UInt64) (data : Memory)
  | setColumnSized (colId : UInt64) (data : Memory) (dataSize : UInt64)
  | setVisible (val : Bool)

def Record.call (r : Record) : Call → Option Record
  | .setColumn colId data => r.setColumn colId data
  | .setColumnSized colId data dataSize => r.setColumnSized colId data dataSize
  | .setVisible val => r.setVisible val

def Record.run (r : Record) (calls : List Call) : Option Record := calls.foldlM Record.call r

end Gam.Database
