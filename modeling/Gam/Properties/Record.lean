import Gam.Database.Record

/-!
# The columns of a record

`InsertColumns` puts the columns one behind the other, so a call on one column leaves the others alone. A
call that is given a size must not be given more than its column holds.
-/

namespace Gam.Database

/-- The bytes in front of a column. -/
def sizeBefore (columns : List ColumnInfo) (i : Nat) : Nat := ((columns.take i).map (·.columnSize.toNat)).sum

theorem sizeBefore_succ {columns : List ColumnInfo} {i : Nat} {c : ColumnInfo} (there : columns[i]? = some c) :
    sizeBefore columns (i + 1) = sizeBefore columns i + c.columnSize.toNat := by
  rw [sizeBefore, sizeBefore, List.take_add_one, there]
  simp

theorem sizeBefore_le (columns : List ColumnInfo) {i j : Nat} (order : i ≤ j) : sizeBefore columns i ≤ sizeBefore columns j := by
  obtain ⟨more, rfl⟩ := Nat.exists_eq_add_of_le order
  rw [sizeBefore, sizeBefore, List.take_add, List.map_append, List.sum_append]
  exact Nat.le_add_right ..

/-- The columns of a schema lie one behind the other and fill it. -/
structure Packed (schema : RecordSchema) : Prop where
  offset : ∀ i c, schema.columns[i]? = some c → c.columnOffset.toNat = sizeBefore schema.columns i
  whole : schema.getSchemaSize.toNat = sizeBefore schema.columns schema.columns.length

section layout

end layout

namespace Packed

variable {schema : RecordSchema} {i j : Nat} {c d : ColumnInfo}

theorem stop (packed : Packed schema) (there : schema.columns[i]? = some c) :
    c.columnOffset.toNat + c.columnSize.toNat = sizeBefore schema.columns (i + 1) := by
  rw [packed.offset i c there, sizeBefore_succ there]

theorem before (packed : Packed schema) (order : i < j) (first : schema.columns[i]? = some c) (second : schema.columns[j]? = some d) :
    c.columnOffset.toNat + c.columnSize.toNat ≤ d.columnOffset.toNat := by
  rw [packed.stop first, packed.offset j d second]
  exact sizeBefore_le _ order

theorem inside (packed : Packed schema) (there : schema.columns[i]? = some c) :
    c.columnOffset.toNat + c.columnSize.toNat ≤ schema.getSchemaSize.toNat := by
  rw [packed.stop there, packed.whole]
  exact sizeBefore_le _ (List.getElem?_eq_some_iff.mp there).1

end Packed

/-! ## Calls -/

/-- The column that a call is on. -/
def Call.column (schema : RecordSchema) : Call → UInt64
  | .setColumn colId _ => colId
  | .setColumnSized colId _ _ => colId
  | .setVisible _ => schema.getMetaColumnId

/-- The value that a call gives to its column, when it sets all of it. -/
def Call.value (schema : RecordSchema) : Call → Option (List UInt8)
  | .setColumn colId data => schema.columns[colId.toNat]?.map fun c => data.load 0 c.columnSize.toNat
  | .setColumnSized colId data dataSize => schema.columns[colId.toNat]?.bind fun c =>
    if dataSize.toNat = c.columnSize.toNat then some (data.load 0 dataSize.toNat) else none
  | .setVisible val => some [if val then 1 else 0]

namespace Record

variable {r r' : Record} {colId : UInt64} {c : ColumnInfo} {bytes : List UInt8} {call : Call}

theorem getColumn_eq (packed : Packed r.schema) (there : r.schema.columns[colId.toNat]? = some c) :
    r.getColumn colId = some (r.data.load c.columnOffset.toNat c.columnSize.toNat) := by
  simp only [getColumn, RecordSchema.getColumnOffset, RecordSchema.getColumnSize, there, Option.map_some]
  exact if_pos (packed.inside there)

/-- At most a whole column is copied to its place. -/
structure Sets (colId : UInt64) (bytes : List UInt8) (r r' : Record) : Prop where
  column : ∃ c, r.schema.columns[colId.toNat]? = some c ∧ bytes.length ≤ c.columnSize.toNat ∧
    r'.data = r.data.store c.columnOffset.toNat bytes
  schema : r'.schema = r.schema

/-- The other columns stay. -/
theorem Sets.other (sets : Sets colId bytes r r') (packed : Packed r.schema) {other : UInt64} (different : other ≠ colId)
    {d : ColumnInfo} (there : r.schema.columns[other.toNat]? = some d) : r'.getColumn other = r.getColumn other := by
  obtain ⟨⟨c, here, short, stored⟩, same⟩ := sets
  rw [getColumn_eq (same ▸ packed) (same ▸ there), getColumn_eq packed there, stored, Memory.load_store_apart]
  rcases Nat.lt_trichotomy other.toNat colId.toNat with less | equal | more
  · exact Or.inl (packed.before less there here)
  · exact absurd (UInt64.toNat_inj.mp equal) different
  · have apart := packed.before more here there
    right
    omega

/-- A whole column has its new value. -/
theorem Sets.own (sets : Sets colId bytes r r') (packed : Packed r.schema) (there : r.schema.columns[colId.toNat]? = some c)
    (full : bytes.length = c.columnSize.toNat) : r'.getColumn colId = some bytes := by
  obtain ⟨⟨c', here, _, stored⟩, same⟩ := sets
  obtain rfl := Option.some.inj (here.symm.trans there)
  rw [getColumn_eq (same ▸ packed) (same ▸ there), stored, ← full, Memory.load_store]

end Record

end Gam.Database
