import Gam.Database.Storage

/-! A serialised storage manager is rebuilt from its bytes. -/

namespace Gam.Database
variable {addr q : Nat} {m m' : Memory}

open Memory Format

theorem GAddrArray.serial : Serial GAddrArray.serialize GAddrArray.deserialize GAddrArray.serializeSize fun _ => True where
  outside := by
    intro arr addr m q _ away
    unfold serializeSize at away
    simp only [serialize]
    repeat rw [put_outside _ (by simp; omega)]
  rebuilds := by
    intro arr addr m m' _ agree
    unfold serializeSize at agree
    cases arr
    simp only [deserialize, GAddrArray.mk.injEq]
    refine ⟨(agree.get _ ?_).trans ?_, (agree.get _ ?_).trans ?_, (agree.get _ ?_).trans ?_, (agree.get _ ?_).trans ?_,
      (agree.get _ ?_).trans ?_⟩
    all_goals first
      | simp only [word_width, array_width]; omega
      | simp (disch := (simp only [word_width, array_width]; omega)) only [serialize, Nat.add_zero, Nat.zero_add,
          Nat.reduceAdd, Nat.reduceMul, get_put_apart, get_put]

theorem HashIndex.serial : Serial HashIndex.serialize HashIndex.deserialize HashIndex.serializeSize fun _ => True where
  outside := by
    intro index addr m q _ away
    unfold serializeSize GAddrArray.serializeSize at away
    simp only [serialize]
    rw [put_outside _ (by simp [GAddrArray.serializeSize]; omega), put_outside _ (by simp [GAddrArray.serializeSize]; omega)]
    exact GAddrArray.serial.outside trivial (by unfold GAddrArray.serializeSize; omega)
  rebuilds := by
    intro index addr m m' _ agree
    have buckets : Agree addr GAddrArray.serializeSize m' (index.buckets.serialize addr m) := by
      intro q above below
      rw [agree q above (by unfold serializeSize; omega)]
      simp only [serialize]
      rw [put_outside _ (by simp; omega), put_outside _ (by simp; omega)]
    unfold serializeSize GAddrArray.serializeSize at agree
    cases index
    simp only [deserialize, HashIndex.mk.injEq]
    refine ⟨GAddrArray.serial.rebuilds trivial buckets, (agree.get _ ?_).trans ?_, (agree.get _ ?_).trans ?_⟩
    all_goals first
      | simp only [word_width, GAddrArray.serializeSize]; omega
      | simp (disch := (simp only [word_width]; omega)) only [serialize, get_put_apart, get_put]

theorem ColumnInfo.format_width : ColumnInfo.format.width = 40 := rfl

/-- The fixed part of a schema is not touched by its columns. -/
theorem RecordSchema.serial : Serial RecordSchema.serialize RecordSchema.deserialize RecordSchema.serializeSize
    fun schema => schema.columns.length ≤ kMaxColumnNum where
  outside := by
    intro schema addr m q narrow away
    unfold serializeSize kMaxColumnNum at away
    unfold kMaxColumnNum at narrow
    rw [ColumnInfo.format_width] at away
    simp only [serialize]
    rw [store_outside (by rw [length_encodeAll, ColumnInfo.format_width]; omega)]
    repeat rw [put_outside _ (by simp; omega)]
  rebuilds := by
    intro schema addr m m' narrow agree
    unfold serializeSize kMaxColumnNum at agree
    unfold kMaxColumnNum at narrow
    rw [ColumnInfo.format_width] at agree
    obtain ⟨tableId, columnCount, columnOffset, primaryColumnIds, primaryColumnNum, secondaryColumnIds, secondaryColumnNum,
      secondaryIndexNum, partitionColumnIds, partitionColumnNum, columns, sized⟩ := schema
    simp only at narrow
    have count : m'.get word (addr + 8) = columnCount := by
      refine (agree.get _ ?_).trans ?_
      · simp only [word_width]
        omega
      · simp (disch := (simp only [word_width, array_width]; omega)) only [serialize, get_store_apart, Nat.zero_add,
          Nat.reduceAdd, Nat.reduceMul, get_put_apart, get_put]
    have loaded : m'.load (addr + 272) (ColumnInfo.format.width * columnCount.toNat) =
        ColumnInfo.format.encodeAll columns := by
      have length := ColumnInfo.format.length_encodeAll columns
      rw [← sized, ← length, agree.load (by rw [length, ColumnInfo.format_width]; omega)]
      exact load_store
    simp only [deserialize, RecordSchema.mk.injEq, count, loaded, true_and]
    rw [← sized]
    refine ⟨(agree.get _ ?_).trans ?_, (agree.get _ ?_).trans ?_, (agree.get _ ?_).trans ?_, (agree.get _ ?_).trans ?_,
      ?_, (agree.get _ ?_).trans ?_, (agree.get _ ?_).trans ?_, (agree.get _ ?_).trans ?_, (agree.get _ ?_).trans ?_,
      ColumnInfo.format.decodeAll_encodeAll columns⟩
    case refine_9 =>
      funext i
      refine (agree.get _ ?_).trans ?_
      · simp only [word_width, array_width]
        omega
      · match i with
        | 0 | 1 | 2 =>
          simp (disch := (simp only [word_width, array_width]; omega)) only [serialize, get_store_apart, Fin.val_zero,
            Fin.val_one, Fin.val_two, Nat.mul_zero, Nat.add_zero, Nat.zero_add, Nat.reduceAdd, Nat.reduceMul,
            get_put_apart, get_put]
    all_goals first
      | simp only [word_width, array_width]; omega
      | simp (disch := (simp only [word_width, array_width]; omega)) only [serialize, get_store_apart, Nat.add_zero,
          Nat.zero_add, Nat.reduceAdd, Nat.reduceMul, get_put_apart, get_put]

theorem Table.serial : Serial Table.serialize Table.deserialize Table.serializeSize
    fun table => table.schema.columns.length ≤ kMaxColumnNum where
  outside := by
    intro table addr m q narrow away
    unfold serializeSize at away
    simp only [serialize]
    rw [HashIndex.serial.outside trivial (by omega), RecordSchema.serial.outside narrow (by omega),
      put_outside _ (by simp; omega), put_outside _ (by simp; omega)]
  rebuilds := by
    intro table addr m m' narrow agree
    obtain ⟨tableId, secondaryCount, schema, primaryIndex⟩ := table
    have index : Agree (addr + 16 + RecordSchema.serializeSize) HashIndex.serializeSize m' _ :=
      agree.mono (by unfold serializeSize; omega)
    have columns : Agree (addr + 16) RecordSchema.serializeSize m' (schema.serialize (addr + 16)
        ((m.put word (addr + 0) tableId).put word (addr + (0 + 8)) secondaryCount)) := fun q above below => by
      rw [agree q (by omega) (by unfold serializeSize; omega)]
      exact HashIndex.serial.outside trivial (by omega)
    have header : Agree addr 16 m' ((m.put word (addr + 0) tableId).put word (addr + (0 + 8)) secondaryCount) := by
      intro q above below
      rw [agree q above (by unfold serializeSize; omega)]
      simp only [serialize]
      rw [HashIndex.serial.outside trivial (by omega), RecordSchema.serial.outside narrow (by omega)]
    simp only [deserialize, Table.mk.injEq]
    refine ⟨(header.get word ⟨Nat.le_refl _, by simp⟩).trans ?_, (header.get word ⟨Nat.le_add_right .., by simp⟩).trans ?_,
      RecordSchema.serial.rebuilds narrow columns, HashIndex.serial.rebuilds trivial index⟩
    · rw [get_put_apart _ _ (by simp), Nat.add_zero, get_put]
    · exact get_put word

namespace StorageManager

/-- Does an update of memory write the byte at `q`? -/
def Writes (update : Memory → Memory) (q : Nat) : Prop := ∃ m, update m q ≠ m q

/-- The address at which table `i` is serialised. -/
def tableAddr (addr i : Nat) : Nat := addr + 8 + Table.serializeSize * i

theorem tableAddr_apart (addr : Nat) {i j : Nat} (before : i < j) : tableAddr addr i + Table.serializeSize ≤ tableAddr addr j := by
  have step := Nat.mul_le_mul_left Table.serializeSize before
  unfold tableAddr
  rw [Nat.mul_succ] at step
  omega

/-- What is written lies inside the space of a table. -/
theorem Writes.inside {table : Table} (narrow : table.schema.columns.length ≤ kMaxColumnNum)
    (writes : Writes (table.serialize addr) q) : addr ≤ q ∧ q < addr + Table.serializeSize := by
  obtain ⟨m, changed⟩ := writes
  by_contra away
  exact changed (Table.serial.outside narrow (by omega))

/-- What a node has serialised, another node rebuilds from the same address, whatever is in the rest of
memory. The tables are written one after the other into parts that lie apart, and nothing is written
outside the region. -/
theorem serialize_rebuilds (manager : StorageManager) (few : manager.tables.length < kMaxTableNum)
    (narrow : ∀ table ∈ manager.tables, table.schema.columns.length ≤ kMaxColumnNum) (addr : Nat) :
    (∀ m m', Agree addr serializeSize m' (manager.serialize addr m) → deserialize addr m' = manager) ∧
    (∀ m, manager.serialize addr m = manager.tables.zipIdx.foldl
      (fun m x => x.1.serialize (tableAddr addr x.2) m) (m.put word addr manager.tableCount)) ∧
    (∀ i (table : Table), manager.tables[i]? = some table → ∀ j (other : Table), manager.tables[j]? = some other →
      i ≠ j → ∀ q, Writes (table.serialize (tableAddr addr i)) q → ¬Writes (other.serialize (tableAddr addr j)) q) ∧
    ∀ q, Writes (manager.serialize addr) q → addr ≤ q ∧ q < addr + serializeSize := by
  have room : Table.serializeSize * manager.tables.length ≤ kMaxTableNum * Table.serializeSize := by
    rw [Nat.mul_comm kMaxTableNum]
    exact Nat.mul_le_mul_left _ (Nat.le_of_lt few)
  refine ⟨fun m m' agree => ?_, fun m => ?_, ?_, ?_⟩
  · obtain ⟨tableCount, tables, sized⟩ := manager
    simp only at room few narrow
    unfold serializeSize at agree
    have count : m'.get word addr = tableCount := by
      have header : Agree addr 8 m' (m.put word addr tableCount) := fun q above below => by
        rw [agree q above (by omega)]
        exact Table.serial.outside_all narrow (by omega)
      rw [header.get word ⟨Nat.le_refl _, Nat.le_refl _⟩, get_put]
    have rebuilt := Table.serial.rebuilds_all narrow (agree.mono (q := addr + 8) ⟨Nat.le_add_right .., by omega⟩)
    simp only [deserialize, StorageManager.mk.injEq, count, true_and]
    rw [← sized]
    exact rebuilt
  · exact Serial.serializeAll_eq Table.serialize Table.serializeSize (addr + 8) manager.tables 0 _
  · intro i table first j other second different q writes writes'
    have bounds := writes.inside (narrow table (List.mem_of_getElem? first))
    have bounds' := writes'.inside (narrow other (List.mem_of_getElem? second))
    rcases Nat.lt_or_gt_of_ne different with before | after
    · have apart := tableAddr_apart addr before
      omega
    · have apart := tableAddr_apart addr after
      omega
  · rintro q ⟨m, changed⟩
    unfold serializeSize
    by_contra away
    refine changed ((Table.serial.outside_all narrow ?_).trans (put_outside _ ?_))
    · omega
    · simp only [word_width]
      omega

/-- A manager with a table of one column. -/
theorem serialize_rebuilds_one : ∃ manager : StorageManager, manager.tables.length = 1 ∧
    ∀ m, deserialize 64 (manager.serialize 64 m) = manager := by
  refine ⟨⟨1, [⟨0, 0, ⟨0, 1, 8, fun _ => 0, 1, fun _ _ => 0, fun _ => 0, 0, fun _ => 0, 0, [⟨fun _ => 65, .int64, 8, 0⟩], rfl⟩,
    ⟨⟨4096, 1, 8, fun _ => 1, 0⟩, 1, 0⟩⟩], rfl⟩, rfl, fun m => ?_⟩
  exact (serialize_rebuilds _ (by decide) (by simp [kMaxColumnNum]) 64).1 m _ fun _ _ _ => rfl

end StorageManager

end Gam.Database
