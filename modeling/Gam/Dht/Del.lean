import Gam.Dht.Get

/-!
# `del` of an entry of the first bucket

`del` frees the block and leaves an entry with the tag and the size zero in its place.
-/

namespace Gam.Dht

open Function

/-- The loop of `del` finds the key in the first bucket of its chain. -/
def inFirst (htables : List Nat) (key : UInt64) (m : Mem) : Bool :=
  match getBktAddr htables key with
  | .ok bktAddr => scan (fun e => e.matchTag (tag key)) (m.read bktAddr bktSize) < bktSlot
  | .error _ => false

/-- The table after entry `k` of a chain was removed. -/
def Table.del (T : Table) (c : ChainId) (k : Nat) : Table := { T with used := update T.used c ((T.used c).set k none) }

section After

variable {htables : List Nat} {T : Table} {h : Heap} {c c' : ChainId} {k : Nat} {t t' : UInt32}

namespace Table

theorem del_used_other (other : c' ≠ c) : (T.del c k).used c' = T.used c' := update_of_ne other ..

theorem del_cell (cell : (T.used c)[k]? = some (some t)) (i : Nat) :
    ((T.del c k).used c)[i]? = if i = k then some none else (T.used c)[i]? := by
  have inside := (List.getElem?_eq_some_iff.mp cell).1
  have used : (T.del c k).used c = (T.used c).set k none := update_self ..
  rw [used, List.getElem?_set]
  by_cases here : i = k
  · rw [if_pos here.symm, if_pos inside, if_pos here]
  · rw [if_neg (Ne.symm here), if_neg here]

theorem length_del (c' : ChainId) : ((T.del c k).used c').length = (T.used c').length := by
  by_cases same : c' = c
  · subst same
    rw [show (T.del c' k).used c' = _ from update_self .., List.length_set]
  · rw [del_used_other same]

end Table

/-- The cells that are still in use were in use. -/
theorem Layout.cell_del (cell : (T.used c)[k]? = some (some t)) {i : Nat} (there : ((T.del c k).used c')[i]? = some (some t')) :
    (T.used c')[i]? = some (some t') ∧ ¬(c' = c ∧ i = k) := by
  by_cases same : c' = c
  · subst same
    rw [Table.del_cell cell] at there
    split at there
    · cases there
    · next other => exact ⟨there, fun both => other both.2⟩
  · rw [Table.del_used_other same] at there
    exact ⟨there, fun both => same both.1⟩

/-- The tags that are still in use. -/
theorem Layout.mem_del (layout : Layout htables T h) (cell : (T.used c)[k]? = some (some t)) :
    some t' ∈ (T.del c k).used c' ↔ some t' ∈ T.used c' ∧ ¬(c' = c ∧ t' = t) := by
  constructor
  · intro member
    obtain ⟨i, there⟩ := List.mem_iff_getElem?.mp member
    obtain ⟨old, other⟩ := cell_del cell there
    refine ⟨List.mem_of_getElem? old, ?_⟩
    rintro ⟨rfl, rfl⟩
    exact other ⟨rfl, layout.once c' _ _ t' old cell⟩
  · rintro ⟨member, other⟩
    by_cases same : c' = c
    · subst same
      obtain ⟨i, there⟩ := List.mem_iff_getElem?.mp member
      refine List.mem_of_getElem? (i := i) ?_
      rw [Table.del_cell cell, if_neg ?_, there]
      rintro rfl
      rw [cell] at there
      exact other ⟨rfl, (Option.some.inj (Option.some.inj there)).symm⟩
    · rwa [Table.del_used_other same]

theorem Layout.value_del (layout : Layout htables T h) (cell : (T.used c)[k]? = some (some t)) (c' : ChainId) (t' : UInt32) :
    (T.del c k).value c' t' = if c' = c ∧ t' = t then none else T.value c' t' := by
  rw [Table.value, Table.value]
  by_cases same : c' = c ∧ t' = t
  · rw [if_neg fun member => ((layout.mem_del cell).mp member).2 same, if_pos same]
  · rw [if_neg same]
    exact if_congr ((layout.mem_del cell).trans (and_iff_left same)) rfl rfl

/-- Only the entry of the tag changes. -/
theorem Table.del_entryAt (cell : (T.used c)[k]? = some (some t)) (c' : ChainId) (i : Nat) :
    (T.del c k).entryAt c' i = if c' = c ∧ i = k then .removed else T.entryAt c' i := by
  rw [Table.entryAt, Table.entryAt]
  by_cases same : c' = c
  · subst same
    rw [Table.del_cell cell]
    by_cases here : i = k
    · rw [if_pos here, if_pos ⟨rfl, here⟩]
      rfl
    · rw [if_neg here, if_neg fun both => here both.2]
      rfl
  · rw [if_neg fun both => same both.1, Table.del_used_other same]
    rfl

theorem Layout.after_del (layout : Layout htables T h) (supply : Supply) (cell : (T.used c)[k]? = some (some t)) :
    Layout htables (T.del c k) ((h.free supply (T.addr (.block c t))).write (T.addr (.bucket c (k / bktSlot)))
      (setSlot (T.bytes (.bucket c (k / bktSlot))) (k % bktSlot) .removed)) := by
  have used : some t ∈ T.used c := List.mem_of_getElem? cell
  obtain ⟨table, chain⟩ := layout.valid c (List.ne_nil_of_mem used)
  obtain ⟨ok, filled, pieces, others⟩ := layout.freeBlock supply used
  have there : Loc.bucket c (k / bktSlot) ∈ { x | T.Alive htables.length x } \ {Loc.block c t} :=
    ⟨⟨table, chain, layout.bucket_of_cell cell⟩, by simp⟩
  obtain ⟨ok', pieces'⟩ := pieces.rewrite ok (.bucket c (k / bktSlot))
    (setSlot (T.bytes (.bucket c (k / bktSlot))) (k % bktSlot) .removed) there (by
      rw [Table.bytes, setSlot_bucketBytes (Nat.mod_lt _ (by decide)), length_bucketBytes, length_bucketBytes])
  have old : ∀ {c' t'}, some t' ∈ (T.del c k).used c' → some t' ∈ T.used c' := fun member => ((layout.mem_del cell).mp member).1
  have alive : { x | (T.del c k).Alive htables.length x } = { x | T.Alive htables.length x } \ {.block c t} := by
    ext x
    cases x with
    | bucket c' n => exact (and_iff_left (by simp)).symm
    | block c' t' =>
      refine (layout.mem_del cell).trans (and_congr_right' (not_congr ?_))
      rw [Set.mem_singleton_iff, Loc.block.injEq]
  exact
    { ok := ok'
      filled := filled
      pieces := by
        rw [alive]
        refine pieces'.congr fun x _ => ⟨rfl, ?_⟩
        cases x with
        | bucket c' n =>
          rw [Table.bucket_changed _ (Table.del_entryAt cell c') rfl]
          by_cases here : c' = c ∧ n = k / bktSlot
          · obtain ⟨rfl, rfl⟩ := here
            rw [if_pos ⟨rfl, rfl⟩, update_self]
          · rw [if_neg here, update_of_ne fun same => here (Loc.bucket.inj same)]
        | block c' t' => exact (update_of_ne (by simp : Loc.block c' t' ≠ .bucket c (k / bktSlot)) ..).symm
      start := layout.start
      some_bucket := layout.some_bucket
      room := fun c' => (Table.length_del c').symm ▸ layout.room c'
      valid := fun c' nonempty => layout.valid c' fun empty => nonempty (List.length_eq_zero_iff.mp (by rw [Table.length_del, empty]; rfl))
      once := fun c' i j t' first second => layout.once c' i j t' (cell_del cell first).1 (cell_del cell second).1
      small := fun c' t' member => layout.small c' t' (old member)
      short := fun c' t' member => layout.short c' t' (old member)
      region := fun c' t' member => others c' t' (old member) fun same =>
        ((layout.mem_del cell).mp member).2 (Loc.block.inj same) }

end After

namespace Layout

variable {htables : List Nat} {T : Table} {m : Mem} {fuel : Nat} {key : UInt64}

/-- A key that is found in the first bucket has an entry there. -/
theorem cell_of_first (layout : Layout htables T m.heap) (some_table : htables ≠ [])
    (clean : none ∈ T.used (chainOf htables key) → tag key ≠ 0) (first : inFirst htables key m) :
    ∃ k < bktSlot, (T.used (chainOf htables key))[k]? = some (some (tag key)) := by
  obtain ⟨table, chain⟩ := chainOf_valid key some_table
  rw [inFirst, layout.getBktAddr_eq key some_table] at first
  have found := of_decide_eq_true first
  rw [Mem.read, layout.read_bucket table chain (layout.some_bucket _)] at found
  by_cases used : some (tag key) ∈ T.used (chainOf htables key)
  · obtain ⟨k, cell⟩ := List.mem_iff_getElem?.mp used
    rw [layout.scan_match clean cell] at found
    split at found
    · next here => exact ⟨k, (Nat.div_eq_zero_iff_lt (by decide)).mp here.symm, cell⟩
    · exact absurd found (Nat.lt_irrefl _)
  · rw [layout.scan_absent clean used] at found
    exact absurd found (Nat.lt_irrefl _)

/-- `del` of a key that is found in the first bucket: its block is freed and its entry removed. -/
theorem del (supply : Supply) (layout : Layout htables T m.heap) (some_table : htables ≠ [])
    (clean : none ∈ T.used (chainOf htables key) → tag key ≠ 0) (first : inFirst htables key m) (enough : 0 < fuel) :
    ∃ k h', (T.used (chainOf htables key))[k]? = some (some (tag key)) ∧
      Dht.del supply htables fuel key m = .ok (0, { m with heap := h' }) ∧ Layout htables (T.del (chainOf htables key) k) h' ∧
      h'.live = (m.heap.free supply (T.addr (.block (chainOf htables key) (tag key)))).live := by
  obtain ⟨table, chain⟩ := chainOf_valid key some_table
  obtain ⟨k, small, cell⟩ := layout.cell_of_first some_table clean first
  have bucket : k / bktSlot = 0 := Nat.div_eq_of_lt small
  have slot' : k % bktSlot = k := Nat.mod_eq_of_lt small
  have after := layout.after_del supply cell
  have found := layout.scan_match clean (n := 0) cell
  have entry := slot_entryAt T (chainOf htables key) k
  obtain ⟨_, size, addr, parsed, _, place⟩ := layout.parse_cell cell
  obtain ⟨fuel, rfl⟩ := Nat.exists_eq_succ_of_ne_zero (Nat.ne_of_gt enough)
  rw [bucket, slot'] at after entry
  rw [if_pos bucket.symm, slot'] at found
  refine ⟨k, _, cell, ?_, after, rfl⟩
  have read := layout.read_bucket table chain (layout.some_bucket _)
  have search : delFind (tag key) (fuel + 1) (T.addr (.bucket (chainOf htables key) 0)) m =
      .ok (T.addr (.bucket (chainOf htables key) 0), T.bytes (.bucket (chainOf htables key) 0), k,
        m.lock (T.addr (.bucket (chainOf htables key) 0))) := by
    rw [delFind]
    simp only [Mem.read, Mem.lock, read, found]
    rw [if_pos (Nat.lt_trans small (by decide))]
  have other : k ≠ bktSize := Nat.ne_of_lt (Nat.lt_trans small (by decide))
  simp only [Dht.del, layout.getBktAddr_eq key some_table, search, bind, Except.bind, other, if_false, small, if_true, entry, parsed, place]
  show Except.ok (_, Mem.mk _ (List.erase (_ :: m.locked) _)) = _
  rw [List.erase_cons_head]
  rfl

end Layout

end Gam.Dht
