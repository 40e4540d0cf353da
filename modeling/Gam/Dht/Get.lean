import Gam.Dht.Put

/-!
# `get`, and the empty tables

`get` finds what is stored under the tag of a key in the chain of the key. At the start the tables are
memory that is zero.
-/

namespace Gam.Dht

namespace Layout

variable {htables : List Nat} {T : Table} {m : Mem} {fuel : Nat} {key : UInt64}

/-- The bytes that are stored lie at the front of their block. -/
theorem read_block (layout : Layout htables T m.heap) {c : ChainId} {t : UInt32} (used : some t ∈ T.used c) :
    m.heap.mem.load (T.addr (.block c t)) (T.kv c t).length = T.kv c t := by
  have content := layout.pieces.content (.block c t) used
  rw [Table.bytes, List.length_append, Memory.load_add] at content
  exact (List.append_inj content (by rw [Memory.length_load])).1

section
variable (layout : Layout htables T m.heap) (some_table : htables ≠ [])
    (clean : none ∈ T.used (chainOf htables key) → tag key ≠ 0) (enough : T.len (chainOf htables key) ≤ fuel)
include layout some_table clean enough

/-- `get` finds the bytes that are stored for the key. -/
theorem get_value {kv : List UInt8} (stored : T.value (chainOf htables key) (tag key) = some kv) :
    get htables fuel key m = .ok (kv.length, some (ofKvBytes kv), m) := by
  obtain ⟨table, chain⟩ := chainOf_valid key some_table
  rw [Table.value] at stored
  split at stored
  · next used =>
    obtain rfl := Option.some.inj stored
    obtain ⟨k, cell⟩ := List.mem_iff_getElem?.mp used
    have inside := layout.bucket_of_cell cell
    have found := layout.getFind_found table chain clean cell (Nat.zero_le _) (by omega : _ < 0 + fuel)
    obtain ⟨_, size, addr, parsed, length, place⟩ := layout.parse_cell cell
    have positive := (layout.short _ _ used).1
    have bytes := layout.read_block used
    have small : k % bktSlot ≠ bktSlot := Nat.ne_of_lt (Nat.mod_lt _ (by decide))
    simp only [get, layout.getBktAddr_eq key some_table, found, bind, Except.bind, small, if_false, slot_entryAt T, parsed,
      Mem.read, unLock_lock, length, place]
    rw [show (m.lock (T.addr (.bucket (chainOf htables key) (k / bktSlot)))).heap = m.heap from rfl, bytes, if_neg (by omega)]
    rfl
  · cases stored

/-- `get` of a key for which nothing is stored. -/
theorem get_none (absent : T.value (chainOf htables key) (tag key) = none) : get htables fuel key m = .ok (-1, none, m) := by
  obtain ⟨table, chain⟩ := chainOf_valid key some_table
  rw [Table.value] at absent
  split at absent
  · cases absent
  · next unused =>
    obtain ⟨last, bkt, found⟩ := layout.getFind_none table chain clean unused (layout.some_bucket _) (by omega : _ ≤ 0 + fuel)
    simp only [get, layout.getBktAddr_eq key some_table, found, bind, Except.bind, if_true, unLock_lock]
    rfl

end

end Layout

/-! ## The empty tables -/

/-- The tables are regions of zero bytes. -/
structure Start (htables : List Nat) (h : Heap) : Prop where
  ok : h.Ok
  filled : ∀ r ∈ h.live, 0 < r.len
  distinct : htables.Nodup
  region : ∀ table ∈ htables, ⟨table, bktSize * nbkt⟩ ∈ h.live
  zero : ∀ table ∈ htables, ∀ i < bktSize * nbkt, h.mem (table + i) = 0

def Table.start (htables : List Nat) : Table where
  used _ := []
  len _ := 1
  kv _ _ := []
  spare _ _ := []
  addr
    | .bucket c _ => htables.getD c.1 0 + c.2 * bktSize
    | .block .. => 0

theorem Start.layout {htables : List Nat} {h : Heap} (start : Start htables h) : Layout htables (Table.start htables) h := by
  have bytes : ∀ c n, (Table.start htables).bytes (.bucket c n) = List.replicate bktSize 0 := by
    intro c n
    rw [← bucketBytes_empty, Table.bytes, Table.nextOf, if_neg (by simp [Table.start])]
    rfl
  have table : ∀ c : ChainId, c.1 < htables.length → ∃ base ∈ htables, htables.getD c.1 0 = base ∧ htables[c.1]? = some base := by
    intro c below
    refine ⟨_, List.getElem_mem below, ?_, List.getElem?_eq_getElem below⟩
    rw [List.getD_eq_getElem?_getD, List.getElem?_eq_getElem below, Option.getD_some]
  have holds : ∀ (base i : Nat), i < nbkt → Region.Holds ⟨base, bktSize * nbkt⟩ (base + i * bktSize) bktSize := fun _ _ => Region.slot_holds
  exact
    { ok := start.ok
      filled := start.filled
      pieces := by
        refine ⟨?_, ?_, ?_⟩
        · rintro (⟨c, n⟩ | ⟨c, t⟩) alive
          · obtain ⟨base, member, same, _⟩ := table c alive.1
            rw [bytes, List.length_replicate]
            refine ⟨_, start.region base member, ?_⟩
            show Region.Holds _ (htables.getD c.1 0 + _) _
            rw [same]
            exact holds base c.2 alive.2.1
          · cases alive
        · rintro (⟨c, n⟩ | ⟨c, t⟩) alive (⟨c', n'⟩ | ⟨c', t'⟩) alive' different
          · obtain ⟨base, member, same, found⟩ := table c alive.1
            obtain ⟨base', member', same', found'⟩ := table c' alive'.1
            rw [bytes, bytes, List.length_replicate]
            show Region.Apart ⟨htables.getD c.1 0 + _, _⟩ ⟨htables.getD c'.1 0 + _, _⟩
            rw [same, same']
            by_cases equal : c.1 = c'.1
            · obtain rfl : base = base' := Option.some.inj (found.symm.trans (by rw [equal]; exact found'))
              refine Region.slots_apart fun slot => different ?_
              have first := alive.2.2
              have second := alive'.2.2
              simp only [Table.start] at first second
              rw [show c = c' from Prod.ext equal slot, show n = n' by omega]
            · have other : base ≠ base' := by
                rintro rfl
                exact equal ((List.getElem?_inj alive.1 start.distinct).mp (found.trans found'.symm))
              have apart := start.ok.apart.forall (start.region base member) (start.region base' member')
                fun regions => other (Region.mk.inj regions).1
              exact apart.pieces (holds base c.2 alive.2.1) (holds base' c'.2 alive'.2.1)
          · cases alive'
          · cases alive
          · cases alive
        · rintro (⟨c, n⟩ | ⟨c, t⟩) alive
          · obtain ⟨base, member, same, _⟩ := table c alive.1
            rw [bytes, List.length_replicate]
            show h.mem.load (htables.getD c.1 0 + _) _ = _
            rw [same]
            refine List.eq_replicate_iff.mpr ⟨Memory.length_load, fun x inside => ?_⟩
            obtain ⟨i, small, rfl⟩ := List.mem_map.mp inside
            have fits := (holds base c.2 alive.2.1).2
            simp only [Region.stop] at fits
            rw [List.mem_range] at small
            rw [Nat.add_assoc]
            exact start.zero base member _ (by omega)
          · cases alive
      start := fun c _ base found => by
        show htables.getD c.1 0 + c.2 * bktSize = _
        rw [List.getD_eq_getElem?_getD, found, Option.getD_some, Nat.mul_comm]
      some_bucket := fun _ => Nat.one_pos
      room := fun _ => Nat.zero_le _
      valid := fun _ nonempty => absurd rfl nonempty
      once := fun _ _ _ _ cell => by cases cell
      small := fun _ _ used => by cases used
      short := fun _ _ used => by cases used
      region := fun _ _ used => by cases used }

end Gam.Dht
