import Gam.Dht.Find

/-!
# `put`

The block of an entry is reused if it is large enough, and else replaced. Then the entry and the bytes
are written.
-/

namespace Gam.Dht

open Function

open Heap (Stop)

/-- What the heap is like once the block of a tag is there: `block` is what it holds. -/
structure Blocked (htables : List Nat) (T : Table) (c : ChainId) (t : UInt32) (a : Nat) (block : List UInt8) (h : Heap) : Prop where
  ok : h.Ok
  filled : ∀ r ∈ h.live, 0 < r.len
  pieces : Pieces h (insert (.block c t) { x | T.Alive htables.length x }) (update T.addr (.block c t) a)
    (update T.bytes (.block c t) block)
  region : ⟨a, block.length⟩ ∈ h.live
  others : ∀ c' t', some t' ∈ T.used c' → Loc.block c' t' ≠ .block c t →
    ⟨T.addr (.block c' t'), (T.bytes (.block c' t')).length⟩ ∈ h.live

/-! ## The table after `put` -/

/-- A list with another element at a place inside or right behind it. -/
def place {α : Type} (l : List α) (k : Nat) (x : α) : List α := l.take k ++ x :: l.drop (k + 1)

theorem getElem?_place {α : Type} {l : List α} {k : Nat} (upto : k ≤ l.length) (x : α) (i : Nat) :
    (place l k x)[i]? = if i = k then some x else l[i]? := by
  have length : (l.take k).length = k := List.length_take_of_le upto
  rw [place]
  rcases Nat.lt_trichotomy i k with before | rfl | after
  · rw [if_neg (Nat.ne_of_lt before), List.getElem?_append_left (by omega), List.getElem?_take_of_lt before]
  · rw [if_pos rfl, List.getElem?_append_right (Nat.le_of_eq length), length, Nat.sub_self, List.getElem?_cons_zero]
  · rw [if_neg (Nat.ne_of_gt after), List.getElem?_append_right (by omega), length]
    obtain ⟨d, rfl⟩ := Nat.exists_eq_add_of_lt after
    rw [show k + d + 1 - k = d + 1 by omega, List.getElem?_cons_succ, List.getElem?_drop]
    congr 1
    omega

theorem length_place_le {α : Type} {l : List α} {k : Nat} (upto : k ≤ l.length) (x : α) : (place l k x).length ≤ max l.length (k + 1) := by
  rw [place, List.length_append, List.length_cons, List.length_take, List.length_drop]
  omega

namespace Table

/-- The bytes `kvp` are put under a tag, whose entry is number `k`. -/
def put (T : Table) (c : ChainId) (t : UInt32) (k a : Nat) (kvp spare : List UInt8) : Table :=
  { T with
    used := update T.used c (place (T.used c) k (some t))
    kv := fun c' t' => if c' = c ∧ t' = t then kvp else T.kv c' t'
    spare := fun c' t' => if c' = c ∧ t' = t then spare else T.spare c' t'
    addr := update T.addr (.block c t) a }

end Table

namespace Layout

variable {htables : List Nat} {T : Table} {h : Heap} {c : ChainId} {k size : Nat} {t : UInt32} {supply : Supply}

/-- A new block, of which the old one was given up. -/
theorem newBlock {m : Mem} (ok : m.heap.Ok) (filled : ∀ r ∈ m.heap.live, 0 < r.len)
    (pieces : Pieces m.heap ({ x | T.Alive htables.length x } \ {.block c t}) T.addr T.bytes)
    (others : ∀ c' t', some t' ∈ T.used c' → Loc.block c' t' ≠ .block c t →
      ⟨T.addr (.block c' t'), (T.bytes (.block c' t')).length⟩ ∈ m.heap.live) (positive : 0 < size) :
    m.malloc supply size = .error .memory ∨
      ∃ a block h', m.malloc supply size = .ok (a, { m with heap := h' }) ∧ size = block.length ∧ Blocked htables T c t a block h' := by
  unfold Mem.malloc Heap.malloc
  by_cases sound : (m.heap.alloc supply size).2.sound = true
  · right
    have length : (List.replicate size (0 : UInt8)).length = size := List.length_replicate
    obtain ⟨ok', created⟩ := pieces.create ok (.block c t) (List.replicate size 0) (fun there => there.2 rfl) (by rwa [length])
    rw [length, Set.insert_sdiff_singleton] at created
    rw [length] at ok'
    rw [if_pos sound]
    refine ⟨_, List.replicate size 0, _, rfl, length.symm, ok', ?_, created, ?_, fun c' t' used other => ?_⟩
    · rintro r (_ | ⟨_, member⟩)
      · exact positive
      · exact filled r member
    · rw [length]
      exact List.mem_cons_self
    · exact List.mem_cons_of_mem _ (others c' t' used other)
  · left
    rw [if_neg sound]
    rfl

/-- Different blocks are different regions. -/
theorem region_ne (layout : Layout htables T h) (used : some t ∈ T.used c) {c' : ChainId} {t' : UInt32} (used' : some t' ∈ T.used c')
    (other : Loc.block c' t' ≠ .block c t) :
    (⟨T.addr (.block c' t'), (T.bytes (.block c' t')).length⟩ : Region) ≠ ⟨T.addr (.block c t), (T.bytes (.block c t)).length⟩ := by
  intro same
  have alive : T.Alive htables.length (.block c' t') := used'
  have apart := layout.pieces.apart (.block c' t') alive (.block c t) used other
  have first := List.length_pos_iff.mpr (layout.bytes_ne_nil alive)
  obtain ⟨start, len⟩ := Region.mk.inj same
  simp only [Region.Apart, Region.stop] at apart
  omega

/-- The block of a tag is freed. -/
theorem freeBlock (layout : Layout htables T h) (supply : Supply) (used : some t ∈ T.used c) :
    (h.free supply (T.addr (.block c t))).Ok ∧ (∀ r ∈ (h.free supply (T.addr (.block c t))).live, 0 < r.len) ∧
      Pieces (h.free supply (T.addr (.block c t))) ({ x | T.Alive htables.length x } \ {.block c t}) T.addr T.bytes ∧
      ∀ c' t', some t' ∈ T.used c' → Loc.block c' t' ≠ .block c t →
        ⟨T.addr (.block c' t'), (T.bytes (.block c' t')).length⟩ ∈ (h.free supply (T.addr (.block c t))).live := by
  obtain ⟨ok, pieces, live⟩ := layout.pieces.free layout.ok supply layout.filled (fun x there => layout.bytes_ne_nil there)
    (.block c t) used (layout.region c t used)
  exact ⟨ok, fun r member => layout.filled r ((live r).mp member).1, pieces, fun c' t' used' other =>
    (live _).mpr ⟨layout.region c' t' used', layout.region_ne used used' other⟩⟩

/-- The parts of the entry of a tag. -/
theorem parse_cell (layout : Layout htables T h) (cell : (T.used c)[k]? = some (some t)) :
    T.entryAt c k = .update t (UInt32.ofNat (T.kv c t).length) (UInt64.ofNat (T.addr (.block c t))) ∧
      ∃ size addr, (T.entryAt c k).parse = (t, size, addr) ∧ size.toNat = (T.kv c t).length ∧ addr.toNat = T.addr (.block c t) := by
  have used : some t ∈ T.used c := List.mem_of_getElem? cell
  have entry : T.entryAt c k = .update t (UInt32.ofNat (T.kv c t).length) (UInt64.ofNat (T.addr (.block c t))) := by
    rw [Table.entryAt, cell]
    rfl
  obtain ⟨small, short⟩ := layout.cell_fits used
  refine ⟨entry, _, _, by rw [entry, Entry.parse_update _ small short], ?_, ?_⟩
  · rw [UInt32.toNat_ofNat']
    exact Nat.mod_eq_of_lt (Nat.lt_trans (layout.short c t used).2 (by decide))
  · rw [UInt64.toNat_ofNat']
    exact Nat.mod_eq_of_lt (layout.addr_block used).2

/-- A block that is too small is replaced. Only the tag zero does not give the old one back. -/
theorem putBlock_grows {m : Mem} (layout : Layout htables T m.heap) (cell : (T.used c)[k]? = some (some t))
    (grows : (T.kv c t).length < size) : putBlock supply (T.entryAt c k) size m = .error .memory ∨
      ∃ a block h', putBlock supply (T.entryAt c k) size m = .ok (a, { m with heap := h' }) ∧ size = block.length ∧
        Blocked htables T c t a block h' := by
  have used : some t ∈ T.used c := List.mem_of_getElem? cell
  have positive : 0 < size := Nat.lt_of_le_of_lt (Nat.zero_le _) grows
  obtain ⟨_, old, addr, parsed, length, place⟩ := layout.parse_cell cell
  rw [putBlock, parsed]
  dsimp only
  rw [length, place, if_pos grows]
  by_cases tagged : 0 < t
  · rw [if_pos tagged]
    obtain ⟨ok, filled, pieces, others⟩ := layout.freeBlock supply used
    exact newBlock (m := { m with heap := m.heap.free supply (T.addr (.block c t)) }) ok filled pieces others positive
  · rw [if_neg tagged]
    exact newBlock layout.ok layout.filled (layout.pieces.mono Set.sdiff_subset) (fun c' t' used' _ => layout.region c' t' used') positive

/-- The block that `put` writes to. The entry is written again unless it says the same already. -/
theorem putBlock_spec (supply : Supply) (size : Nat) {m : Mem} (layout : Layout htables T m.heap) (target : Target T c t k) (positive : 0 < size) :
    putBlock supply (T.entryAt c k) size m = .error .memory ∨
      ∃ a block h', putBlock supply (T.entryAt c k) size m = .ok (a, { m with heap := h' }) ∧ size ≤ block.length ∧
        Blocked htables T c t a block h' ∧
        ((T.entryAt c k).parse.2.1.toNat = size → T.entryAt c k = .update t (UInt32.ofNat size) (UInt64.ofNat a)) := by
  rcases target with cell | ⟨absent, rfl⟩
  · have used : Loc.block c t ∈ { x | T.Alive htables.length x } := (List.mem_of_getElem? cell : some t ∈ T.used c)
    obtain ⟨entry, old, addr, parsed, length, place⟩ := layout.parse_cell cell
    rw [parsed]
    by_cases grows : (T.kv c t).length < size
    · rcases layout.putBlock_grows cell grows with failed | ⟨a, block, h', done, enough, blocked⟩
      · exact Or.inl failed
      · refine Or.inr ⟨a, block, h', done, enough.le, blocked, fun same => absurd same ?_⟩
        rw [length]
        exact Nat.ne_of_lt grows
    · refine Or.inr ⟨T.addr (.block c t), T.bytes (.block c t), m.heap, ?_, ?_, ⟨layout.ok, layout.filled, ?_, layout.region c t used,
        fun c' t' used' _ => layout.region c' t' used'⟩, fun same => ?_⟩
      · rw [putBlock, parsed]
        dsimp only
        rw [length, place, if_neg grows]
      · rw [Table.bytes, List.length_append]
        omega
      · rw [update_eq_self, update_eq_self, Set.insert_eq_of_mem used]
        exact layout.pieces
      · rw [entry, ← length.symm.trans same]
  · have entry : T.entryAt c (T.used c).length = .empty := by
      rw [Table.entryAt, List.getElem?_eq_none (Nat.le_refl _)]
      rfl
    have made : putBlock supply .empty size m = m.malloc supply size := if_pos positive
    rw [entry, made]
    rcases newBlock layout.ok layout.filled (layout.pieces.mono Set.sdiff_subset) (fun c' t' used' _ => layout.region c' t' used') positive
      with failed | ⟨a, block, h', done, enough, blocked⟩
    · exact Or.inl failed
    · exact Or.inr ⟨a, block, h', done, enough.le, blocked, fun same => absurd same (Nat.ne_of_lt positive)⟩

end Layout

section After

variable {htables : List Nat} {T : Table} {h : Heap} {c c' : ChainId} {k a : Nat} {t t' : UInt32} {kvp spare : List UInt8}

theorem Target.upto (target : Target T c t k) : k ≤ (T.used c).length := by
  rcases target with cell | ⟨_, rfl⟩
  · exact (List.getElem?_eq_some_iff.mp cell).1.le
  · exact Nat.le_refl _

namespace Table

theorem put_used_other (other : c' ≠ c) : (T.put c t k a kvp spare).used c' = T.used c' := update_of_ne other ..

theorem put_used_self : (T.put c t k a kvp spare).used c = place (T.used c) k (some t) := update_self ..

theorem put_addr_self : (T.put c t k a kvp spare).addr (.block c t) = a := update_self ..

theorem put_addr_other {x : Loc} (other : x ≠ .block c t) : (T.put c t k a kvp spare).addr x = T.addr x := update_of_ne other ..

theorem put_cell (target : Target T c t k) (i : Nat) :
    ((T.put c t k a kvp spare).used c)[i]? = if i = k then some (some t) else (T.used c)[i]? := by
  rw [put_used_self, getElem?_place target.upto]

/-- The tags in use are the old ones and the one that was put. -/
theorem mem_put (target : Target T c t k) {x : Option UInt32} :
    x ∈ (T.put c t k a kvp spare).used c' ↔ (c' = c ∧ x = some t) ∨ x ∈ T.used c' := by
  by_cases same : c' = c
  · subst same
    constructor
    · intro member
      obtain ⟨i, cell⟩ := List.mem_iff_getElem?.mp member
      rw [put_cell target] at cell
      split at cell
      · exact Or.inl ⟨rfl, (Option.some.inj cell).symm⟩
      · exact Or.inr (List.mem_of_getElem? cell)
    · rintro (⟨_, rfl⟩ | member)
      · exact List.mem_of_getElem? (i := k) (by rw [put_cell target, if_pos rfl])
      · obtain ⟨i, cell⟩ := List.mem_iff_getElem?.mp member
        by_cases here : i = k
        · subst here
          rcases target with cell' | ⟨_, rfl⟩
          · rw [cell'] at cell
            rw [← Option.some.inj cell]
            exact List.mem_of_getElem? (i := i) (by rw [put_cell (Or.inl cell'), if_pos rfl])
          · rw [List.getElem?_eq_none (Nat.le_refl _)] at cell
            cases cell
        · exact List.mem_of_getElem? (i := i) (by rw [put_cell target, if_neg here]; exact cell)
  · rw [put_used_other same]
    simp [same]

theorem put_kv_self : (T.put c t k a kvp spare).kv c t = kvp := if_pos ⟨rfl, rfl⟩

theorem put_kv_other (other : ¬(c' = c ∧ t' = t)) : (T.put c t k a kvp spare).kv c' t' = T.kv c' t' := if_neg other

theorem put_bytes_self : (T.put c t k a kvp spare).bytes (.block c t) = kvp ++ spare :=
  congrArg₂ (· ++ ·) (if_pos ⟨rfl, rfl⟩) (if_pos ⟨rfl, rfl⟩)

theorem put_bytes_other (other : Loc.block c' t' ≠ .block c t) :
    (T.put c t k a kvp spare).bytes (.block c' t') = T.bytes (.block c' t') := by
  have other' : ¬(c' = c ∧ t' = t) := fun ⟨first, second⟩ => other (by rw [first, second])
  exact congrArg₂ (· ++ ·) (if_neg other') (if_neg other')

end Table

/-- Only the entry of the tag changes. -/
theorem Layout.put_entryAt (layout : Layout htables T h) (target : Target T c t k) (c' : ChainId) (i : Nat) :
    (T.put c t k a kvp spare).entryAt c' i =
      if c' = c ∧ i = k then .update t (UInt32.ofNat kvp.length) (UInt64.ofNat a) else T.entryAt c' i := by
  have keep : ∀ t', ¬(c' = c ∧ t' = t) → (T.put c t k a kvp spare).cellEntry c' (some (some t')) = T.cellEntry c' (some (some t')) := by
    intro t' other
    have place : Loc.block c' t' ≠ .block c t := fun same => other (Loc.block.inj same)
    rw [Table.cellEntry, Table.cellEntry, Table.put_kv_other other, Table.put_addr_other place]
  rw [Table.entryAt, Table.entryAt]
  by_cases same : c' = c
  · subst same
    rw [Table.put_cell target]
    by_cases here : i = k
    · rw [if_pos here, if_pos ⟨rfl, here⟩, Table.cellEntry, Table.put_kv_self, Table.put_addr_self]
    · rw [if_neg here, if_neg fun both => here both.2]
      cases cell : (T.used c')[i]? with
      | none => rfl
      | some x =>
        cases x with
        | none => rfl
        | some t' =>
          refine keep t' ?_
          rintro ⟨_, rfl⟩
          rcases target with cell' | ⟨absent, _⟩
          · exact here (layout.once c' _ _ t' cell cell')
          · exact absent (List.mem_of_getElem? cell)
  · rw [if_neg fun both => same both.1, Table.put_used_other same]
    cases cell : (T.used c')[i]? with
    | none => rfl
    | some x =>
      cases x with
      | none => rfl
      | some t' => exact keep t' fun both => same both.1

/-- The bytes of the buckets when one entry changes. -/
theorem Table.bucket_changed {T' : Table} {n : Nat} (e : Entry)
    (entries : ∀ i, T'.entryAt c' i = if c' = c ∧ i = k then e else T.entryAt c' i) (nexts : T'.nextOf c' n = T.nextOf c' n) :
    T'.bytes (.bucket c' n) =
      if c' = c ∧ n = k / bktSlot then setSlot (T.bytes (.bucket c' n)) (k % bktSlot) e else T.bytes (.bucket c' n) := by
  have parts := Nat.div_add_mod k bktSlot
  have small : k % bktSlot < bktSlot := Nat.mod_lt _ (by decide)
  rw [Table.bytes, Table.bytes, nexts]
  by_cases here : c' = c ∧ n = k / bktSlot
  · rw [if_pos here, setSlot_bucketBytes small]
    congr 1
    funext pos
    obtain ⟨rfl, rfl⟩ := here
    rw [entries]
    by_cases same : pos = k % bktSlot
    · rw [same, update_self, if_pos ⟨rfl, by rw [Nat.mul_comm]; exact parts⟩]
    · rw [update_of_ne same, if_neg]
      rintro ⟨_, place⟩
      rw [Nat.mul_comm] at place
      omega
  · rw [if_neg here, bucketBytes, bucketBytes]
    congr 1
    refine List.flatMap_congr fun pos inside => ?_
    rw [entries, if_neg]
    rintro ⟨same, place⟩
    refine here ⟨same, ?_⟩
    rw [← place, Nat.mul_comm, Nat.mul_add_div (by decide), Nat.div_eq_of_lt (List.mem_range.mp inside), Nat.add_zero]

/-- The bytes of the buckets after `put`. -/
theorem Layout.put_bucket (layout : Layout htables T h) (target : Target T c t k) (c' : ChainId) (n : Nat) :
    (T.put c t k a kvp spare).bytes (.bucket c' n) = if c' = c ∧ n = k / bktSlot then
        setSlot (T.bytes (.bucket c' n)) (k % bktSlot) (.update t (UInt32.ofNat kvp.length) (UInt64.ofNat a))
      else T.bytes (.bucket c' n) := by
  refine Table.bucket_changed _ (layout.put_entryAt target c') ?_
  have place : Loc.bucket c' (n + 1) ≠ .block c t := nofun
  rw [Table.nextOf, Table.nextOf, Table.put_addr_other place]
  rfl

/-- An entry that is written again with what it says already. -/
theorem setSlot_same (e : Entry) (same : T.entryAt c k = e) :
    setSlot (T.bytes (.bucket c (k / bktSlot))) (k % bktSlot) e = T.bytes (.bucket c (k / bktSlot)) := by
  have place : k / bktSlot * bktSlot + k % bktSlot = k := by rw [Nat.mul_comm]; exact Nat.div_add_mod k bktSlot
  rw [Table.bytes, setSlot_bucketBytes (Nat.mod_lt _ (by decide))]
  congr 1
  refine update_eq_self_iff.mpr ?_
  rw [place, same]

/-- The entry is written unless it says the same already. -/
theorem Blocked.entry {g h' : Heap} {block : List UInt8} (blocked : Blocked htables T c t a block g) (table : c.1 < htables.length)
    (chain : c.2 < nbkt) (inside : k / bktSlot < T.len c) (e : Entry)
    (written : h' = g.write (T.addr (.bucket c (k / bktSlot))) (setSlot (T.bytes (.bucket c (k / bktSlot))) (k % bktSlot) e) ∨
      h' = g ∧ T.entryAt c k = e) :
    h'.Ok ∧ h'.live = g.live ∧ Pieces h' (insert (.block c t) { x | T.Alive htables.length x }) (update T.addr (.block c t) a)
      (update (update T.bytes (.block c t) block) (.bucket c (k / bktSlot))
        (setSlot (T.bytes (.bucket c (k / bktSlot))) (k % bktSlot) e)) := by
  have other : Loc.bucket c (k / bktSlot) ≠ .block c t := nofun
  rcases written with rfl | ⟨rfl, same⟩
  · have there : Loc.bucket c (k / bktSlot) ∈ insert (Loc.block c t) { x | T.Alive htables.length x } := Or.inr ⟨table, chain, inside⟩
    obtain ⟨ok, pieces⟩ := blocked.pieces.rewrite blocked.ok (.bucket c (k / bktSlot))
      (setSlot (T.bytes (.bucket c (k / bktSlot))) (k % bktSlot) e) there (by
        rw [update_of_ne other, Table.bytes, setSlot_bucketBytes (Nat.mod_lt _ (by decide)), length_bucketBytes, length_bucketBytes])
    rw [update_of_ne other] at ok pieces
    exact ⟨ok, rfl, pieces⟩
  · refine ⟨blocked.ok, rfl, ?_⟩
    have kept : update (update T.bytes (.block c t) block) (.bucket c (k / bktSlot))
        (setSlot (T.bytes (.bucket c (k / bktSlot))) (k % bktSlot) e) = update T.bytes (.block c t) block :=
      update_eq_self_iff.mpr (by rw [setSlot_same e same, update_of_ne other])
    rw [kept]
    exact blocked.pieces

/-- The entry and the bytes are written. -/
theorem Blocked.put {g h' : Heap} {block : List UInt8} (layout : Layout htables T h) (blocked : Blocked htables T c t a block g)
    (target : Target T c t k) (table : c.1 < htables.length) (chain : c.2 < nbkt) (inside : k / bktSlot < T.len c)
    (small : t.toNat < 2 ^ 11) (some_bytes : 0 < kvp.length) (short : kvp.length < 2 ^ 20) (enough : kvp.length ≤ block.length)
    (written : h' = g.write (T.addr (.bucket c (k / bktSlot)))
        (setSlot (T.bytes (.bucket c (k / bktSlot))) (k % bktSlot) (.update t (UInt32.ofNat kvp.length) (UInt64.ofNat a))) ∨
      h' = g ∧ T.entryAt c k = .update t (UInt32.ofNat kvp.length) (UInt64.ofNat a)) :
    Layout htables (T.put c t k a kvp (block.drop kvp.length)) (h'.write a kvp) := by
  obtain ⟨ok, live, pieces⟩ := blocked.entry table chain inside _ written
  have other : Loc.block c t ≠ .bucket c (k / bktSlot) := nofun
  obtain ⟨ok', pieces'⟩ := pieces.write ok (.block c t) kvp (Set.mem_insert ..) (by
    rwa [update_of_ne other, update_self])
  rw [update_self] at ok' pieces'
  rw [update_of_ne other, update_self] at pieces'
  have alive : { x | (T.put c t k a kvp (block.drop kvp.length)).Alive htables.length x } =
      insert (.block c t) { x | T.Alive htables.length x } := by
    ext x
    cases x with
    | bucket c' n => exact (or_iff_right nofun).symm
    | block c' t' =>
      refine (Table.mem_put target).trans (or_congr_left ?_)
      rw [Option.some.injEq, Loc.block.injEq]
  have tags : ∀ c' t', some t' ∈ (T.put c t k a kvp (block.drop kvp.length)).used c' → Loc.block c' t' ≠ .block c t → some t' ∈ T.used c' := by
    intro c' t' used different
    rcases (Table.mem_put target).mp used with ⟨rfl, same⟩ | old
    · exact absurd (by rw [Option.some.inj same]) different
    · exact old
  exact
    { ok := ok'
      filled := by
        show ∀ r ∈ h'.live, 0 < r.len
        rw [live]
        exact blocked.filled
      pieces := by
        rw [alive]
        refine pieces'.congr fun x _ => ⟨rfl, ?_⟩
        cases x with
        | bucket c' n =>
          rw [layout.put_bucket target, update_of_ne (show Loc.bucket c' n ≠ .block c t from nofun)]
          by_cases here : c' = c ∧ n = k / bktSlot
          · obtain ⟨rfl, rfl⟩ := here
            rw [if_pos ⟨rfl, rfl⟩, update_self]
          · rw [if_neg here, update_of_ne fun same => here (Loc.bucket.inj same),
              update_of_ne (show Loc.bucket c' n ≠ .block c t from nofun)]
        | block c' t' =>
          by_cases same : Loc.block c' t' = .block c t
          · obtain ⟨rfl, rfl⟩ := Loc.block.inj same
            rw [Table.put_bytes_self, update_self]
          · rw [Table.put_bytes_other same, update_of_ne same,
              update_of_ne (show Loc.block c' t' ≠ .bucket c (k / bktSlot) from nofun), update_of_ne same]
      start := fun c' chain' table' found => by
        rw [Table.put_addr_other (show Loc.bucket c' 0 ≠ .block c t from nofun)]
        exact layout.start c' chain' table' found
      some_bucket := layout.some_bucket
      room := fun c' => by
        by_cases same : c' = c
        · subst same
          have bound := length_place_le target.upto (some t)
          have old := layout.room c'
          have new : k + 1 ≤ T.len c' * bktSlot := (Nat.div_lt_iff_lt_mul (by decide)).mp inside
          rw [Table.put_used_self]
          show _ ≤ T.len c' * bktSlot
          omega
        · rw [Table.put_used_other same]
          exact layout.room c'
      valid := fun c' nonempty => by
        by_cases same : c' = c
        · exact same ▸ ⟨table, chain⟩
        · rw [Table.put_used_other same] at nonempty
          exact layout.valid c' nonempty
      once := fun c' i j t' first second => by
        by_cases same : c' = c
        · subst same
          rw [Table.put_cell target] at first second
          split at first <;> split at second
          · omega
          · rcases target with cell | ⟨absent, _⟩
            · rw [Option.some.inj (Option.some.inj first)] at cell
              have := layout.once c' _ _ t' second cell
              omega
            · rw [Option.some.inj (Option.some.inj first)] at absent
              exact absurd (List.mem_of_getElem? second) absent
          · rcases target with cell | ⟨absent, _⟩
            · rw [Option.some.inj (Option.some.inj second)] at cell
              have := layout.once c' _ _ t' first cell
              omega
            · rw [Option.some.inj (Option.some.inj second)] at absent
              exact absurd (List.mem_of_getElem? first) absent
          · exact layout.once c' i j t' first second
        · rw [Table.put_used_other same] at first second
          exact layout.once c' i j t' first second
      small := fun c' t' used => by
        by_cases same : Loc.block c' t' = .block c t
        · exact (Loc.block.inj same).2 ▸ small
        · exact layout.small c' t' (tags c' t' used same)
      short := fun c' t' used => by
        by_cases same : Loc.block c' t' = .block c t
        · obtain ⟨rfl, rfl⟩ := Loc.block.inj same
          rw [Table.put_kv_self]
          exact ⟨some_bytes, short⟩
        · rw [Table.put_kv_other fun both => same (by rw [both.1, both.2])]
          exact layout.short c' t' (tags c' t' used same)
      region := fun c' t' used => by
        show _ ∈ h'.live
        rw [live]
        by_cases same : Loc.block c' t' = .block c t
        · obtain ⟨rfl, rfl⟩ := Loc.block.inj same
          have length : (kvp ++ block.drop kvp.length).length = block.length := by
            rw [List.length_append, List.length_drop]
            omega
          rw [Table.put_addr_self, Table.put_bytes_self, length]
          exact blocked.region
        · rw [Table.put_addr_other same, Table.put_bytes_other same]
          exact blocked.others c' t' (tags c' t' used same) same }

end After

/-! ## Whole calls -/

/-- The bytes that are stored under a tag of a chain. -/
def Table.value (T : Table) (c : ChainId) (t : UInt32) : Option (List UInt8) := if some t ∈ T.used c then some (T.kv c t) else none

theorem tag_lt (key : UInt64) : (tag key).toNat < 2 ^ 11 := by
  rw [tag, UInt64.toNat_toUInt32, UInt64.toNat_and]
  exact Nat.lt_of_le_of_lt (Nat.mod_le ..) (Nat.lt_of_le_of_lt Nat.and_le_right (by decide))

theorem length_kvBytes (key value : List UInt8) : (kvBytes key value).length = 8 + key.length + value.length := by
  simp only [kvBytes, List.length_append, length_bytesOf]

theorem ofKvBytes_kvBytes {key value : List UInt8} (short : key.length < 2 ^ 32) (short' : value.length < 2 ^ 32) :
    ofKvBytes (kvBytes key value) = (key, value) := by
  have first : (bytesOf 4 key.length ++ bytesOf 4 value.length).length = 8 := by simp
  have klen : valueOf ((kvBytes key value).take 4) = key.length := by
    rw [kvBytes, List.append_assoc, List.append_assoc, List.take_left' (length_bytesOf ..), valueOf_bytesOf short]
  have vlen : valueOf (((kvBytes key value).drop 4).take 4) = value.length := by
    rw [kvBytes, List.append_assoc, List.append_assoc, List.drop_left' (length_bytesOf ..), List.take_left' (length_bytesOf ..),
      valueOf_bytesOf short']
  rw [ofKvBytes, klen, vlen, ← List.drop_drop, kvBytes, List.append_assoc, List.drop_left' first, List.take_left' rfl, List.drop_left' rfl,
    List.take_length]

/-- A table in which one key was put. -/
structure Puts (T T' : Table) (c : ChainId) (t : UInt32) (kvp : List UInt8) : Prop where
  value : ∀ c' t', T'.value c' t' = if c' = c ∧ t' = t then some kvp else T.value c' t'
  removed : ∀ c', none ∈ T'.used c' → none ∈ T.used c'
  tags : ∀ c' t', some t' ∈ T'.used c' → t' = t ∨ some t' ∈ T.used c'
  len : ∀ c', T'.len c' ≤ T.len c' + 1

theorem SameCells.value {T T' : Table} (same : SameCells T T') (c : ChainId) (t : UInt32) : T'.value c t = T.value c t := by
  rw [Table.value, Table.value, same.used, same.kv]

theorem SameCells.puts {T₀ T : Table} {c : ChainId} {t : UInt32} {k a : Nat} {kvp spare : List UInt8} (cells : SameCells T₀ T)
    (target : Target T c t k) : Puts T₀ (T.put c t k a kvp spare) c t kvp where
  value c' t' := by
    rw [← cells.value, Table.value, Table.value]
    by_cases same : c' = c ∧ t' = t
    · obtain ⟨rfl, rfl⟩ := same
      rw [if_pos ((Table.mem_put target).mpr (Or.inl ⟨rfl, rfl⟩)), if_pos ⟨rfl, rfl⟩, Table.put_kv_self]
    · rw [if_neg same, Table.put_kv_other same]
      refine if_congr ((Table.mem_put target).trans (or_iff_right ?_)) rfl rfl
      exact fun both => same ⟨both.1, Option.some.inj both.2⟩
  removed c' member := by
    rcases (Table.mem_put target).mp member with ⟨_, same⟩ | old
    · cases same
    · exact cells.used ▸ old
  tags c' t' member := by
    rcases (Table.mem_put target).mp member with ⟨_, same⟩ | old
    · exact Or.inl (Option.some.inj same)
    · exact Or.inr (cells.used ▸ old)
  len := cells.len

namespace Layout

variable {htables : List Nat} {T : Table} {m : Mem} {supply : Supply} {stoull : List UInt8 → UInt64} {fuel : Nat} {key value : List UInt8}

/-- The rest of `put` once the entry is found. -/
theorem put_found {b a pos : Nat} {bkt : List UInt8} {m₁ : Mem} (address : getBktAddr htables (stoull key) = .ok b)
    (found : putFind supply (tag (stoull key)) fuel b m = .ok (a, bkt, pos, m₁)) :
    Dht.put supply stoull htables fuel key value m =
      match putBlock supply (slot bkt pos) (kvBytes key value).length m₁ with
      | .error e => .error e
      | .ok (addr, m₂) => .ok ((kvBytes key value).length,
          ((if (slot bkt pos).parse.2.1.toNat ≠ (kvBytes key value).length then
              m₂.write a (setSlot bkt pos (.update (tag (stoull key)) (UInt32.ofNat (kvBytes key value).length) (UInt64.ofNat addr)))
            else m₂).write addr (kvBytes key value)).unLock a) := by
  simp only [Dht.put, address, found, bind, Except.bind]
  cases putBlock supply (slot bkt pos) (kvBytes key value).length m₁ with
  | error e => rfl
  | ok x => rfl

/-- `put` stores the key and the value, or there is no memory. -/
theorem put (supply : Supply) (layout : Layout htables T m.heap) (some_table : htables ≠ []) (short : key.length ≤ 1024)
    (short' : value.length ≤ 16384) (clean : none ∈ T.used (chainOf htables (stoull key)) → tag (stoull key) ≠ 0)
    (enough : T.len (chainOf htables (stoull key)) < fuel) :
    Dht.put supply stoull htables fuel key value m = .error .memory ∨
      ∃ T' h', Dht.put supply stoull htables fuel key value m = .ok ((kvBytes key value).length, { m with heap := h' }) ∧
        Layout htables T' h' ∧ Puts T T' (chainOf htables (stoull key)) (tag (stoull key)) (kvBytes key value) := by
  obtain ⟨table, chain⟩ := chainOf_valid (stoull key) some_table
  have address := layout.getBktAddr_eq (stoull key) some_table
  have length := length_kvBytes key value
  obtain ⟨k, target⟩ := exists_target T (chainOf htables (stoull key)) (tag (stoull key))
  rcases layout.putFind_spec table chain clean target supply enough with failed | ⟨T', h₁, found, layout', same, inside⟩
  · left
    simp only [Dht.put, address, failed, bind, Except.bind]
  · have target' : Target T' (chainOf htables (stoull key)) (tag (stoull key)) k := by
      rw [Target, same.used]
      exact target
    rw [put_found address found, slot_entryAt]
    rcases putBlock_spec (m := { m with heap := h₁ }.lock _) supply (kvBytes key value).length layout' target' (by omega)
      with failed | ⟨a, block, h₂, made, enough', blocked, again⟩
    · left
      rw [failed]
    · right
      rw [made]
      have done : ∀ h₃, (h₃ = h₂.write (T'.addr (.bucket (chainOf htables (stoull key)) (k / bktSlot)))
            (setSlot (T'.bytes (.bucket (chainOf htables (stoull key)) (k / bktSlot))) (k % bktSlot)
              (.update (tag (stoull key)) (UInt32.ofNat (kvBytes key value).length) (UInt64.ofNat a))) ∨
          h₃ = h₂ ∧ T'.entryAt (chainOf htables (stoull key)) k =
            .update (tag (stoull key)) (UInt32.ofNat (kvBytes key value).length) (UInt64.ofNat a)) →
          Layout htables (T'.put (chainOf htables (stoull key)) (tag (stoull key)) k a (kvBytes key value)
            (block.drop (kvBytes key value).length)) (h₃.write a (kvBytes key value)) := fun h₃ written =>
        blocked.put layout' target' table chain inside (tag_lt _) (by omega) (by omega) enough' written
      by_cases equal : (T'.entryAt (chainOf htables (stoull key)) k).parse.2.1.toNat = (kvBytes key value).length
      · refine ⟨_, _, ?_, done h₂ (Or.inr ⟨rfl, again equal⟩), same.puts target'⟩
        simp only [equal, ne_eq, not_true, if_false]
        show Except.ok (_, Mem.mk _ (List.erase (_ :: m.locked) _)) = _
        rw [List.erase_cons_head]
        rfl
      · refine ⟨_, _, ?_, done _ (Or.inl rfl), same.puts target'⟩
        simp only [ne_eq, equal, not_false_iff, if_true]
        show Except.ok (_, Mem.mk _ (List.erase (_ :: m.locked) _)) = _
        rw [List.erase_cons_head]
        rfl

end Layout

end Gam.Dht
