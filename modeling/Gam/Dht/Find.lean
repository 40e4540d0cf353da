import Gam.Dht.Table

/-!
# The loop of `put`

It stops at the entry with the tag or at the first empty entry, and adds a bucket to a chain that is full.
-/

namespace Gam.Dht

open Function

open Heap (Stop)

/-- Where `put` writes the entry of a tag: where it is, or behind the cells in use. -/
def Target (T : Table) (c : ChainId) (t : UInt32) (k : Nat) : Prop :=
  (T.used c)[k]? = some (some t) ∨ some t ∉ T.used c ∧ k = (T.used c).length

theorem exists_target (T : Table) (c : ChainId) (t : UInt32) : ∃ k, Target T c t k := by
  by_cases used : some t ∈ T.used c
  · obtain ⟨k, cell⟩ := List.mem_iff_getElem?.mp used
    exact ⟨k, Or.inl cell⟩
  · exact ⟨_, Or.inr ⟨used, rfl⟩⟩

/-- What one table has in common with another when only the buckets differ, of which there may be one more. -/
structure SameCells (T T' : Table) : Prop where
  len : ∀ c, T'.len c ≤ T.len c + 1
  used : T'.used = T.used
  kv : T'.kv = T.kv
  spare : T'.spare = T.spare
  addr : ∀ c t, T'.addr (.block c t) = T.addr (.block c t)

theorem SameCells.entryAt {T T' : Table} (same : SameCells T T') : T'.entryAt = T.entryAt := by
  funext c k
  rw [Table.entryAt, Table.entryAt, same.used]
  cases (T.used c)[k]? with
  | none => rfl
  | some x =>
    cases x with
    | none => rfl
    | some t => rw [Table.cellEntry, Table.cellEntry, same.kv, same.addr]

namespace Table

/-- A chain with one more bucket. -/
def extend (T : Table) (c : ChainId) (a : Nat) : Table :=
  { T with
    len := update T.len c (T.len c + 1)
    addr := update T.addr (.bucket c (T.len c)) a }

variable {T : Table} {c : ChainId} {a : Nat}

theorem extend_len_self : (T.extend c a).len c = T.len c + 1 := update_self ..

theorem extend_len_of_ne {c' : ChainId} (other : c' ≠ c) : (T.extend c a).len c' = T.len c' := update_of_ne other ..

theorem extend_same : SameCells T (T.extend c a) := by
  refine ⟨fun c' => ?_, rfl, rfl, rfl, fun c' t => update_of_ne (show Loc.block c' t ≠ .bucket c (T.len c) from nofun) a T.addr⟩
  by_cases same : c' = c
  · rw [same, extend_len_self]
  · rw [extend_len_of_ne same]
    exact Nat.le_succ _

theorem extend_addr_of_ne {x : Loc} (other : x ≠ .bucket c (T.len c)) : (T.extend c a).addr x = T.addr x :=
  update_of_ne other ..

theorem extend_nextOf {c' : ChainId} {n : Nat} (below : n < T.len c') (other : ¬(c' = c ∧ n + 1 = T.len c)) :
    (T.extend c a).nextOf c' n = T.nextOf c' n := by
  rw [nextOf, nextOf]
  by_cases same : c' = c
  · subst same
    have more : n + 1 < T.len c' := Nat.lt_of_le_of_ne below fun last => other ⟨rfl, last⟩
    rw [extend_len_self, if_pos (by omega), if_pos more, extend_addr_of_ne]
    intro equal
    have := (Loc.bucket.inj equal).2
    omega
  · rw [extend_len_of_ne same, extend_addr_of_ne]
    intro equal
    exact same (Loc.bucket.inj equal).1

theorem extend_nextOf_last {n : Nat} (last : n + 1 = T.len c) : (T.extend c a).nextOf c n = a := by
  rw [nextOf, extend_len_self, if_pos (by omega), last]
  exact update_self ..

theorem extend_nextOf_new : (T.extend c a).nextOf c (T.len c) = 0 := by
  rw [nextOf, extend_len_self, if_neg (by omega)]

theorem alive_extend {count : Nat} (table : c.1 < count) (chain : c.2 < nbkt) :
    { x | (T.extend c a).Alive count x } = insert (.bucket c (T.len c)) { x | T.Alive count x } := by
  ext x
  cases x with
  | block c' t => simp [Alive, extend]
  | bucket c' n =>
    by_cases same : c' = c
    · subst same
      simp only [Alive, extend, Set.mem_ofPred_eq, Set.mem_insert_iff, update_self, Loc.bucket.injEq, true_and, table, chain]
      omega
    · simp [Alive, extend, same]

end Table

namespace Layout

variable {htables : List Nat} {T : Table} {h : Heap} {c : ChainId} {n k : Nat} {t : UInt32} {supply : Supply}

/-- A zero bucket is hung behind the last one of a chain. -/
theorem extend (layout : Layout htables T h) (table : c.1 < htables.length) (chain : c.2 < nbkt) (last : n + 1 = T.len c)
    (sound : (h.alloc supply bktSize).2.sound = true) : Layout htables (T.extend c (h.alloc supply bktSize).1)
      (((h.alloc supply bktSize).2.write (h.alloc supply bktSize).1 (List.replicate bktSize 0)).write (T.addr (.bucket c n))
        (setNext (T.bytes (.bucket c n)) (h.alloc supply bktSize).1)) := by
  have size : (List.replicate bktSize (0 : UInt8)).length = bktSize := List.length_replicate
  have absent : Loc.bucket c (T.len c) ∉ { x | T.Alive htables.length x } := fun alive => Nat.lt_irrefl _ alive.2.2
  obtain ⟨ok, created⟩ := layout.pieces.create layout.ok (.bucket c (T.len c)) (List.replicate bktSize 0) absent (by rwa [size])
  rw [size] at ok created
  set a := (h.alloc supply bktSize).1
  set g := (h.alloc supply bktSize).2.write a (List.replicate bktSize 0)
  have old : Loc.bucket c n ≠ .bucket c (T.len c) := fun same => by
    have := (Loc.bucket.inj same).2
    omega
  have here : Loc.bucket c n ∈ insert (Loc.bucket c (T.len c)) { x | T.Alive htables.length x } :=
    Or.inr ⟨table, chain, by omega⟩
  obtain ⟨ok', written⟩ := created.rewrite ok (.bucket c n) (setNext (T.bytes (.bucket c n)) a) here (by
    rw [update_of_ne old, Table.bytes, setNext_bucketBytes, length_bucketBytes, length_bucketBytes])
  rw [update_of_ne old] at ok' written
  have content : ∀ x ∈ { x | (T.extend c a).Alive htables.length x },
      (T.extend c a).addr x = update T.addr (.bucket c (T.len c)) a x ∧
      (T.extend c a).bytes x = update (update T.bytes (.bucket c (T.len c)) (List.replicate bktSize 0))
        (.bucket c n) (setNext (T.bytes (.bucket c n)) a) x := by
    intro x alive
    refine ⟨rfl, ?_⟩
    cases x with
    | block c' t =>
      have blocks : ∀ n', Loc.block c' t ≠ .bucket c n' := by simp
      rw [update_of_ne (blocks n), update_of_ne (blocks (T.len c))]
      rfl
    | bucket c' n' =>
      rw [Table.bytes, Table.extend_same.entryAt]
      by_cases first : Loc.bucket c' n' = .bucket c n
      · obtain ⟨rfl, rfl⟩ := Loc.bucket.inj first
        rw [update_self, Table.bytes, setNext_bucketBytes, Table.extend_nextOf_last last]
      · rw [update_of_ne first]
        by_cases second : Loc.bucket c' n' = .bucket c (T.len c)
        · obtain ⟨rfl, rfl⟩ := Loc.bucket.inj second
          rw [update_self, Table.extend_nextOf_new, ← bucketBytes_empty]
          congr 1
          funext pos
          have beyond : (T.used c')[T.len c' * bktSlot + pos]? = none :=
            List.getElem?_eq_none (Nat.le_trans (layout.room c') (Nat.le_add_right ..))
          rw [Table.entryAt, beyond]
          rfl
        · rw [update_of_ne second, Table.bytes, Table.extend_nextOf]
          · have below := alive.2.2
            by_cases same : c' = c
            · subst same
              have other : n' ≠ T.len c' := fun equal => second (by rw [equal])
              rw [Table.extend_len_self] at below
              omega
            · rwa [Table.extend_len_of_ne same] at below
          · rintro ⟨rfl, equal⟩
            exact first (by rw [show n' = n by omega])
  have lens : ∀ c', T.len c' ≤ (T.extend c a).len c' := by
    intro c'
    by_cases same : c' = c
    · rw [same, Table.extend_len_self]
      omega
    · rw [Table.extend_len_of_ne same]
  exact
    { ok := ok'
      filled := by
        rintro r (_ | ⟨_, member⟩)
        · exact (by decide : 0 < bktSize)
        · exact layout.filled r member
      pieces := by
        have alive := T.alive_extend (a := a) table chain
        rw [← alive] at written
        exact written.congr content
      start := fun c' chain' table' found => by
        rw [Table.extend_addr_of_ne]
        · exact layout.start c' chain' table' found
        · intro same
          have := (Loc.bucket.inj same).2
          omega
      some_bucket := fun c' => Nat.lt_of_lt_of_le (layout.some_bucket c') (lens c')
      room := fun c' => Nat.le_trans (layout.room c') (Nat.mul_le_mul_right _ (lens c'))
      valid := layout.valid
      once := layout.once
      small := layout.small
      short := layout.short
      region := fun c' t used => by
        rw [Table.extend_same.addr]
        exact List.mem_cons_of_mem _ (layout.region c' t used) }

/-! ## Where the loop stops -/

section Stops

variable (layout : Layout htables T h) (clean : none ∈ T.used c → t ≠ 0) (target : Target T c t k)
include layout clean target

theorem stops_before {i : Nat} (before : i < k) : ((T.entryAt c i).matchTag t || !(T.entryAt c i).containTag) = false := by
  rw [layout.matchTag_entryAt clean, layout.containTag_entryAt, Bool.or_eq_false_iff, Bool.not_eq_false', decide_eq_true_iff,
    decide_eq_false_iff_not]
  rcases target with cell | ⟨absent, rfl⟩
  · refine ⟨fun same => ?_, Nat.lt_trans before (List.getElem?_eq_some_iff.mp cell).1⟩
    have := layout.once c _ _ t same cell
    omega
  · exact ⟨fun same => absent (List.mem_of_getElem? same), before⟩

theorem stops_there : ((T.entryAt c k).matchTag t || !(T.entryAt c k).containTag) = true := by
  rw [layout.matchTag_entryAt clean, layout.containTag_entryAt]
  rcases target with cell | ⟨absent, rfl⟩
  · rw [decide_eq_true cell, Bool.true_or]
  · rw [decide_eq_false (Nat.lt_irrefl _), Bool.not_false, Bool.or_true]

theorem scan_target (upto : n ≤ k / bktSlot) :
    scan (fun e => e.matchTag t || !e.containTag) (T.bytes (.bucket c n)) = if n = k / bktSlot then k % bktSlot else bktSlot := by
  have parts := Nat.div_add_mod k bktSlot
  have small : k % bktSlot < bktSlot := Nat.mod_lt _ (by decide)
  have before : ∀ i < bktSlot, n * bktSlot + i < k →
      ((slot (T.bytes (.bucket c n)) i).matchTag t || !(slot (T.bytes (.bucket c n)) i).containTag) = false := by
    intro i inside lower
    rw [Table.bytes, slot_bucketBytes inside]
    exact layout.stops_before clean target lower
  by_cases here : n = k / bktSlot
  · have place : n * bktSlot + k % bktSlot = k := by rw [here, Nat.mul_comm]; exact parts
    rw [if_pos here]
    refine scan_found small ?_ fun i lower => before i (by omega) (by omega)
    rw [Table.bytes, slot_bucketBytes small, place]
    exact layout.stops_there clean target
  · rw [if_neg here]
    refine scan_none fun i inside => before i inside ?_
    have later : (n + 1) * bktSlot ≤ k / bktSlot * bktSlot := Nat.mul_le_mul_right _ (by omega)
    rw [Nat.succ_mul] at later
    rw [Nat.mul_comm] at parts
    omega

end Stops

/-! ## The loop -/

/-- One turn of the loop of `put`. -/
theorem putFind_succ {m : Mem} {a fuel : Nat} {bkt : List UInt8} (read : m.heap.mem.load a bktSize = bkt) :
    putFind supply t (fuel + 1) a m = if scan (fun e => e.matchTag t || !e.containTag) bkt < bktSlot then
        .ok (a, bkt, scan (fun e => e.matchTag t || !e.containTag) bkt, m.lock a) else if next bkt = 0 then
        match m.heap.malloc supply bktSize with
        | .error e => .error e
        | .ok (b, g) => putFind supply t fuel b { m with heap := (g.write b (List.replicate bktSize 0)).write a (setNext bkt b) }
      else putFind supply t fuel (next bkt) m := by
  have read' : (m.lock a).read a bktSize = bkt := read
  rw [putFind]
  simp only [read', Mem.malloc]
  split
  · rfl
  · split
    · rw [show (m.lock a).heap = m.heap from rfl]
      cases m.heap.malloc supply bktSize with
      | error e => rfl
      | ok x =>
        obtain ⟨b, g⟩ := x
        show putFind supply t fuel b ⟨_, (a :: m.locked).erase a⟩ = _
        rw [List.erase_cons_head]
        rfl
    · show putFind supply t fuel (next bkt) ((m.lock a).unLock a) = _
      rw [unLock_lock]

section Run

variable {m : Mem} {fuel : Nat} (table : c.1 < htables.length) (chain : c.2 < nbkt) (clean : none ∈ T.used c → t ≠ 0) (target : Target T c t k)
include table chain clean target

/-- The entry lies in a bucket of the chain. -/
theorem putFind_inside (layout : Layout htables T m.heap) (inside : k / bktSlot < T.len c) (upto : n ≤ k / bktSlot)
    (enough : k / bktSlot < n + fuel) :
    putFind supply t fuel (T.addr (.bucket c n)) m = .ok (T.addr (.bucket c (k / bktSlot)), T.bytes (.bucket c (k / bktSlot)),
      k % bktSlot, m.lock (T.addr (.bucket c (k / bktSlot)))) := by
  induction fuel generalizing n with
  | zero => omega
  | succ fuel ih =>
    rw [putFind_succ (layout.read_bucket table chain (Nat.lt_of_le_of_lt upto inside)), layout.scan_target clean target upto]
    by_cases here : n = k / bktSlot
    · rw [if_pos here, if_pos (Nat.mod_lt _ (by decide)), here]
    · have more : n + 1 < T.len c := by omega
      rw [if_neg here, if_neg (Nat.lt_irrefl _), layout.next_bucket table chain, Table.nextOf, if_pos more,
        if_neg (layout.addr_bucket table chain more).1]
      exact ih (by omega) (by omega)

/-- The chain is full: it gets one more bucket. -/
theorem putFind_full (layout : Layout htables T m.heap) (full : k / bktSlot = T.len c) (below : n < T.len c)
    (enough : T.len c < n + fuel) : putFind supply t fuel (T.addr (.bucket c n)) m = .error .memory ∨
      ∃ T' h', putFind supply t fuel (T.addr (.bucket c n)) m = .ok (T'.addr (.bucket c (k / bktSlot)),
          T'.bytes (.bucket c (k / bktSlot)), k % bktSlot, { m with heap := h' }.lock (T'.addr (.bucket c (k / bktSlot)))) ∧
        Layout htables T' h' ∧ SameCells T T' ∧ k / bktSlot < T'.len c := by
  induction fuel generalizing n with
  | zero => omega
  | succ fuel ih =>
    have other : n ≠ k / bktSlot := by omega
    rw [putFind_succ (layout.read_bucket table chain below), layout.scan_target clean target (by omega), if_neg other,
      if_neg (Nat.lt_irrefl _), layout.next_bucket table chain, Table.nextOf]
    by_cases more : n + 1 < T.len c
    · rw [if_pos more, if_neg (layout.addr_bucket table chain more).1]
      exact ih more (by omega)
    · rw [if_neg more, if_pos rfl]
      unfold Heap.malloc
      by_cases sound : (m.heap.alloc supply bktSize).2.sound = true
      · right
        rw [if_pos sound]
        have last : n + 1 = T.len c := by omega
        have layout' := layout.extend table chain last sound
        set a := (m.heap.alloc supply bktSize).1
        have same : SameCells T (T.extend c a) := Table.extend_same
        have inside : k / bktSlot < (T.extend c a).len c := by rw [Table.extend_len_self]; omega
        have new : (T.extend c a).addr (.bucket c (k / bktSlot)) = a := by rw [full]; exact update_self ..
        have target' : Target (T.extend c a) c t k := target
        refine ⟨T.extend c a, _, ?_, layout', same, inside⟩
        have found : putFind supply t fuel ((T.extend c a).addr (.bucket c (k / bktSlot))) { m with heap := _ } = _ :=
          putFind_inside table chain clean target' layout' inside (Nat.le_refl _) (by omega)
        rwa [new] at found ⊢
      · left
        rw [if_neg sound]

/-- The loop ends at the entry for the tag, in a table with the same cells. -/
theorem putFind_spec (supply : Supply) (layout : Layout htables T m.heap) (enough : T.len c < fuel) :
    putFind supply t fuel (T.addr (.bucket c 0)) m = .error .memory ∨
      ∃ T' h', putFind supply t fuel (T.addr (.bucket c 0)) m = .ok (T'.addr (.bucket c (k / bktSlot)),
          T'.bytes (.bucket c (k / bktSlot)), k % bktSlot, { m with heap := h' }.lock (T'.addr (.bucket c (k / bktSlot)))) ∧
        Layout htables T' h' ∧ SameCells T T' ∧ k / bktSlot < T'.len c := by
  by_cases inside : k / bktSlot < T.len c
  · exact Or.inr ⟨T, m.heap, putFind_inside table chain clean target layout inside (Nat.zero_le _) (by omega), layout,
      ⟨fun _ => Nat.le_succ _, rfl, rfl, rfl, fun _ _ => rfl⟩, inside⟩
  · have room := layout.room c
    have upto : k ≤ T.len c * bktSlot := by
      rcases target with cell | ⟨_, rfl⟩
      · have := (List.getElem?_eq_some_iff.mp cell).1
        omega
      · exact room
    have full : k / bktSlot = T.len c :=
      Nat.le_antisymm (Nat.div_le_of_le_mul (by rwa [Nat.mul_comm])) (Nat.le_of_not_lt inside)
    exact putFind_full table chain clean target layout full (layout.some_bucket c) (by omega)

end Run

end Layout

end Gam.Dht
