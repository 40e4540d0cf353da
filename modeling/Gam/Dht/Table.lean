import Gam.Dht.Entries
import Gam.Pieces

/-!
# The table in memory

Each chain of buckets has a list of cells in use, in the order of the entries: a tag with its block, or
an entry that was removed. `Layout` says how a `Table` of such chains lies in global memory.
-/

namespace Gam.Dht

/-- The number of buckets of a table, `NBKT`. -/
def nbkt : Nat := 2 ^ 24

/-- A chain of buckets: the number of its table and of its first bucket there. -/
abbrev ChainId := Nat × Nat

inductive Loc where
  | bucket (c : ChainId) (n : Nat)
  | block (c : ChainId) (t : UInt32)
deriving DecidableEq

/-- The cells of each chain, with `none` for a removed entry, the number of its buckets, the bytes that
were put under each tag, and what is left behind them in their block. -/
structure Table where
  used : ChainId → List (Option UInt32)
  len : ChainId → Nat
  kv : ChainId → UInt32 → List UInt8
  spare : ChainId → UInt32 → List UInt8
  addr : Loc → Nat

namespace Table

variable (T : Table)

/-- The entry of a cell. -/
def cellEntry (c : ChainId) : Option (Option UInt32) → Entry
  | none => .empty
  | some none => .removed
  | some (some t) => .update t (UInt32.ofNat (T.kv c t).length) (UInt64.ofNat (T.addr (.block c t)))

/-- Entry `k` of a chain. -/
def entryAt (c : ChainId) (k : Nat) : Entry := T.cellEntry c (T.used c)[k]?

def nextOf (c : ChainId) (n : Nat) : Nat := if n + 1 < T.len c then T.addr (.bucket c (n + 1)) else 0

def bytes : Loc → List UInt8
  | .bucket c n => bucketBytes (fun pos => T.entryAt c (n * bktSlot + pos)) (T.nextOf c n)
  | .block c t => T.kv c t ++ T.spare c t

def Alive (count : Nat) : Loc → Prop
  | .bucket c n => c.1 < count ∧ c.2 < nbkt ∧ n < T.len c
  | .block c t => some t ∈ T.used c

end Table

/-- A table of the given hash tables in a heap. -/
structure Layout (htables : List Nat) (T : Table) (h : Heap) : Prop where
  ok : h.Ok
  filled : ∀ r ∈ h.live, 0 < r.len
  pieces : Pieces h { x | T.Alive htables.length x } T.addr T.bytes
  start : ∀ c, c.2 < nbkt → ∀ table, htables[c.1]? = some table → T.addr (.bucket c 0) = table + bktSize * c.2
  some_bucket : ∀ c, 0 < T.len c
  room : ∀ c, (T.used c).length ≤ T.len c * bktSlot
  valid : ∀ c, T.used c ≠ [] → c.1 < htables.length ∧ c.2 < nbkt
  once : ∀ c (i j : Nat) t, (T.used c)[i]? = some (some t) → (T.used c)[j]? = some (some t) → i = j
  small : ∀ c t, some t ∈ T.used c → t.toNat < 2 ^ 11
  short : ∀ c t, some t ∈ T.used c → 0 < (T.kv c t).length ∧ (T.kv c t).length < 2 ^ 20
  region : ∀ c t, some t ∈ T.used c → ⟨T.addr (.block c t), (T.bytes (.block c t)).length⟩ ∈ h.live

/-- The chain of a key. -/
def chainOf (htables : List Nat) (key : UInt64) : ChainId := (tbl key % htables.length % 2 ^ 16, bucket key)

theorem bucket_lt (key : UInt64) : bucket key < nbkt := by
  rw [bucket, UInt64.toNat_and]
  exact Nat.lt_of_le_of_lt Nat.and_le_right (by decide)

theorem chainOf_valid {htables : List Nat} (key : UInt64) (some_table : htables ≠ []) :
    (chainOf htables key).1 < htables.length ∧ (chainOf htables key).2 < nbkt := by
  have positive := List.length_pos_iff.mpr some_table
  exact ⟨Nat.lt_of_le_of_lt (Nat.mod_le ..) (Nat.mod_lt _ positive), bucket_lt key⟩

namespace Layout

variable {htables : List Nat} {T : Table} {h : Heap} {c : ChainId} {n k : Nat} {t t' : UInt32}

section
variable (layout : Layout htables T h)
include layout

theorem bytes_ne_nil {x : Loc} (alive : T.Alive htables.length x) : T.bytes x ≠ [] := by
  apply List.length_pos_iff.mp
  cases x with
  | bucket c n => exact length_bucketBytes.symm ▸ (by decide : 0 < bktSize)
  | block c t =>
    rw [Table.bytes, List.length_append]
    have := (layout.short c t alive).1
    omega

theorem addr_block (used : some t ∈ T.used c) : T.addr (.block c t) ≠ 0 ∧ T.addr (.block c t) < 2 ^ 64 := by
  have alive : T.Alive htables.length (.block c t) := used
  exact layout.pieces.placed layout.ok alive (layout.bytes_ne_nil alive)

theorem addr_bucket (table : c.1 < htables.length) (chain : c.2 < nbkt) (below : n < T.len c) :
    T.addr (.bucket c n) ≠ 0 ∧ T.addr (.bucket c n) < 2 ^ 64 := by
  have alive : T.Alive htables.length (.bucket c n) := ⟨table, chain, below⟩
  exact layout.pieces.placed layout.ok alive (layout.bytes_ne_nil alive)

/-- What is in an entry that is in use. -/
theorem cell_fits (used : some t ∈ T.used c) : t.toNat < 2 ^ 11 ∧ (UInt32.ofNat (T.kv c t).length).toNat < 2 ^ 20 := by
  have short := (layout.short c t used).2
  refine ⟨layout.small c t used, ?_⟩
  rw [UInt32.toNat_ofNat', Nat.mod_eq_of_lt (by omega)]
  exact short

/-- An entry is empty behind the cells in use only. -/
theorem containTag_entryAt (c : ChainId) (k : Nat) : (T.entryAt c k).containTag = decide (k < (T.used c).length) := by
  rw [Table.entryAt]
  cases cell : (T.used c)[k]? with
  | none => rw [decide_eq_false (Nat.not_lt.mpr (List.getElem?_eq_none_iff.mp cell))]; rfl
  | some x =>
    rw [decide_eq_true (List.getElem?_eq_some_iff.mp cell).1]
    cases x with
    | none => rfl
    | some t =>
      obtain ⟨small, short⟩ := layout.cell_fits (List.mem_of_getElem? cell)
      exact Entry.containTag_update _ small short

/-- An entry matches the tag of its cell; a removed one has the tag zero. -/
theorem matchTag_entryAt (clean : none ∈ T.used c → t ≠ 0) (k : Nat) :
    (T.entryAt c k).matchTag t = decide ((T.used c)[k]? = some (some t)) := by
  rw [Table.entryAt]
  cases cell : (T.used c)[k]? with
  | none => rfl
  | some x =>
    cases x with
    | none =>
      have other := clean (List.mem_of_getElem? cell)
      have zero : Entry.removed.matchTag t = decide (t = 0) := Entry.matchTag_update 0 (by decide) (by decide)
      rw [decide_eq_false other] at zero
      exact zero
    | some t' =>
      obtain ⟨small, short⟩ := layout.cell_fits (List.mem_of_getElem? cell)
      rw [Table.cellEntry, Entry.matchTag_update _ small short]
      simp [eq_comm]

theorem read_bucket (table : c.1 < htables.length) (chain : c.2 < nbkt) (below : n < T.len c) :
    h.mem.load (T.addr (.bucket c n)) bktSize = T.bytes (.bucket c n) := by
  have content := layout.pieces.content (.bucket c n) ⟨table, chain, below⟩
  rwa [Table.bytes, length_bucketBytes] at content

theorem next_bucket (table : c.1 < htables.length) (chain : c.2 < nbkt) (n : Nat) :
    next (T.bytes (.bucket c n)) = T.nextOf c n := by
  refine next_bucketBytes ?_
  unfold Table.nextOf
  split
  · next more => exact (layout.addr_bucket table chain more).2
  · exact Nat.two_pow_pos 64

/-- A cell lies in one of the buckets. -/
theorem bucket_of_cell (cell : (T.used c)[k]? = some (some t)) : k / bktSlot < T.len c := by
  have used := (List.getElem?_eq_some_iff.mp cell).1
  have room := layout.room c
  rw [Nat.div_lt_iff_lt_mul (by decide)]
  omega

/-- The address of the first bucket of the chain of a key. -/
theorem getBktAddr_eq (key : UInt64) (some_table : htables ≠ []) :
    getBktAddr htables key = .ok (T.addr (.bucket (chainOf htables key) 0)) := by
  obtain ⟨table, chain⟩ := chainOf_valid key some_table
  have found : htables[(chainOf htables key).1]? = some (htables.get ⟨_, table⟩) := List.getElem?_eq_getElem table
  rw [layout.start _ chain _ found]
  unfold getBktAddr
  simp only [chainOf] at found ⊢
  rw [found]

end

/-- Entry `k` of a chain in its bucket. -/
theorem slot_entryAt (T : Table) (c : ChainId) (k : Nat) : slot (T.bytes (.bucket c (k / bktSlot))) (k % bktSlot) = T.entryAt c k := by
  rw [Table.bytes, slot_bucketBytes (Nat.mod_lt _ (by decide)), Nat.mul_comm, Nat.div_add_mod]

/-! ## The loop of `get` -/

@[simp] theorem unLock_lock (m : Mem) (a : Nat) : (m.lock a).unLock a = m := by
  rw [Mem.unLock, Mem.lock, List.erase_cons_head]

/-- One turn of the loop of `get`. -/
theorem getFind_succ {m : Mem} {a fuel : Nat} {bkt : List UInt8} (read : m.heap.mem.load a bktSize = bkt) :
    getFind t (fuel + 1) a m =
      if scan (fun e => e.matchTag t) bkt < bktSlot then .ok (a, bkt, scan (fun e => e.matchTag t) bkt, m.lock a)
      else if next bkt = 0 then .ok (a, bkt, scan (fun e => e.matchTag t) bkt, m.lock a)
      else getFind t fuel (next bkt) m := by
  have read' : (m.lock a).read a bktSize = bkt := read
  rw [getFind]
  simp only [read', unLock_lock]

section Find

variable {m : Mem} {fuel : Nat} (layout : Layout htables T m.heap) (table : c.1 < htables.length) (chain : c.2 < nbkt)
  (clean : none ∈ T.used c → t ≠ 0)
include layout clean

theorem match_slot {i : Nat} (inside : i < bktSlot) :
    (slot (T.bytes (.bucket c n)) i).matchTag t = decide ((T.used c)[n * bktSlot + i]? = some (some t)) := by
  rw [Table.bytes, slot_bucketBytes inside, layout.matchTag_entryAt clean]

/-- Where the entry with the tag is. -/
theorem scan_match (cell : (T.used c)[k]? = some (some t)) :
    scan (fun e => e.matchTag t) (T.bytes (.bucket c n)) = if n = k / bktSlot then k % bktSlot else bktSlot := by
  have parts := Nat.div_add_mod k bktSlot
  have small : k % bktSlot < bktSlot := Nat.mod_lt _ (by decide)
  have elsewhere : ∀ i, n * bktSlot + i ≠ k → i < bktSlot → (slot (T.bytes (.bucket c n)) i).matchTag t = false := by
    intro i other inside
    rw [layout.match_slot clean inside]
    exact decide_eq_false fun same => other (layout.once c _ _ t same cell)
  by_cases here : n = k / bktSlot
  · rw [if_pos here]
    have place : n * bktSlot + k % bktSlot = k := by rw [here, Nat.mul_comm]; exact parts
    refine scan_found small ?_ fun i before => elsewhere i (by omega) (by omega)
    rw [layout.match_slot clean small, place]
    exact decide_eq_true cell
  · rw [if_neg here]
    refine scan_none fun i inside => elsewhere i (fun same => here ?_) inside
    rw [← same, Nat.mul_comm, Nat.mul_add_div (by decide), Nat.div_eq_of_lt inside, Nat.add_zero]

theorem scan_absent (absent : some t ∉ T.used c) : scan (fun e => e.matchTag t) (T.bytes (.bucket c n)) = bktSlot := by
  refine scan_none fun i inside => ?_
  rw [layout.match_slot clean inside]
  exact decide_eq_false fun same => absent (List.mem_of_getElem? same)

include table chain

/-- An entry with the tag is found. -/
theorem getFind_found (cell : (T.used c)[k]? = some (some t)) (from_here : n ≤ k / bktSlot) (enough : k / bktSlot < n + fuel) :
    getFind t fuel (T.addr (.bucket c n)) m = .ok (T.addr (.bucket c (k / bktSlot)), T.bytes (.bucket c (k / bktSlot)),
      k % bktSlot, m.lock (T.addr (.bucket c (k / bktSlot)))) := by
  have inside := layout.bucket_of_cell cell
  induction fuel generalizing n with
  | zero => omega
  | succ fuel ih =>
    have found := layout.scan_match clean (n := n) cell
    rw [getFind_succ (layout.read_bucket table chain (Nat.lt_of_le_of_lt from_here inside)), found]
    by_cases here : n = k / bktSlot
    · rw [if_pos here, if_pos (Nat.mod_lt _ (by decide)), here]
    · have more : n + 1 < T.len c := by omega
      rw [if_neg here, if_neg (Nat.lt_irrefl _), layout.next_bucket table chain, Table.nextOf, if_pos more,
        if_neg (layout.addr_bucket table chain more).1]
      exact ih (by omega) (by omega)

/-- Without such an entry the loop ends in the last bucket. -/
theorem getFind_none (absent : some t ∉ T.used c) (below : n < T.len c) (enough : T.len c ≤ n + fuel) :
    ∃ last bkt, getFind t fuel (T.addr (.bucket c n)) m = .ok (last, bkt, bktSlot, m.lock last) := by
  induction fuel generalizing n with
  | zero => omega
  | succ fuel ih =>
    rw [getFind_succ (layout.read_bucket table chain below), layout.scan_absent clean absent, if_neg (Nat.lt_irrefl _),
      layout.next_bucket table chain, Table.nextOf]
    by_cases more : n + 1 < T.len c
    · rw [if_pos more, if_neg (layout.addr_bucket table chain more).1]
      exact ih more (by omega)
    · rw [if_neg more, if_pos rfl]
      exact ⟨_, _, rfl⟩

end Find

end Layout

end Gam.Dht
