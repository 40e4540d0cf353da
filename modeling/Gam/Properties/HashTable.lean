import Mathlib
import Gam.Dht.Runs

/-!
# The distributed hash table

`get` finds what was put last under the table, the bucket and the tag of a key. The key itself is stored
with the value but never compared.
-/

namespace Gam.Dht

variable {htables : List Nat} {supply : Supply} {stoull : List UInt8 → UInt64} {m : Mem} {fuel : Nat}

/-! ## Puts -/

/-- The calls of a sequence of puts. -/
def putCalls (puts : List (List UInt8 × List UInt8)) : List Call := puts.map fun p => .put p.1 p.2

/-- The latest put of a key. -/
def latest (stoull : List UInt8 → UInt64) (puts : List (List UInt8 × List UInt8)) (key : UInt64) : Option (List UInt8 × List UInt8) :=
  puts.reverse.find? fun p => stoull p.1 = key

/-- The sizes are within the limits. -/
def WithinLimits (puts : List (List UInt8 × List UInt8)) : Prop := ∀ p ∈ puts, p.1.length ≤ 1024 ∧ p.2.length ≤ 16384

/-- No other key that was put has the table, the bucket and the tag of the key. -/
def Alone (stoull : List UInt8 → UInt64) (htables : List Nat) (puts : List (List UInt8 × List UInt8)) (key : UInt64) : Prop :=
  ∀ p ∈ puts, chainOf htables (stoull p.1) = chainOf htables key → tag (stoull p.1) = tag key → stoull p.1 = key

theorem puts_permitted {puts : List (List UInt8 × List UInt8)} (within : WithinLimits puts) :
    allPermitted supply stoull htables fuel (putCalls puts) m := by
  induction puts generalizing m with
  | nil => rfl
  | cons p puts ih =>
    obtain ⟨short, short'⟩ := within p (List.mem_cons_self ..)
    have rest : WithinLimits puts := fun q member => within q (List.mem_cons_of_mem _ member)
    rw [putCalls, List.map_cons, allPermitted, Call.permitted, decide_eq_true short, decide_eq_true short']
    cases Call.run supply stoull htables fuel (.put p.1 p.2) m with
    | error _ => rfl
    | ok result => exact ih rest

/-- What the puts leave where the key is looked for. -/
theorem storeAll_puts {puts : List (List UInt8 × List UInt8)} {key : UInt64} (alone : Alone stoull htables puts key) (before : Contents) :
    storeAll stoull htables (putCalls puts) before (chainOf htables key) (tag key) =
      (latest stoull puts key).or (before (chainOf htables key) (tag key)) := by
  induction puts generalizing before with
  | nil => rfl
  | cons p puts ih =>
    have later := ih (fun q member => alone q (List.mem_cons_of_mem _ member)) (Call.store stoull htables (.put p.1 p.2) before)
    refine later.trans ?_
    rw [latest, latest, List.reverse_cons, List.find?_append, Option.or_assoc]
    congr 1
    rw [Call.store, List.find?_singleton]
    by_cases same : stoull p.1 = key
    · rw [if_pos ⟨congrArg _ same.symm, congrArg _ same.symm⟩, if_pos (decide_eq_true same)]
      rfl
    · rw [if_neg fun both => same (alone p (List.mem_cons_self ..) both.1.symm both.2.symm), if_neg (by simpa using same)]
      rfl

/-- After any sequence of puts `get` returns the latest put of the key, when no other key that was put has
its table, bucket and tag. -/
theorem get_latest (supply : Supply) (stoull : List UInt8 → UInt64) (some_table : htables ≠ []) (start : Start htables m.heap)
    (puts : List (List UInt8 × List UInt8)) (within : WithinLimits puts) (key : UInt64) (alone : Alone stoull htables puts key)
    (enough : puts.length < fuel) :
    runAll supply stoull htables fuel (putCalls puts) m = .error .memory ∨
      ∃ m', runAll supply stoull htables fuel (putCalls puts) m = .ok m' ∧
        get htables fuel key m' = .ok (answer (latest stoull puts key) m') := by
  have length : (putCalls puts).length = puts.length := List.length_map ..
  have no_del : ∀ key, Call.del key ∈ putCalls puts → False := fun key member => by
    obtain ⟨p, _, made⟩ := List.mem_map.mp member
    cases made
  have short : ∀ c, (Table.start htables).len c + (putCalls puts).length < fuel + 1 := fun c => by
    rw [length]
    show 1 + _ < _
    omega
  have empty : ∀ c, none ∈ (Table.start htables).used c → False := fun c => List.not_mem_nil
  rcases start.stores.run some_table (putCalls puts) (puts_permitted within) empty no_del False.elim short with
    failed | ⟨T, m', done, stores, _, len, clean⟩
  · exact Or.inl failed
  · refine Or.inr ⟨m', done, ?_⟩
    have chain := len (chainOf htables key)
    rw [length, show (Table.start htables).len (chainOf htables key) = 1 from rfl] at chain
    have stored := storeAll_puts alone fun _ _ => none
    rw [Option.or_none] at stored
    rw [stores.get some_table key (fun member => (clean _ member).elim) (by omega), stored]

/-- One table in memory that is zero, with blocks behind it. -/
def oneTable : Mem := { heap := { mem := fun _ => 0, live := [⟨4096, bktSize * nbkt⟩], tick := 0, sound := true, wild := false } }

def blocksBehind : Supply := { place := fun n => 2 ^ 32 + 65536 * n, junk := fun _ _ => 0 }

/-- A decimal number. -/
def decimal (s : List UInt8) : UInt64 := UInt64.ofNat (s.foldl (fun n d => 10 * n + (d.toNat - 48)) 0)

theorem oneTable_start : Start [4096] oneTable.heap where
  ok := ⟨List.pairwise_singleton .., by decide, rfl⟩
  filled r member := by
    obtain rfl := List.mem_singleton.mp member
    decide
  distinct := List.nodup_singleton _
  region table member := by
    obtain rfl := List.mem_singleton.mp member
    exact List.mem_singleton_self _
  zero _ _ _ _ := rfl

theorem get_latest_of_three :
    WithinLimits [([49], [97]), ([50], [98]), ([49], [99])] ∧ Alone decimal [4096] [([49], [97]), ([50], [98]), ([49], [99])] 1 ∧
      (runAll blocksBehind decimal [4096] 4 (putCalls [([49], [97]), ([50], [98]), ([49], [99])]) oneTable = .error .memory ∨
        ∃ m, runAll blocksBehind decimal [4096] 4 (putCalls [([49], [97]), ([50], [98]), ([49], [99])]) oneTable = .ok m ∧
          get [4096] 4 1 m = .ok (answer (some ([49], [99])) m)) := by
  have within : WithinLimits [([49], [97]), ([50], [98]), ([49], [99])] := by
    unfold WithinLimits
    decide
  have alone : Alone decimal [4096] [([49], [97]), ([50], [98]), ([49], [99])] 1 := by
    unfold Alone
    decide
  exact ⟨within, alone, get_latest blocksBehind decimal (by decide) oneTable_start _ within 1 alone (by decide)⟩

/-- The keys 1 and 34359738369 have the same table, bucket and tag: after a put of each, `get` of the
first returns the second with its value. -/
theorem get_other_key :
    (do
      let m ← runAll blocksBehind decimal [4096] 3
        (putCalls [([49], [97]), ([51, 52, 51, 53, 57, 55, 51, 56, 51, 54, 57], [98])]) oneTable
      let (_, kv, _) ← get [4096] 3 1 m
      return kv) = Except.ok (some ([51, 52, 51, 53, 57, 55, 51, 56, 51, 54, 57], [98])) := by
  rfl

/-! ## Dels -/

/-- A chain and a tag belong to one key below 2^35. -/
theorem key_unique {table : Nat} {key key' : UInt64} (small : key < 2 ^ 35) (small' : key' < 2 ^ 35)
    (chain : chainOf [table] key = chainOf [table] key') (tags : tag key = tag key') : key = key' := by
  have bits : ∀ {k : UInt64}, k < 2 ^ 35 → k.toNat = 2 ^ 11 * bucket k + (tag k).toNat := fun {k} below => by
    have bound : k.toNat < 2 ^ 35 := UInt64.lt_iff_toNat_lt.mp below
    have low : (tag k).toNat = k.toNat % 2 ^ 11 := by
      rw [tag, UInt64.toNat_toUInt32, UInt64.toNat_and, show (0x7ff : UInt64).toNat = 2 ^ 11 - 1 from rfl, Nat.and_two_pow_sub_one_eq_mod]
      omega
    have high : bucket k = k.toNat / 2 ^ 11 % 2 ^ 24 := by
      rw [bucket, UInt64.toNat_and, UInt64.toNat_shiftRight, show (0xffffff : UInt64).toNat = 2 ^ 24 - 1 from rfl,
        Nat.and_two_pow_sub_one_eq_mod, Nat.shiftRight_eq_div_pow]
      rfl
    omega
  apply UInt64.toNat_inj.mp
  rw [bits small, bits small', show bucket key = bucket key' from (Prod.mk.inj chain).2, tags]

/-- What is stored was put there. -/
theorem storeAll_origin {calls : List Call} {before : Contents} {c : ChainId} {t : UInt32} {p : List UInt8 × List UInt8}
    (stored : storeAll stoull htables calls before c t = some p) :
    (Call.put p.1 p.2 ∈ calls ∧ chainOf htables (stoull p.1) = c ∧ tag (stoull p.1) = t) ∨ before c t = some p := by
  induction calls generalizing before with
  | nil => exact Or.inr stored
  | cons call calls ih =>
    rcases ih stored with ⟨member, place⟩ | first
    · exact Or.inl ⟨List.mem_cons_of_mem _ member, place⟩
    · replace first : call.store stoull htables before c t = some p := first
      rw [Call.store] at first
      split at first
      · next here =>
        cases call with
        | put key value =>
          obtain rfl := Option.some.inj first
          exact Or.inl ⟨List.mem_cons_self .., here.1.symm, here.2.symm⟩
        | del key => cases first
      · exact Or.inr first

/-- What `del` of a key does that was put: its block is freed, `get` finds nothing under the key any
more, and finds under the other keys what it found before. -/
structure Deleted (htables : List Nat) (fuel : Nat) (key : UInt64) (stoull : List UInt8 → UInt64) (m m' : Mem) : Prop where
  unlocked : m'.locked = m.locked
  ok : m'.heap.Ok
  freed : ∃ p block, stoull p.1 = key ∧ get htables fuel key m = .ok (answer (some p) m) ∧
    m.heap.mem.load block.start (kvBytes p.1 p.2).length = kvBytes p.1 p.2 ∧ block ∈ m.heap.live ∧
    ∀ r, r ∈ m'.heap.live ↔ r ∈ m.heap.live ∧ r ≠ block
  absent : get htables fuel key m' = .ok (answer none m')
  others : ∀ other < 2 ^ 35, tag other ≠ 0 → other ≠ key →
    ∃ stored, get htables fuel other m = .ok (answer stored m) ∧ get htables fuel other m' = .ok (answer stored m')

/-- The keys of the calls are below 2^35 and have a tag other than zero. -/
def Tagged (stoull : List UInt8 → UInt64) (calls : List Call) : Prop :=
  ∀ call ∈ calls, call.hkey stoull < 2 ^ 35 ∧ tag (call.hkey stoull) ≠ 0

/-- In every run on one table in which each `del` is of a key that is found in the first bucket of its
chain, such a `del` removes that key and nothing else. -/
theorem del_removes (supply : Supply) (stoull : List UInt8 → UInt64) (table : Nat) (start : Start [table] m.heap) (calls : List Call)
    (tagged : Tagged stoull calls) (permitted : allPermitted supply stoull [table] fuel calls m) {m' : Mem}
    (reached : runAll supply stoull [table] fuel calls m = .ok m') (enough : calls.length < fuel) (key : UInt64)
    (small : key < 2 ^ 35) (nonzero : tag key ≠ 0) (first : inFirst [table] key m') :
    m'.locked = m.locked ∧ ∃ m'', del supply [table] fuel key m' = .ok (0, m'') ∧ Deleted [table] fuel key stoull m' m'' := by
  have some_table : [table] ≠ [] := List.cons_ne_nil table []
  have short : ∀ c, (Table.start [table]).len c + calls.length < fuel + 1 := fun c => by
    show 1 + _ < _
    omega
  have empty : ∀ c, none ∈ (Table.start [table]).used c → True := fun _ _ => trivial
  rcases start.stores.run some_table calls permitted empty (fun _ _ => trivial) (fun _ call member => (tagged call member).2) short with
    failed | ⟨T, m₁, done, stores, unlocked, len, _⟩
  · rw [reached] at failed
    cases failed
  obtain rfl := Except.ok.inj (reached.symm.trans done)
  have long : ∀ c, T.len c ≤ fuel := fun c => by
    have chain := len c
    rw [show (Table.start [table]).len c = 1 from rfl] at chain
    omega
  obtain ⟨k, h', cell, deleted, layout, live⟩ := stores.layout.del supply some_table (fun _ => nonzero) first
    (Nat.lt_of_le_of_lt (Nat.zero_le _) enough)
  have used : some (tag key) ∈ T.used (chainOf [table] key) := List.mem_of_getElem? cell
  -- what is stored now, and what is stored when the entry is removed
  have after : Stores [table] (T.del (chainOf [table] key) k) (Call.store stoull [table] (.del key) (storeAll stoull [table] calls fun _ _ => none))
      { m' with heap := h' } := stores.del cell layout
  refine ⟨unlocked, _, deleted, ⟨rfl, layout.ok, ?_, ?_, fun other below tagged' different => ?_⟩⟩
  · obtain ⟨p, stored⟩ : ∃ p, storeAll stoull [table] calls (fun _ _ => none) (chainOf [table] key) (tag key) = some p := by
      have value := stores.value (chainOf [table] key) (tag key)
      rw [Table.value, if_pos used] at value
      exact (Option.map_eq_some_iff.mp value.symm).imp fun _ => And.left
    have origin : stoull p.1 = key := by
      rcases storeAll_origin stored with ⟨member, chain, same⟩ | nothing
      · exact key_unique (tagged _ member).1 small chain same
      · cases nothing
    have value := stores.value (chainOf [table] key) (tag key)
    rw [Table.value, if_pos used, stored] at value
    obtain ⟨_, _, block⟩ := stores.layout.pieces.free stores.layout.ok supply stores.layout.filled
      (fun x there => stores.layout.bytes_ne_nil there) (.block (chainOf [table] key) (tag key)) used (stores.layout.region _ _ used)
    refine ⟨p, _, origin, ?_, ?_, stores.layout.region _ _ used, fun r => ?_⟩
    · rw [stores.get some_table key (fun _ => nonzero) (long _), stored]
    · rw [← show T.kv (chainOf [table] key) (tag key) = kvBytes p.1 p.2 from Option.some.inj value]
      exact stores.layout.read_block used
    · rw [live]
      exact block r
  · rw [after.get some_table key (fun _ => nonzero) (long _), Call.store, if_pos ⟨rfl, rfl⟩]
    rfl
  · refine ⟨_, stores.get some_table other (fun _ => tagged') (long _), ?_⟩
    rw [after.get some_table other (fun _ => tagged') (long _), Call.store, if_neg]
    exact fun same => different (key_unique below small same.1 same.2)

theorem del_removes_second :
    ∃ m m', runAll blocksBehind decimal [4096] 5 [.put [49] [97], .put [50] [98], .del 1, .put [51] [99]] oneTable = .ok m ∧
      inFirst [4096] 2 m ∧ del blocksBehind [4096] 5 2 m = .ok (0, m') ∧ Deleted [4096] 5 2 decimal m m' := by
  have tagged : Tagged decimal [.put [49] [97], .put [50] [98], .del 1, .put [51] [99]] := by
    unfold Tagged
    decide
  have permitted : allPermitted blocksBehind decimal [4096] 5 [.put [49] [97], .put [50] [98], .del 1, .put [51] [99]] oneTable := by
    decide +kernel
  obtain ⟨m, reached⟩ : ∃ m, runAll blocksBehind decimal [4096] 5 [.put [49] [97], .put [50] [98], .del 1, .put [51] [99]] oneTable = .ok m :=
    ⟨_, rfl⟩
  have first : inFirst [4096] 2 m := by
    obtain rfl := Except.ok.inj reached
    decide +kernel
  obtain ⟨_, m', deleted, properties⟩ := del_removes blocksBehind decimal 4096 oneTable_start _ tagged permitted reached (by decide) 2
    (by decide) (by decide) first
  exact ⟨m, m', reached, first, deleted, properties⟩

/-- Ten keys with the tags 1 to 10 fill a bucket. `del` of the absent key 11 returns 0 and removes the key 10. -/
theorem del_absent_removes :
    (do
      let m ← runAll blocksBehind decimal [4096] 12 (putCalls [([49], [97]), ([50], [97]), ([51], [97]), ([52], [97]), ([53], [97]),
        ([54], [97]), ([55], [97]), ([56], [97]), ([57], [97]), ([49, 48], [97])]) oneTable
      let (absent, _, m) ← get [4096] 12 11 m
      let (ret, m) ← del blocksBehind [4096] 12 11 m
      let (found, _, _) ← get [4096] 12 10 m
      return (absent, ret, found)) = Except.ok (-1, 0, -1) := by
  rfl

end Gam.Dht
