import Gam.Dht.Del

/-!
# Sequences of calls

What is stored after a sequence of calls of `put` and `del`. A `del` is meant for a key that is found in
the first bucket of its chain.
-/

namespace Gam.Dht

open Heap (Stop)

inductive Call where
  | put (key value : List UInt8)
  | del (key : UInt64)

/-- The pairs that are stored, by chain and tag. -/
abbrev Contents : Type := ChainId → UInt32 → Option (List UInt8 × List UInt8)

namespace Call

/-- The number that a call is for. -/
def hkey (stoull : List UInt8 → UInt64) : Call → UInt64
  | .put key _ => stoull key
  | .del key => key

def pair : Call → Option (List UInt8 × List UInt8)
  | .put key value => some (key, value)
  | .del _ => none

def run (supply : Supply) (stoull : List UInt8 → UInt64) (htables : List Nat) (fuel : Nat) : Call → Mem → Except Stop (Int × Mem)
  | .put key value => Dht.put supply stoull htables fuel key value
  | .del key => Dht.del supply htables fuel key

/-- The size limits of `put`, and that `del` finds its key in the first bucket. -/
def permitted (htables : List Nat) (m : Mem) : Call → Bool
  | .put key value => key.length ≤ 1024 && value.length ≤ 16384
  | .del key => inFirst htables key m

/-- What is stored after the call. -/
def store (stoull : List UInt8 → UInt64) (htables : List Nat) (call : Call) (before : Contents) : Contents := fun c t =>
  if c = chainOf htables (call.hkey stoull) ∧ t = tag (call.hkey stoull) then call.pair else before c t

end Call

def runAll (supply : Supply) (stoull : List UInt8 → UInt64) (htables : List Nat) (fuel : Nat) : List Call → Mem → Except Stop Mem
  | [], m => .ok m
  | call :: calls, m => do
    let (_, m) ← call.run supply stoull htables fuel m
    runAll supply stoull htables fuel calls m

/-- Every call is permitted in the memory in which it is made. -/
def allPermitted (supply : Supply) (stoull : List UInt8 → UInt64) (htables : List Nat) (fuel : Nat) : List Call → Mem → Bool
  | [], _ => true
  | call :: calls, m =>
    call.permitted htables m &&
      match call.run supply stoull htables fuel m with
      | .ok (_, m') => allPermitted supply stoull htables fuel calls m'
      | .error _ => true

/-- What is stored after a sequence of calls. -/
def storeAll (stoull : List UInt8 → UInt64) (htables : List Nat) (calls : List Call) (before : Contents) : Contents :=
  calls.foldl (fun contents call => call.store stoull htables contents) before

/-- What `get` returns. -/
def answer (stored : Option (List UInt8 × List UInt8)) (m : Mem) : Int × Option (List UInt8 × List UInt8) × Mem :=
  match stored with
  | some p => ((kvBytes p.1 p.2).length, some p, m)
  | none => (-1, none, m)

/-- The table holds the contents. -/
structure Stores (htables : List Nat) (T : Table) (contents : Contents) (m : Mem) : Prop where
  layout : Layout htables T m.heap
  value : ∀ c t, T.value c t = (contents c t).map fun p => kvBytes p.1 p.2
  short : ∀ c t key value, contents c t = some (key, value) → key.length ≤ 1024 ∧ value.length ≤ 16384

namespace Stores

variable {supply : Supply} {stoull : List UInt8 → UInt64} {htables : List Nat} {T : Table} {contents : Contents} {m : Mem} {fuel : Nat}

/-- The entry of a key is removed. -/
theorem del {key : UInt64} {k : Nat} {h' : Heap} (stores : Stores htables T contents m)
    (cell : (T.used (chainOf htables key))[k]? = some (some (tag key))) (layout : Layout htables (T.del (chainOf htables key) k) h') :
    Stores htables (T.del (chainOf htables key) k) (Call.store stoull htables (.del key) contents) { m with heap := h' } := by
  refine ⟨layout, fun c t => ?_, fun c t key' value' stored => ?_⟩
  · rw [stores.layout.value_del cell, stores.value, Call.store, apply_ite (Option.map _)]
    rfl
  · rw [Call.store] at stored
    split at stored
    · cases stored
    · exact stores.short c t key' value' stored

/-- One call. The entries that were removed are seen by a `del` only. -/
theorem step (stores : Stores htables T contents m) (some_table : htables ≠ []) (call : Call) (permitted : call.permitted htables m)
    (clean : ∀ c, none ∈ T.used c → tag (call.hkey stoull) ≠ 0) (enough : ∀ c, T.len c < fuel) :
    call.run supply stoull htables fuel m = .error .memory ∨
      ∃ r T' m', call.run supply stoull htables fuel m = .ok (r, m') ∧ Stores htables T' (call.store stoull htables contents) m' ∧
        m'.locked = m.locked ∧ (∀ c, T'.len c ≤ T.len c + 1) ∧
        ∀ c, none ∈ T'.used c → none ∈ T.used c ∨ ∃ key, call = .del key := by
  cases call with
  | put key value =>
    rw [Call.permitted, Bool.and_eq_true, decide_eq_true_eq, decide_eq_true_eq] at permitted
    obtain ⟨short, short'⟩ := permitted
    rcases stores.layout.put supply some_table short short' (clean _) (enough _) with failed | ⟨T', h', done, layout, puts⟩
    · exact Or.inl failed
    · refine Or.inr ⟨_, T', _, done, ⟨layout, fun c t => ?_, fun c t key' value' stored => ?_⟩, rfl, puts.len,
        fun c member => Or.inl (puts.removed c member)⟩
      · rw [puts.value, stores.value, Call.store, apply_ite (Option.map _)]
        rfl
      · rw [Call.store] at stored
        split at stored
        · cases stored
          exact ⟨short, short'⟩
        · exact stores.short c t key' value' stored
  | del key =>
    obtain ⟨k, h', cell, done, layout, _⟩ := stores.layout.del supply some_table (clean _) permitted (Nat.lt_of_le_of_lt (Nat.zero_le _) (enough (0, 0)))
    exact Or.inr ⟨_, _, _, done, stores.del cell layout, rfl, fun c => Nat.le_succ _, fun c _ => Or.inr ⟨key, rfl⟩⟩

/-- A sequence of calls. The tag zero is not used when entries are removed. -/
theorem run {removed : Prop} (stores : Stores htables T contents m) (some_table : htables ≠ []) (calls : List Call)
    (permitted : allPermitted supply stoull htables fuel calls m) (clean : ∀ c, none ∈ T.used c → removed)
    (dels : ∀ key, Call.del key ∈ calls → removed) (tagged : removed → ∀ call ∈ calls, tag (call.hkey stoull) ≠ 0)
    (enough : ∀ c, T.len c + calls.length < fuel + 1) :
    runAll supply stoull htables fuel calls m = .error .memory ∨
      ∃ T' m', runAll supply stoull htables fuel calls m = .ok m' ∧ Stores htables T' (storeAll stoull htables calls contents) m' ∧
        m'.locked = m.locked ∧ (∀ c, T'.len c ≤ T.len c + calls.length) ∧ ∀ c, none ∈ T'.used c → removed := by
  induction calls generalizing T contents m with
  | nil => exact Or.inr ⟨T, m, rfl, stores, rfl, fun _ => Nat.le_refl _, clean⟩
  | cons call calls ih =>
    rw [List.length_cons] at enough
    rw [runAll]
    rw [allPermitted, Bool.and_eq_true] at permitted
    obtain ⟨now, later⟩ := permitted
    have more : ∀ c, T.len c < fuel := fun c => by have := enough c; omega
    rcases stores.step some_table call now (fun c member => tagged (clean c member) call (List.mem_cons_self ..)) more with failed | ⟨r, T', m', done, stores', unlocked, len, removes⟩
    · left
      rw [failed]
      rfl
    · rw [done] at later ⊢
      have clean' : ∀ c, none ∈ T'.used c → removed := fun c member => by
        rcases removes c member with old | ⟨key, rfl⟩
        · exact clean c old
        · exact dels key (List.mem_cons_self ..)
      rcases ih stores' later clean' (fun key member => dels key (List.mem_cons_of_mem _ member))
          (fun removed call' member => tagged removed call' (List.mem_cons_of_mem _ member))
          (fun c => by have := enough c; have := len c; omega) with failed | ⟨T'', m'', done', stores'', unlocked', len', clean''⟩
      · exact Or.inl failed
      · refine Or.inr ⟨T'', m'', done', stores'', unlocked'.trans unlocked, fun c => ?_, clean''⟩
        have first := len c
        have rest := len' c
        rw [List.length_cons]
        omega

/-- `get` returns what is stored under the tag of the key. -/
theorem get (stores : Stores htables T contents m) (some_table : htables ≠ []) (key : UInt64)
    (clean : none ∈ T.used (chainOf htables key) → tag key ≠ 0) (enough : T.len (chainOf htables key) ≤ fuel) :
    Dht.get htables fuel key m = .ok (answer (contents (chainOf htables key) (tag key)) m) := by
  have value := stores.value (chainOf htables key) (tag key)
  cases stored : contents (chainOf htables key) (tag key) with
  | none =>
    rw [stored] at value
    exact stores.layout.get_none some_table clean enough value
  | some p =>
    obtain ⟨short, short'⟩ := stores.short _ _ p.1 p.2 stored
    rw [stored] at value
    rw [stores.layout.get_value some_table clean enough value, ofKvBytes_kvBytes (by omega) (by omega)]
    rfl

end Stores

/-- Nothing is stored in the empty tables. -/
theorem Start.stores {htables : List Nat} {m : Mem} (start : Start htables m.heap) :
    Stores htables (Table.start htables) (fun _ _ => none) m :=
  ⟨start.layout, fun _ _ => rfl, nofun⟩

end Gam.Dht
