import Gam.Cache

/-!
# Lock tables

The lock tables of a cache line and of a directory entry behind one interface, and who holds which
address by the answers they gave. A table keeps the number of readers of an address, or the tag of
the one writer, in the same integer.
-/

namespace Gam

open Function

inductive LockCall (Key : Type)
  | rLock (key : Key)
  | wLock (key : Key)
  | unLock (key : Key)
deriving DecidableEq, Repr

/-- What happens to the owner of a table: a call, or a change of state that keeps the locks. -/
inductive TableEvent (Key Turn : Type)
  | call (c : LockCall Key)
  | turn (t : Turn)

/-- The holders of each key. -/
structure Holders (Key : Type) where
  readers : Key → Nat
  writer : Key → Bool

namespace Holders
variable {Key : Type} [DecidableEq Key]

def nobody : Holders Key := ⟨fun _ => 0, fun _ => false⟩

def Free (h : Holders Key) (key : Key) : Prop := h.readers key = 0 ∧ h.writer key = false

instance (h : Holders Key) (key : Key) : Decidable (h.Free key) :=
  inferInstanceAs (Decidable (_ ∧ _))

/-- The holders after a call that was granted or refused. -/
def after (h : Holders Key) (granted : Bool) : LockCall Key → Holders Key
  | .rLock key =>
    if granted then { h with readers := update h.readers key (h.readers key + 1) } else h
  | .wLock key => if granted then { h with writer := update h.writer key true } else h
  | .unLock key =>
    if h.writer key then { h with writer := update h.writer key false }
    else { h with readers := update h.readers key (h.readers key - 1) }

variable {h : Holders Key} {key : Key}

theorem after_rLock : h.after true (.rLock key) = { h with readers := update h.readers key (h.readers key + 1) } := rfl

theorem after_wLock : h.after true (.wLock key) = { h with writer := update h.writer key true } := rfl

theorem after_unLock_writer {granted : Bool} (writer : h.writer key = true) :
    h.after granted (.unLock key) = { h with writer := update h.writer key false } := by
  simp [after, writer]

theorem after_unLock_reader {granted : Bool} (reader : h.writer key = false) : h.after granted (.unLock key) =
      { h with readers := update h.readers key (h.readers key - 1) } := by
  simp [after, reader]

theorem writer_of_after_unLock {granted : Bool} {other : Key}
    (writer : (h.after granted (.unLock key)).writer other = true) : h.writer other = true := by
  cases held : h.writer key with
  | false => rwa [after_unLock_reader held] at writer
  | true =>
    rw [after_unLock_writer held] at writer
    by_cases same : other = key
    · rw [same, held]
    · simpa only [update_of_ne same] using writer

end Holders

/-- A lock table with its owner. `mayExclude` is what the callers of `WLock` have to provide, and
`mayTurn` says which changes of state the owner makes while the holders are as given. -/
structure LockTable (Node State Turn : Type) where
  locks : State → Locks Node
  call : LockCall (GAddr Node) → State → Bool × State
  turn : Turn → State → State
  mayExclude : State → Prop
  mayTurn : Turn → Holders (GAddr Node) → Prop

namespace LockTable
variable {Node State Turn : Type} [DecidableEq Node]

def step (table : LockTable Node State Turn) (s : State × Holders (GAddr Node)) :
    TableEvent (GAddr Node) Turn → State × Holders (GAddr Node)
  | .call c => ((table.call c s.1).2, s.2.after (table.call c s.1).1 c)
  | .turn t => (table.turn t s.1, s.2)

def run (table : LockTable Node State Turn) :
    List (TableEvent (GAddr Node) Turn) → State × Holders (GAddr Node) → State × Holders (GAddr Node)
  | [], s => s
  | ev :: events, s => run table events (table.step s ev)

/-- `MAX_SHARED_LOCK`. -/
def maxSharedLock : Nat := 254

/-- The events a table is meant for: the count of readers stays below the tag, and only a holder
unlocks. -/
def Meant (table : LockTable Node State Turn) (s : State × Holders (GAddr Node)) : TableEvent (GAddr Node) Turn → Prop
  | .call (.rLock key) => s.2.readers key < maxSharedLock
  | .call (.wLock _) => table.mayExclude s.1
  | .call (.unLock key) => ¬ s.2.Free key
  | .turn t => table.mayTurn t s.2

def AllMeant (table : LockTable Node State Turn) :
    List (TableEvent (GAddr Node) Turn) → State × Holders (GAddr Node) → Prop
  | [], _ => True
  | ev :: events, s => table.Meant s ev ∧ AllMeant table events (table.step s ev)

/-- The table answers as a reader-writer lock that is held as given. -/
def Answers (table : LockTable Node State Turn) (s : State) (h : Holders (GAddr Node)) : Prop :=
  ∀ key,
    ((table.locks s).lookup key = none ↔ h.Free key) ∧
    ((table.call (.rLock key) s).1 = true ↔ h.writer key = false) ∧
    ((table.call (.wLock key) s).1 = true ↔ h.Free key)

end LockTable

/-- The lock table of a cache line; the state of the line never matters. -/
def Cache.table {Node : Type} [DecidableEq Node] : LockTable Node (CacheLine Node) CacheState where
  locks l := l.locks
  call
    | .rLock key, l => ((rLock key l).isSome, (rLock key l).getD l)
    | .wLock key, l => ((wLock key l).isSome, (wLock key l).getD l)
    | .unLock key, l => (true, unLock key l)
  turn := setState
  mayExclude _ := True
  mayTurn _ _ := True

/-- The state and the list of an entry after the protocol moved on. An entry without locks is
dropped in `DIR_UNSHARED`, a missing one is created otherwise. -/
def Directory.turn {Node : Type} (t : DirState × List (GAddr Node)) (entry : Option (DirEntry Node)) :
    Option (DirEntry Node) :=
  if t.1 = .unshared ∧ (getLocks entry).isBlockLocked = false then none
  else some ⟨t.1, t.2, getLocks entry⟩

/-- The lock table of a directory entry. `ToUnShared` has to come before `WLock`, and a block whose
home holds an exclusive lock stays where it is. -/
def Directory.table {Node : Type} [DecidableEq Node] :
    LockTable Node (Option (DirEntry Node)) (DirState × List (GAddr Node)) where
  locks := getLocks
  call
    | .rLock key, entry => ((rLock key entry).isSome, (rLock key entry).or entry)
    | .wLock key, entry => ((wLock key entry).isSome, (wLock key entry).or entry)
    | .unLock key, entry => (true, unLock key entry)
  turn := turn
  mayExclude entry := getState entry = .unshared
  mayTurn t h := t.1 = .unshared ∨ ∀ key, h.writer key = false

namespace Locks
variable {Node : Type} [DecidableEq Node] {locks : Locks Node} {h : Holders (GAddr Node)}
  {key : GAddr Node}

/-- The integer a table keeps for a key that is held so. -/
def tally (h : Holders (GAddr Node)) (key : GAddr Node) : Option Int :=
  if h.writer key then some exclusiveLockTag
  else if h.readers key = 0 then none else some (h.readers key)

/-- The table tells who holds what. -/
structure Tallies (locks : Locks Node) (h : Holders (GAddr Node)) : Prop where
  lookup : ∀ key, locks.lookup key = tally h key
  alone : ∀ key, h.writer key = true → h.readers key = 0
  few : ∀ key, h.readers key ≤ LockTable.maxSharedLock

theorem Tallies.empty : Tallies (∅ : Locks Node) Holders.nobody :=
  ⟨fun _ => rfl, fun _ held => Bool.noConfusion held, fun _ => Nat.zero_le _⟩

theorem Tallies.wLocked (tallies : Tallies locks h) :
    locks.lookup key = some exclusiveLockTag ↔ h.writer key = true := by
  rw [tallies.lookup key, tally]
  have few := tallies.few key
  unfold LockTable.maxSharedLock at few
  split
  · simp [*]
  · next writer =>
    split
    · simp [writer]
    · simp only [writer, Option.some.injEq, exclusiveLockTag]
      constructor
      · omega
      · simp

theorem Tallies.free (tallies : Tallies locks h) : locks.lookup key = none ↔ h.Free key := by
  rw [tallies.lookup key, tally, Holders.Free]
  split
  · simp [*]
  · next writer => split <;> simp_all

/-- A table whose entries other than that of `key` stay still tells who holds what. -/
theorem Tallies.update {locks' : Locks Node} {h' : Holders (GAddr Node)} (tallies : Tallies locks h) (key : GAddr Node)
    (same : ∀ other, other ≠ key → locks'.lookup other = locks.lookup other ∧
      h'.readers other = h.readers other ∧ h'.writer other = h.writer other)
    (here : locks'.lookup key = tally h' key) (alone : h'.writer key = true → h'.readers key = 0)
    (few : h'.readers key ≤ LockTable.maxSharedLock) : Tallies locks' h' := by
  refine ⟨fun other => ?_, fun other => ?_, fun other => ?_⟩ <;> by_cases at_key : other = key
  · rw [at_key, here]
  · obtain ⟨kept, readers, writer⟩ := same other at_key
    rw [kept, tallies.lookup other, tally, tally, readers, writer]
  · rw [at_key]; exact alone
  · obtain ⟨_, readers, writer⟩ := same other at_key
    rw [readers, writer]; exact tallies.alone other
  · rw [at_key]; exact few
  · rw [(same other at_key).2.1]; exact tallies.few other

theorem Tallies.share (tallies : Tallies locks h) (free : h.writer key = false)
    (room : h.readers key < LockTable.maxSharedLock) : Tallies (Locks.share key locks) (h.after true (.rLock key)) := by
  rw [Holders.after_rLock]
  refine tallies.update key (fun other different => ?_) ?_ ?_ ?_
  · simp [Locks.share, update_of_ne different, AList.lookup_insert_ne different]
  · rw [Locks.share, AList.lookup_insert, tallies.lookup key, tally, tally]
    by_cases none : h.readers key = 0 <;> simp [none, free]
  · simp [free]
  · simp only [update_self]
    exact room

theorem Tallies.exclude (tallies : Tallies locks h) (free : h.Free key) :
    Tallies (Locks.exclude key locks) (h.after true (.wLock key)) := by
  rw [Holders.after_wLock]
  refine tallies.update key (fun other different => ?_) ?_ ?_ ?_
  · simp [Locks.exclude, update_of_ne different, AList.lookup_insert_ne different]
  · simp [Locks.exclude, tally]
  · simp [free.1]
  · simp [free.1]

/-- The entry of a key counts one reader less, or none at all after a writer. -/
def Releases (key : GAddr Node) (locks locks' : Locks Node) : Prop :=
  (∀ other, other ≠ key → locks'.lookup other = locks.lookup other) ∧
  ∀ k, locks.lookup key = some k →
    locks'.lookup key = if k = exclusiveLockTag ∨ k - 1 = 0 then none else some (k - 1)

theorem Tallies.release {locks' : Locks Node} (tallies : Tallies locks h) (held : ¬ h.Free key)
    (released : Releases key locks locks') : Tallies locks' (h.after true (.unLock key)) := by
  have few := tallies.few key
  have looked := tallies.lookup key
  by_cases writer : h.writer key = true
  · rw [Holders.after_unLock_writer writer]
    refine tallies.update key (fun other different => ?_) ?_ ?_ few
    · exact ⟨released.1 other different, rfl, update_of_ne different ..⟩
    · rw [released.2 exclusiveLockTag (by rw [looked, tally, if_pos writer])]
      simp [tally, tallies.alone key writer]
    · simp
  · rw [Bool.not_eq_true] at writer
    have some_reader : h.readers key ≠ 0 := fun none => held ⟨none, writer⟩
    unfold LockTable.maxSharedLock at few
    have below : (h.readers key : Int) ≠ exclusiveLockTag := by unfold exclusiveLockTag; omega
    rw [Holders.after_unLock_reader writer]
    refine tallies.update key (fun other different => ?_) ?_ ?_ ?_
    · exact ⟨released.1 other different, update_of_ne different .., rfl⟩
    · rw [released.2 (h.readers key) (by simp [looked, tally, writer, some_reader])]
      by_cases last : h.readers key = 1
      · simp [last, tally, writer]
      · have more : (h.readers key : Int) - 1 ≠ 0 := by omega
        have more' : h.readers key - 1 ≠ 0 := by omega
        have count : ((h.readers key - 1 : Nat) : Int) = h.readers key - 1 := by omega
        simp [tally, writer, below, more, more', count]
    · simp [writer]
    · simp only [update_self, LockTable.maxSharedLock]
      omega

end Locks

end Gam
