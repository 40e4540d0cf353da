import Gam.Lock.Table

/-! Both lock tables are reader-writer locks while the count of readers stays below the tag. -/

namespace Gam

open Function
variable {Node : Type} [DecidableEq Node] {key : GAddr Node} {h : Holders (GAddr Node)}

open Locks (Tallies Releases)

namespace LockTable
variable {State Turn : Type} {table : LockTable Node State Turn}
  {events : List (TableEvent (GAddr Node) Turn)} {s : State × Holders (GAddr Node)}

/-- A relation between a table and its holders that every meant event keeps. -/
structure Kept (table : LockTable Node State Turn) (Fits : State → Holders (GAddr Node) → Prop) :
    Prop where
  call : ∀ {s h} c, Fits s h → table.Meant (s, h) (.call c) →
    Fits (table.call c s).2 (h.after (table.call c s).1 c)
  turn : ∀ {s h} t, Fits s h → table.Meant (s, h) (.turn t) → Fits (table.turn t s) h
  answers : ∀ {s h}, Fits s h → table.Answers s h

theorem Kept.run {Fits : State → Holders (GAddr Node) → Prop} (kept : Kept table Fits)
    (fits : Fits s.1 s.2) (meant : table.AllMeant events s) :
    Fits (table.run events s).1 (table.run events s).2 := by
  induction events generalizing s with
  | nil => exact fits
  | cons ev events ih =>
    refine ih ?_ meant.2
    cases ev with
    | call c => exact kept.call c fits meant.1
    | turn t => exact kept.turn t fits meant.1

theorem run_append (more : List (TableEvent (GAddr Node) Turn)) :
    table.run (events ++ more) s = table.run more (table.run events s) := by
  induction events generalizing s with
  | nil => rfl
  | cons ev events ih => exact ih

section
variable {Fits : State → Holders (GAddr Node) → Prop} (kept : Kept table Fits)
include Fits kept

/-- `n` readers come, as long as nobody excludes them. -/
theorem Kept.readers (n : Nat)
    (fits : Fits s.1 s.2) (open_ : s.2.writer key = false)
    (few : s.2.readers key + n ≤ maxSharedLock) :
    table.AllMeant (.replicate n (.call (.rLock key))) s ∧
      (table.run (.replicate n (.call (.rLock key))) s).2 =
        { s.2 with readers := update s.2.readers key (s.2.readers key + n) } := by
  induction n generalizing s with
  | zero => exact ⟨trivial, by simp [LockTable.run]⟩
  | succ n ih =>
    have meant : table.Meant s (.call (.rLock key)) := Nat.lt_of_lt_of_le (by omega) few
    have granted : (table.call (.rLock key) s.1).1 = true := ((kept.answers fits) key).2.1.mpr open_
    have after : (table.step s (.call (.rLock key))).2 =
        { s.2 with readers := update s.2.readers key (s.2.readers key + 1) } := by
      simp only [step, granted, Holders.after_rLock]
    obtain ⟨rest, holders⟩ := ih (s := table.step s (.call (.rLock key)))
      (kept.call _ fits meant) (by rw [after]; exact open_) (by rw [after]; simp; omega)
    refine ⟨⟨meant, rest⟩, ?_⟩
    rw [List.replicate_succ, LockTable.run, holders, after]
    simp only [update_self, update_idem]
    rw [Nat.add_right_comm, Nat.add_assoc]

/-- `n` of the readers go. -/
theorem Kept.leave (key : GAddr Node)
    (n : Nat) (fits : Fits s.1 s.2) (open_ : s.2.writer key = false) (there : n ≤ s.2.readers key) :
    table.AllMeant (.replicate n (.call (.unLock key))) s ∧
      (table.run (.replicate n (.call (.unLock key))) s).2 =
        { s.2 with readers := update s.2.readers key (s.2.readers key - n) } := by
  induction n generalizing s with
  | zero => exact ⟨trivial, by simp [LockTable.run]⟩
  | succ n ih =>
    have meant : table.Meant s (.call (.unLock key)) := fun free => by
      have none := free.1
      omega
    have after : (table.step s (.call (.unLock key))).2 =
        { s.2 with readers := update s.2.readers key (s.2.readers key - 1) } := by
      simp only [step, Holders.after_unLock_reader open_]
    obtain ⟨rest, holders⟩ := ih (s := table.step s (.call (.unLock key)))
      (kept.call _ fits meant) (by rw [after]; exact open_) (by rw [after]; simp; omega)
    refine ⟨⟨meant, rest⟩, ?_⟩
    rw [List.replicate_succ, LockTable.run, holders, after]
    simp only [update_self, update_idem]
    rw [Nat.sub_sub, Nat.add_comm]

/-- After `n` readers of a free key, only `n` unlocks make it free again. -/
theorem Kept.freed {n m : Nat}
    (fits : Fits s.1 s.2) (free : s.2.Free key) (few : n ≤ maxSharedLock) (there : m ≤ n) :
    (table.locks (table.run (.replicate n (.call (.rLock key)) ++ .replicate m (.call (.unLock key))) s).1).lookup
      key = none ↔ m = n := by
  obtain ⟨meant, holders⟩ := kept.readers n fits free.2 (by rw [free.1]; omega)
  have fits' := kept.run fits meant
  obtain ⟨meant', holders'⟩ := kept.leave key m fits' (by rw [holders]; exact free.2)
    (by rw [holders]; simp [free.1, there])
  rw [run_append, (kept.answers (kept.run fits' meant') key).1, holders', holders]
  simp only [Holders.Free, update_self, free.1, free.2, and_true]
  omega

end

end LockTable

namespace Cache
variable {l : CacheLine Node}

theorem releases_releaseLock (locks : Locks Node) : Releases key locks (releaseLock key locks) := by
  unfold releaseLock
  constructor
  · intro other different
    split
    · rfl
    · split
      · exact AList.lookup_erase_ne different
      · exact AList.lookup_insert_ne different
  · intro k looked
    simp only [looked]
    split
    · exact AList.lookup_erase ..
    · exact AList.lookup_insert ..

theorem rLock_eq (tallies : Tallies l.locks h) :
    rLock key l = if h.writer key then none else some { l with locks := Locks.share key l.locks } := by
  simp only [rLock, isWLocked, tallies.wLocked, decide_eq_true_eq]

theorem taken_iff {locks : Locks Node} (tallies : Tallies locks h) :
    (isWLocked key locks || isRLocked key locks) = true ↔ ¬ h.Free key := by
  rw [← tallies.free, isWLocked, isRLocked]
  cases locks.lookup key with
  | none => simp
  | some k => by_cases tag : k = exclusiveLockTag <;> simp [tag]

theorem wLock_eq (tallies : Tallies l.locks h) : wLock key l =
    if h.Free key then some { l with locks := Locks.exclude key l.locks } else none := by
  simp only [wLock, taken_iff tallies, ite_not]

/-- The table of a line and its holders agree after every call. -/
theorem table_kept : LockTable.Kept table fun (l : CacheLine Node) h => Tallies l.locks h where
  call {l h} c tallies meant := by
    cases c with
    | rLock key =>
      simp only [table, rLock_eq tallies]
      by_cases writer : h.writer key = true
      · simpa [writer, Holders.after] using tallies
      · simpa [writer] using tallies.share (by simpa using writer) meant
    | wLock key =>
      simp only [table, wLock_eq tallies]
      by_cases free : h.Free key
      · simpa [free] using tallies.exclude free
      · simpa [free, Holders.after] using tallies
    | unLock key => exact tallies.release meant (releases_releaseLock _)
  turn _ tallies _ := tallies
  answers {l h} tallies key := by
    refine ⟨tallies.free, ?_, ?_⟩
    · by_cases writer : h.writer key = true <;> simp [table, rLock_eq tallies, writer]
    · by_cases free : h.Free key <;> simp [table, wLock_eq tallies, free]

end Cache

namespace Directory
variable {entry : Option (DirEntry Node)}

/-- The table of an entry tells who holds what, and an exclusive lock is held in `DIR_UNSHARED`. -/
structure Fits (entry : Option (DirEntry Node)) (h : Holders (GAddr Node)) : Prop where
  tallies : Tallies (getLocks entry) h
  unshared : ∀ key, h.writer key = true → getState entry = .unshared

theorem isWLocked_iff {e : DirEntry Node} (fits : Fits (some e) h) :
    isWLocked key e = true ↔ h.writer key = true := by
  have looked : e.locks.lookup key = some exclusiveLockTag ↔ h.writer key = true := fits.tallies.wLocked
  simp only [isWLocked, Bool.and_eq_true, decide_eq_true_eq, looked]
  exact ⟨And.right, fun writer => ⟨fits.unshared key writer, writer⟩⟩

theorem isRLocked_iff {e : DirEntry Node} (fits : Fits (some e) h) :
    isRLocked key e = true ↔ 0 < h.readers key := by
  have looked : e.locks.lookup key = Locks.tally h key := fits.tallies.lookup key
  have few := fits.tallies.few key
  unfold LockTable.maxSharedLock at few
  rw [isRLocked, looked, Locks.tally]
  by_cases writer : h.writer key = true
  · simp [writer, fits.tallies.alone key writer]
  · by_cases none : h.readers key = 0
    · simp [writer, none]
    · have below : (h.readers key : Int) ≠ exclusiveLockTag := by unfold exclusiveLockTag; omega
      simp [writer, none, below]

theorem rLock_eq (fits : Fits entry h) : rLock key entry =
    if h.writer key then none
    else some ⟨getState entry, getSList entry, Locks.share key (getLocks entry)⟩ := by
  cases entry with
  | none =>
    have free : h.Free key := fits.tallies.free.mp rfl
    simp [rLock, free.2, getState, getSList, getLocks]
  | some e => simp only [rLock, isWLocked_iff fits]; rfl

theorem wLock_eq (fits : Fits entry h) : wLock key entry =
    if h.Free key then some ⟨getState entry, getSList entry, Locks.exclude key (getLocks entry)⟩
    else none := by
  cases entry with
  | none =>
    have free : h.Free key := fits.tallies.free.mp rfl
    simp [wLock, free, getState, getSList, getLocks]
  | some e =>
    have taken : (isWLocked key e || isRLocked key e) = true ↔ ¬ h.Free key := by
      rw [Bool.or_eq_true, isWLocked_iff fits, isRLocked_iff fits, Holders.Free]
      cases h.writer key <;> simp [Nat.pos_iff_ne_zero]
    simp only [wLock, taken, ite_not]
    rfl

theorem releases_releaseLock {e : DirEntry Node} (fits : Fits (some e) h) :
    Releases key e.locks (releaseLock key e) := by
  unfold releaseLock
  constructor
  · intro other different
    simp only [apply_ite (AList.lookup other), AList.lookup_erase_ne different,
      AList.lookup_insert_ne different, ite_self]
  · intro k looked
    have tag : isWLocked key e = true ↔ k = exclusiveLockTag := by
      rw [isWLocked_iff fits, ← fits.tallies.wLocked]
      show e.locks.lookup key = _ ↔ _
      rw [looked, Option.some.injEq]
    by_cases exclusive : k = exclusiveLockTag
    · simp [tag.mpr exclusive, exclusive]
    · have shared : isWLocked key e = false :=
        Bool.eq_false_iff.mpr fun held => exclusive (tag.mp held)
      by_cases last : k - 1 = 0 <;> simp [shared, exclusive, looked, last]

theorem getLocks_unLock (e : DirEntry Node) : getLocks (unLock key (some e)) = releaseLock key e := by
  simp only [unLock]
  split
  · next dropped =>
    have none_left : (releaseLock key e).isBlockLocked = false := by simp_all
    exact (Locks.eq_empty_of_not_locked none_left).symm
  · rfl

theorem getState_unLock (e : DirEntry Node) : getState (unLock key (some e)) = e.state := by
  simp only [unLock]
  split
  · next dropped =>
    have unshared : e.state = .unshared := by simp_all
    exact unshared.symm
  · rfl

theorem getLocks_turn (t : DirState × List (GAddr Node)) : getLocks (turn t entry) = getLocks entry := by
  unfold turn
  split
  · next dropped => exact (Locks.eq_empty_of_not_locked dropped.2).symm
  · rfl

theorem getState_turn (t : DirState × List (GAddr Node)) : getState (turn t entry) = t.1 := by
  unfold turn
  split
  · next dropped => exact dropped.1.symm
  · rfl

/-- An entry and the holders of its locks agree after every call. -/
theorem table_kept : LockTable.Kept table (@Fits Node _) where
  call {entry h} c fits meant := by
    cases c with
    | rLock key =>
      simp only [table, rLock_eq fits]
      by_cases writer : h.writer key = true
      · simpa [writer, Holders.after] using fits
      · simp only [writer]
        exact ⟨fits.tallies.share (by simpa using writer) meant, fits.unshared⟩
    | wLock key =>
      simp only [table, wLock_eq fits]
      by_cases free : h.Free key
      · simp only [free, if_true]
        exact ⟨fits.tallies.exclude free, fun _ _ => meant⟩
      · simpa [free, Holders.after] using fits
    | unLock key =>
      cases entry with
      | none => exact absurd (fits.tallies.free.mp rfl) meant
      | some e =>
        refine ⟨?_, fun other writer => ?_⟩
        · show Tallies (getLocks (unLock key (some e))) _
          rw [getLocks_unLock]
          exact fits.tallies.release meant (releases_releaseLock fits)
        · show getState (unLock key (some e)) = _
          rw [getState_unLock]
          exact fits.unshared other (Holders.writer_of_after_unLock writer)
  turn {entry h} t fits meant := by
    refine ⟨?_, fun key writer => ?_⟩
    · show Tallies (getLocks (turn t entry)) h
      rw [getLocks_turn]
      exact fits.tallies
    · show getState (turn t entry) = _
      rw [getState_turn]
      exact meant.resolve_right fun nobody => absurd (nobody key) (by rw [writer]; decide)
  answers {entry h} fits key := by
    refine ⟨fits.tallies.free, ?_, ?_⟩
    · by_cases writer : h.writer key = true <;> simp [table, rLock_eq fits, writer]
    · by_cases free : h.Free key <;> simp [table, wLock_eq fits, free]

end Directory

/-- From an empty table, after any events that keep the count of readers of an address below the
tag, let only holders unlock and keep an excluded entry in `DIR_UNSHARED`: an address is free in the
table exactly when nobody holds it, `RLock` succeeds exactly when nobody excludes, `WLock` exactly
when nobody holds, and after `n` readers of a free address it takes `n` unlocks to free it. -/
theorem lockTables_answer :
    (∀ (line : CacheLine Node) (events : List (TableEvent (GAddr Node) CacheState)), line.locks = ∅ →
      Cache.table.AllMeant events (line, .nobody) →
      Cache.table.Answers (Cache.table.run events (line, .nobody)).1
        (Cache.table.run events (line, .nobody)).2 ∧
      ∀ key n m, (Cache.table.run events (line, .nobody)).2.Free key → n ≤ LockTable.maxSharedLock →
        m ≤ n →
        ((Cache.table.run (.replicate n (.call (.rLock key)) ++ .replicate m (.call (.unLock key)))
          (Cache.table.run events (line, .nobody))).1.locks.lookup key = none ↔ m = n)) ∧
    (∀ events : List (TableEvent (GAddr Node) (DirState × List (GAddr Node))),
      Directory.table.AllMeant events (none, .nobody) →
      Directory.table.Answers (Directory.table.run events (none, .nobody)).1
        (Directory.table.run events (none, .nobody)).2 ∧
      ∀ key n m, (Directory.table.run events (none, .nobody)).2.Free key →
        n ≤ LockTable.maxSharedLock → m ≤ n →
        ((Directory.getLocks (Directory.table.run
          (.replicate n (.call (.rLock key)) ++ .replicate m (.call (.unLock key)))
          (Directory.table.run events (none, .nobody))).1).lookup key = none ↔ m = n)) := by
  constructor
  · intro line events empty meant
    have fits := Cache.table_kept.run (s := (line, .nobody)) (empty ▸ Tallies.empty) meant
    exact ⟨Cache.table_kept.answers fits, fun key n m free few there =>
      Cache.table_kept.freed fits free few there⟩
  · intro events meant
    have fits := Directory.table_kept.run (s := (none, .nobody))
      ⟨Tallies.empty, fun _ held => Bool.noConfusion held⟩ meant
    exact ⟨Directory.table_kept.answers fits, fun key n m free few there =>
      Directory.table_kept.freed fits free few there⟩

/-- Two readers come and one goes. -/
def twoReaders {Turn : Type} : List (TableEvent (GAddr (Fin 1)) Turn) :=
  [.call (.rLock ⟨0, 8⟩), .call (.rLock ⟨0, 8⟩), .call (.unLock ⟨0, 8⟩)]

theorem lockTables_answer_twoReaders :
    Cache.table.Answers (Cache.table.run twoReaders (Cache.setCLine 0 (fun _ => 0) .shared, .nobody)).1
      (Cache.table.run twoReaders (Cache.setCLine 0 (fun _ => 0) .shared, .nobody)).2 ∧
    Directory.table.Answers (Directory.table.run twoReaders (none, .nobody)).1
      (Directory.table.run twoReaders (none, .nobody)).2 :=
  ⟨(lockTables_answer.1 (Cache.setCLine 0 (fun _ => 0) .shared) twoReaders rfl
      (by simp only [twoReaders, LockTable.AllMeant, LockTable.Meant]; decide)).1,
    (lockTables_answer.2 twoReaders
      (by simp only [twoReaders, LockTable.AllMeant, LockTable.Meant]; decide)).1⟩

/-- With 255 readers and no writer the count is the tag: another reader is refused, and the first
of them to unlock frees the address for a writer while 254 still read. -/
theorem lockTables_tagged :
    (let s := Cache.table.run (.replicate 255 (.call (.rLock (⟨0, 8⟩ : GAddr (Fin 1)))))
        (Cache.setCLine 0 (fun _ => 0) .shared, .nobody)
      let s' := Cache.table.step s (.call (.unLock ⟨0, 8⟩))
      s.2.writer ⟨0, 8⟩ = false ∧ (Cache.table.call (.rLock ⟨0, 8⟩) s.1).1 = false ∧
        s'.2.readers ⟨0, 8⟩ = 254 ∧ s'.1.locks.lookup ⟨0, 8⟩ = none ∧
        (Cache.table.call (.wLock ⟨0, 8⟩) s'.1).1 = true) ∧
    (let s := Directory.table.run (.replicate 255 (.call (.rLock (⟨0, 8⟩ : GAddr (Fin 1)))))
        (none, .nobody)
      let s' := Directory.table.step s (.call (.unLock ⟨0, 8⟩))
      s.2.writer ⟨0, 8⟩ = false ∧ (Directory.table.call (.rLock ⟨0, 8⟩) s.1).1 = false ∧
        s'.2.readers ⟨0, 8⟩ = 254 ∧ (Directory.getLocks s'.1).lookup ⟨0, 8⟩ = none ∧
        (Directory.table.call (.wLock ⟨0, 8⟩) s'.1).1 = true) := by
  decide +kernel

end Gam
