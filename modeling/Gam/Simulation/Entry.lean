import Gam.Relation

/-! How the operations of the directory change what its entry says about the home. -/

namespace Gam

open Directory
variable {Node : Type} [DecidableEq Node]
variable {home : Home Node} {entry : Option (DirEntry Node)}

theorem Home.dirty_of_dirState (state : home.dirState = .dirty) : ∃ o, home = .dirty o := by
  cases home with
  | dirty o => exact ⟨o, rfl⟩
  | _ => simp [Home.dirState] at state

theorem Home.shared_of_dirState (state : home.dirState = .shared) : ∃ L, home = .shared L := by
  cases home with
  | shared L => exact ⟨L, rfl⟩
  | _ => simp [Home.dirState] at state

theorem Home.unshared_of_dirState (state : home.dirState = .unshared) : home = .unshared := by
  cases home with
  | unshared => rfl
  | _ => simp [Home.dirState] at state

/-- A home that is neither in transition nor owned. -/
theorem Home.idle_of_dirState (settled : home.dirState.inTransition ≠ true)
    (unowned : home.dirState ≠ .dirty) : home.Idle := by
  cases home with
  | unshared | shared L => trivial
  | dirty o => exact absurd rfl unowned
  | _ => exact absurd rfl settled

theorem Home.owner_of_idle (idle : home.Idle) : home.owner = none := by
  cases home <;> first | rfl | exact idle.elim

theorem Home.settled_of_dirState (settled : home.dirState.inTransition ≠ true) : home.Settled := by
  cases home with
  | unshared | shared L | dirty o => trivial
  | _ => exact absurd rfl settled

theorem Home.quiet_of_settled (settled : home.Settled) :
    home.pending = [] ∧ ∀ n, home.cmd n = .quiet := by
  cases home with
  | unshared | shared L | dirty o => exact ⟨rfl, fun _ => rfl⟩
  | _ => exact settled.elim

theorem Home.clear_quiet (settled : home.Settled) {x : GAddr Node} :
    (home.clear x).pending = [] ∧ ∀ n, (home.clear x).cmd n = .quiet := by
  refine Home.quiet_of_settled ?_
  cases home with
  | unshared => trivial
  | shared L => simp only [Home.clear]; split <;> trivial
  | dirty o => simp only [Home.clear]; split <;> trivial
  | _ => exact settled.elim

namespace Directory
variable {entry : Option (DirEntry Node)} {addr : GAddr Node} {e : DirEntry Node}

theorem locked_of_rLock (granted : rLock addr entry = some e) : e.locks.isBlockLocked = true := by
  cases entry with
  | none => cases granted; exact Locks.locked_insert ..
  | some e' =>
    simp only [rLock] at granted
    split at granted
    · cases granted
    · cases granted; exact Locks.locked_insert ..

theorem locked_of_wLock (granted : wLock addr entry = some e) : e.locks.isBlockLocked = true := by
  cases entry with
  | none => cases granted; exact Locks.locked_insert ..
  | some e' =>
    simp only [wLock] at granted
    split at granted
    · cases granted
    · cases granted; exact Locks.locked_insert ..

end Directory

namespace EntryOk
variable {entry : Option (DirEntry Node)} {home home' : Home Node} {locks : Locks Node}

section
variable (ok : EntryOk entry home locks)
include ok

theorem congr (state : home'.dirState = home.dirState)
    (sharers : home'.sharers = home.sharers) : EntryOk entry home' locks :=
  ⟨by rw [state]; exact ok.state, by rw [sharers]; exact ok.sharers, ok.locks, ok.kept⟩

/-- A block somebody caches has an entry. -/
theorem some_entry (present : home.dirState ≠ .unshared) :
    ∃ e, entry = some e ∧ e.state = home.dirState ∧ e.shared = home.sharers ∧ e.locks = locks := by
  cases entry with
  | none => exact absurd ok.state.symm present
  | some e => exact ⟨e, rfl, ok.state, ok.sharers, ok.locks⟩

theorem setState (present : home.dirState ≠ .unshared)
    {state : DirState} (next : home'.dirState = state) (present' : state ≠ .unshared)
    (sharers : home'.sharers = home.sharers) : EntryOk (Directory.setState state entry) home' locks := by
  obtain ⟨e, rfl, -, list, table⟩ := ok.some_entry present
  exact ⟨next.symm, by rw [sharers, ← list]; rfl, table, kept_of_state present'⟩

/-- Where no entry is the same as an empty one. -/
theorem rLock (addr : GAddr Node) {e : DirEntry Node} (granted : Directory.rLock addr entry = some e) :
    EntryOk (some e) home (Locks.share addr locks) ∧
      (home.dirState = .unshared → locks.lookup addr ≠ some exclusiveLockTag) := by
  have stored := kept_of_locked (locked_of_rLock granted)
  cases entry with
  | none =>
    obtain rfl := ok.locks
    cases granted
    exact ⟨⟨ok.state, ok.sharers, rfl, stored⟩, fun _ h => by cases h⟩
  | some e' =>
    obtain rfl := ok.locks
    unfold Directory.rLock at granted
    by_cases taken : isWLocked addr e' = true
    · simp [taken] at granted
    · simp only [taken] at granted
      cases granted
      refine ⟨⟨ok.state, ok.sharers, rfl, stored⟩, fun unshared held => taken ?_⟩
      have state : e'.state = .unshared := ok.state.trans unshared
      have held : e'.locks.lookup addr = some exclusiveLockTag := held
      simp [isWLocked, state, held]

theorem wLock (unshared : home.dirState = .unshared)
    (addr : GAddr Node) {e : DirEntry Node} (granted : Directory.wLock addr entry = some e) :
    EntryOk (some e) home (Locks.exclude addr locks) ∧ ∀ k, locks.lookup addr = some k → k ≤ 0 := by
  have stored := kept_of_locked (locked_of_wLock granted)
  cases entry with
  | none =>
    obtain rfl := ok.locks
    cases granted
    exact ⟨⟨ok.state, ok.sharers, rfl, stored⟩, fun k h => by cases h⟩
  | some e' =>
    obtain rfl := ok.locks
    unfold Directory.wLock at granted
    by_cases taken : (isWLocked addr e' || isRLocked addr e') = true
    · simp [taken] at granted
    · simp only [taken] at granted
      cases granted
      refine ⟨⟨ok.state, ok.sharers, rfl, stored⟩, fun k held => ?_⟩
      have held : e'.locks.lookup addr = some k := held
      have state : e'.state = .unshared := ok.state.trans unshared
      simp [isWLocked, isRLocked, state, held] at taken
      by_contra positive
      exact taken.1 (taken.2 (by omega))

/-- `RLock` at the home fails for the writer of the address. -/
theorem rLock_none (addr : GAddr Node) (busy : Directory.rLock addr entry = none) : locks.isBlockLocked = true := by
  cases entry with
  | none => cases busy
  | some e' =>
    obtain rfl := ok.locks
    unfold Directory.rLock at busy
    by_cases taken : isWLocked addr e' = true
    · simp only [isWLocked, Bool.and_eq_true, decide_eq_true_eq] at taken
      exact Locks.locked_of_lookup (taken.2)
    · simp [taken] at busy

/-- `WLock` at the home fails for readers or the writer of the address. -/
theorem wLock_none (addr : GAddr Node)
    (busy : Directory.wLock addr entry = none) : ∃ k, locks.lookup addr = some k ∧ 0 < k := by
  cases entry with
  | none => cases busy
  | some e' =>
    obtain rfl := ok.locks
    unfold Directory.wLock at busy
    by_cases taken : (isWLocked addr e' || isRLocked addr e') = true
    · rcases Bool.or_eq_true_iff.mp taken with writer | reader
      · simp only [isWLocked, Bool.and_eq_true, decide_eq_true_eq] at writer
        exact ⟨_, writer.2, by decide⟩
      · unfold isRLocked at reader
        cases held : e'.locks.lookup addr with
        | none => simp [held] at reader
        | some k =>
          simp only [held, Bool.and_eq_true, decide_eq_true_eq] at reader
          exact ⟨k, held, reader.1⟩
    · simp [taken] at busy

theorem toShared (idle : home.Idle) (x : GAddr Node) :
    EntryOk (Directory.toShared (some x) entry) (.shared (home.sharers ++ [x])) locks := by
  cases entry with
  | none =>
    have none_ : home.sharers = [] := ok.sharers.symm
    rw [none_]
    exact ⟨rfl, rfl, ok.locks, kept_of_state (by simp [Directory.toShared, getState])⟩
  | some e =>
    have settled : e.state ≠ .toShared := by
      intro moving
      have state := ok.state.symm.trans moving
      cases home with
      | unshared | shared L => simp [Home.dirState] at state
      | _ => exact idle.elim
    rw [Directory.toShared, if_neg settled, ← ok.sharers]
    exact ⟨rfl, rfl, ok.locks, kept_of_state (by simp [getState])⟩

/-- `ToShared(Gnullptr)`: the owner keeps a shared copy. -/
theorem fetched (state : home.dirState = .toShared) :
    EntryOk (Directory.toShared none entry) (.shared home.sharers) locks := by
  obtain ⟨e, rfl, moving, list, rfl⟩ := ok.some_entry (by rw [state]; decide)
  rw [Directory.toShared, if_pos (moving.trans state), ← list]
  exact ⟨rfl, rfl, rfl, kept_of_state (by simp [getState])⟩

end

/-- `ToDirty` of whatever the list was. -/
theorem toDirty (table : getLocks entry = locks)
    (o : GAddr Node) : EntryOk (Directory.toDirty o entry) (.dirty o) locks := by
  subst table
  cases entry with
  | none => exact ⟨rfl, rfl, rfl, kept_of_state (by simp [Directory.toDirty, getState])⟩
  | some e => exact ⟨rfl, rfl, rfl, kept_of_state (by simp [Directory.toDirty, getState])⟩

/-- `ToUnShared` of whatever the list was. -/
theorem toUnShared (table : getLocks entry = locks) :
    EntryOk (Directory.toUnShared entry) .unshared locks := by
  subst table
  cases entry with
  | none => exact ⟨rfl, rfl, rfl, fun _ h => by cases h⟩
  | some e =>
    unfold Directory.toUnShared
    by_cases locked : e.locks.isBlockLocked = true
    · simp only [locked, if_true]
      exact ⟨rfl, rfl, rfl, kept_of_locked locked⟩
    · have free : e.locks.isBlockLocked = false := by simpa using locked
      simp only [free]
      exact ⟨rfl, rfl, (Locks.eq_empty_of_not_locked free).symm, fun _ h => by cases h⟩

theorem clear (ok : EntryOk entry home locks) (settled : home.Settled) (x : GAddr Node) :
    EntryOk (Directory.clear x entry) (home.clear x) locks := by
  -- an entry that lists nobody is the same as none
  have emptied : ∀ e : DirEntry Node, e.locks = locks →
      EntryOk (if e.locks.isBlockLocked then some { e with state := .unshared, shared := [] } else none)
        (.unshared : Home Node) locks := by
    exact fun e table => toUnShared (show getLocks (some e) = locks from table)
  cases entry with
  | none =>
    have unshared := Home.unshared_of_dirState ok.state.symm
    subst unshared
    exact ok
  | some e =>
    obtain ⟨state, shared, table, -⟩ := ok
    obtain rfl : e.locks = locks := table
    cases home with
    | unshared =>
      have notDirty : e.state ≠ .dirty := by rw [show e.state = _ from state]; simp [Home.dirState]
      have nobody : e.shared = [] := shared
      simpa [Directory.clear, notDirty, nobody, Home.clear] using emptied e rfl
    | shared L =>
      have notDirty : e.state ≠ .dirty := by rw [show e.state = _ from state]; simp [Home.dirState]
      obtain rfl : e.shared = L := shared
      simp only [Directory.clear, Home.clear]
      rw [if_neg notDirty]
      by_cases empty : (e.shared.filter fun y => decide (y ≠ x)).isEmpty = true
      · simp only [if_pos empty]
        rw [List.isEmpty_iff.mp empty]
        exact emptied e rfl
      · simp only [if_neg empty]
        have present : e.state ≠ .unshared := by rw [show e.state = _ from state]; simp [Home.dirState]
        exact ⟨state, rfl, rfl, kept_of_state present⟩
    | dirty o =>
      have state' : e.state = .dirty := state
      have owner : e.shared = [o] := shared
      simp only [Directory.clear, state', if_true, owner, List.head?_cons, Option.some.injEq,
        List.tail_cons, Home.clear]
      by_cases same : o = x
      · simpa [same] using emptied e rfl
      · simp only [if_neg same, List.isEmpty_cons, Bool.false_eq_true, if_false]
        exact ⟨rfl, rfl, rfl, kept_of_state (by simp [getState])⟩
    | _ => exact settled.elim

/-- `Remove`: an entry with nobody in its list is kept for its locks only. -/
theorem remove (ok : EntryOk entry home locks) (present : home.dirState ≠ .unshared) (n : Node) :
    getSList (Directory.remove n entry) = Home.hear home.sharers n true ∧ getLocks (Directory.remove n entry) = locks ∧
      getState (Directory.remove n entry) =
        if Home.hear home.sharers n true = [] ∧ locks.isBlockLocked = false then .unshared else home.dirState := by
  obtain ⟨e, rfl, state, list, rfl⟩ := ok.some_entry present
  have hear : Home.hear home.sharers n true = e.shared.eraseP fun a => decide (a.wid = n) := by
    rw [← list]; rfl
  rw [hear]
  by_cases last : (e.shared.eraseP fun a => decide (a.wid = n)) = [] ∧ e.locks.isBlockLocked = false
  · have gone : Directory.remove n (some e) = none := by simp [Directory.remove, last.1, last.2]
    rw [gone, if_pos last]
    exact ⟨last.1.symm, (Locks.eq_empty_of_not_locked last.2).symm, rfl⟩
  · have kept : Directory.remove n (some e) =
        some { e with shared := e.shared.eraseP fun a => decide (a.wid = n) } := by
      have : ¬ (((e.shared.eraseP fun a => decide (a.wid = n)).isEmpty && !e.locks.isBlockLocked) = true) := by
        simpa using last
      simp only [Directory.remove, this]
      rfl
    rw [kept, if_neg last]
    exact ⟨rfl, rfl, state⟩

/-- An agreement that does not empty the list. -/
theorem removed (ok : EntryOk entry home locks) (present : home.dirState ≠ .unshared) {n : Node}
    {home' : Home Node} (state : home'.dirState = home.dirState)
    (sharers : home'.sharers = Home.hear home.sharers n true) (left : home'.sharers ≠ []) :
    EntryOk (Directory.remove n entry) home' locks := by
  obtain ⟨list, table, next⟩ := ok.remove present n
  rw [if_neg fun h => left (sharers.trans h.1)] at next
  exact ⟨next.trans state.symm, list.trans sharers.symm, table, kept_of_state (by rw [next]; exact present)⟩

end EntryOk

end Gam
