import Gam.Agreement
import Gam.Labels
import Gam.Ledger

/-! Where locks can be. The tables of a block say what the locks granted and not released are, an
exclusive lock needs the only copy, and lines in transition carry no locks, except for upgrades. -/

namespace Gam

open Function
variable {Node : Type} [DecidableEq Node]
variable {outs : List (Out Node)} {t locks : Locks Node} {H : List (Hold Node)}

theorem Locks.wLocked_iff : locks.isBlockWLocked = true ↔ ∃ x, locks.lookup x = some exclusiveLockTag := by
  simp only [isBlockWLocked, List.any_eq_true, decide_eq_true_eq]
  constructor
  · rintro ⟨⟨x, k⟩, member, tag⟩
    exact ⟨x, AList.mem_lookup_iff.mpr (by rw [← tag]; exact member)⟩
  · rintro ⟨x, found⟩
    exact ⟨_, AList.mem_lookup_iff.mp found, rfl⟩

theorem Locks.locked_of_wLocked (held : locks.isBlockWLocked = true) : locks.isBlockLocked = true := by
  obtain ⟨x, found⟩ := wLocked_iff.mp held
  exact locked_of_lookup found

theorem Locks.locked_iff : locks.isBlockLocked = true ↔ ∃ x k, locks.lookup x = some k := by
  refine ⟨fun held => ?_, fun ⟨x, k, found⟩ => locked_of_lookup found⟩
  cases entries : locks.entries with
  | nil => simp [isBlockLocked, entries] at held
  | cons e rest => exact ⟨e.1, e.2, AList.mem_lookup_iff.mpr (by rw [entries]; exact List.mem_cons_self)⟩

section tally
variable {H : List (Hold Node)} {b : Block Node} {n : Node} {x : GAddr Node} {locks : Locks Node}

theorem Tally.locked_iff (tally : Tally H b n locks) :
    locks.isBlockLocked = true ↔ ∃ x, x.toBlock = b ∧ holdsAt H n x ≠ [] := by
  rw [Locks.locked_iff]
  constructor
  · rintro ⟨x, k, found⟩
    have here := tally.inside found
    refine ⟨x, here, fun none_ => ?_⟩
    rw [tally.lookup here, none_] at found
    cases found
  · rintro ⟨x, here, some_⟩
    obtain ⟨k, found⟩ := Option.ne_none_iff_exists'.mp (fun h => some_ (lockEntry_eq_none.mp h))
    exact ⟨x, k, (tally.lookup here).trans found⟩

theorem Tally.wLocked_iff (tally : Tally H b n locks) (sound : Sound H b) :
    locks.isBlockWLocked = true ↔ ∃ x, x.toBlock = b ∧ (holdsAt H n x).any Hold.exclusive = true := by
  rw [Locks.wLocked_iff]
  constructor
  · rintro ⟨x, found⟩
    have here := tally.inside found
    rw [tally.lookup here] at found
    exact ⟨x, here, (sound.tag_iff here).mp found⟩
  · rintro ⟨x, here, held⟩
    exact ⟨x, (tally.lookup here).trans ((sound.tag_iff here).mpr held)⟩

/-- An address without the exclusive tag has readers only. -/
theorem Tally.readers (tally : Tally H b n locks) (sound : Sound H b) (here : x.toBlock = b)
    (free : locks.lookup x ≠ some exclusiveLockTag) : (holdsAt H n x).any Hold.exclusive = false := by
  by_contra held
  exact free ((tally.lookup here).trans ((sound.tag_iff here).mpr (by simpa using held)))

theorem Tally.nobody (tally : Tally H b n locks) (here : x.toBlock = b) (free : locks.lookup x = none) :
    holdsAt H n x = [] :=
  lockEntry_eq_none.mp ((tally.lookup here).symm.trans free)

end tally

/-- The lock a granted request stands for. -/
def Req.hold (rq : Req Node) : Hold Node := ⟨rq.thread, rq.addr, decide (rq.op = .wlock)⟩

/-- The locks after an output. -/
def Out.book (H : List (Hold Node)) : Out Node → List (Hold Node)
  | .granted rq => rq.hold :: H
  | .released rq => dropHold rq.thread rq.addr H
  | _ => H

/-- Readers of an address are few enough to be counted, and only locks that are held are released. -/
def Out.Lawful (H : List (Hold Node)) : Out Node → Prop
  | .granted rq => rq.op = .rlock → (holdsAt H rq.thread.node rq.addr).length < 254
  | .released rq => ∃ h ∈ H, h.thread = rq.thread ∧ h.addr = rq.addr
  | _ => True

/-- The phases in which a line may carry locks. -/
def Phase.MayLock : Phase Node → Prop
  | .shared _ | .dirty _ | .miss .writePermissionOnly _ _ _ _ _ => True
  | _ => False

/-- The states in which the home may have locks. -/
def Home.MayLock : Home Node → Prop
  | .unshared | .shared _ | .invalidate _ _ _ _ _ _ => True
  | _ => False

/-- The locks `H` and the tables of a block agree, and locks are where they can be. -/
structure Booked (b : Block Node) (H : List (Hold Node)) (a : Abs Node) : Prop where
  sound : Sound H b
  worker : ∀ n, n ≠ b.wid → Tally H b n (a.locks n)
  home : Tally H b b.wid a.dirLocks
  may : ∀ n, n ≠ b.wid → (a.locks n).isBlockLocked = true → (a.phase n).MayLock
  writer : ∀ n, n ≠ b.wid → (a.locks n).isBlockWLocked = true → ∃ ptr, a.phase n = .dirty ptr
  mayHome : a.dirLocks.isBlockLocked = true → a.home.MayLock
  writerHome : a.dirLocks.isBlockWLocked = true → a.home = .unshared

namespace Booked
variable {g : Guard Node} {b : Block Node} {H H' : List (Hold Node)} {a a' : Abs Node} {n : Node}

theorem init (b : Block Node) (mem : Data) : Booked b [] (Abs.init mem) where
  sound := ⟨fun _ _ _ held => (by cases held), fun _ _ _ => (by simp [holdsAt])⟩
  worker := fun n _ x => by simp [Abs.init, holdsAt]
  home := fun x => by simp [Abs.init, holdsAt]
  may := fun n _ locked => by cases locked
  writer := fun n _ locked => by cases locked
  mayHome := fun locked => by cases locked
  writerHome := fun locked => by cases locked

theorem perm (booked : Booked b H a) (perm : H.Perm H') : Booked b H' a where
  sound := booked.sound.perm perm
  worker := fun n away => (booked.worker n away).perm perm
  home := booked.home.perm perm
  may := booked.may
  writer := booked.writer
  mayHome := booked.mayHome
  writerHome := booked.writerHome

/-- Lines that may not carry locks carry none. -/
theorem bare (booked : Booked b H a) (away : n ≠ b.wid) (bars : ¬ (a.phase n).MayLock) : a.locks n = ∅ := by
  by_contra some_
  refine bars (booked.may n away ?_)
  by_contra free
  exact some_ (Locks.eq_empty_of_not_locked (by simpa using free))

theorem bareHome (booked : Booked b H a) (bars : ¬ a.home.MayLock) : a.dirLocks = ∅ := by
  by_contra some_
  refine bars (booked.mayHome ?_)
  by_contra free
  exact some_ (Locks.eq_empty_of_not_locked (by simpa using free))

/-- No lock changes; the phases that change may have the locks that are there. -/
theorem keep (booked : Booked b H a) (locks : a'.locks = a.locks) (dirLocks : a'.dirLocks = a.dirLocks)
    (phase : ∀ n, n ≠ b.wid → a'.phase n = a.phase n ∨ ((a.locks n).isBlockLocked = true → (a'.phase n).MayLock ∧
        ((a.locks n).isBlockWLocked = true → ∃ ptr, a'.phase n = .dirty ptr)))
    (home : a'.home = a.home ∨ (a.dirLocks.isBlockLocked = true → a'.home.MayLock ∧
      (a.dirLocks.isBlockWLocked = true → a'.home = .unshared))) : Booked b H a' where
  sound := booked.sound
  worker := by rw [locks]; exact booked.worker
  home := by rw [dirLocks]; exact booked.home
  may := fun n away held => by
    rw [locks] at held
    rcases phase n away with same | moved
    · rw [same]; exact booked.may n away held
    · exact (moved held).1
  writer := fun n away held => by
    rw [locks] at held
    rcases phase n away with same | moved
    · rw [same]; exact booked.writer n away held
    · exact (moved (Locks.locked_of_wLocked held)).2 held
  mayHome := fun held => by
    rw [dirLocks] at held
    rcases home with same | moved
    · rw [same]; exact booked.mayHome held
    · exact (moved held).1
  writerHome := fun held => by
    rw [dirLocks] at held
    rcases home with same | moved
    · rw [same]; exact booked.writerHome held
    · exact (moved (Locks.locked_of_wLocked held)).2 held

/-- The table of worker `n` changes with the locks. -/
theorem lockAt (booked : Booked b H a) (away : n ≠ b.wid) (sound : Sound H' b)
    (others : ∀ m, m ≠ n → ∀ t, Tally H b m t → Tally H' b m t) (mine : Tally H' b n t)
    (locks : a'.locks = update a.locks n t) (dirLocks : a'.dirLocks = a.dirLocks)
    (home : a'.home = a.home) (phase : ∀ m, m ≠ n → a'.phase m = a.phase m)
    (may : t.isBlockLocked = true → (a'.phase n).MayLock)
    (writer : t.isBlockWLocked = true → ∃ ptr, a'.phase n = .dirty ptr) : Booked b H' a' where
  sound := sound
  worker := fun m away' => by
    rw [locks]
    by_cases same : m = n
    · subst m; rw [update_self]; exact mine
    · rw [update_of_ne same]; exact others m same _ (booked.worker m away')
  home := by rw [dirLocks]; exact others _ (Ne.symm away) _ booked.home
  may := fun m away' held => by
    rw [locks] at held
    by_cases same : m = n
    · subst m; rw [update_self] at held; exact may held
    · rw [update_of_ne same] at held
      rw [phase m same]
      exact booked.may m away' held
  writer := fun m away' held => by
    rw [locks] at held
    by_cases same : m = n
    · subst m; rw [update_self] at held; exact writer held
    · rw [update_of_ne same] at held
      rw [phase m same]
      exact booked.writer m away' held
  mayHome := by rw [dirLocks, home]; exact booked.mayHome
  writerHome := by rw [dirLocks, home]; exact booked.writerHome

/-- The table of the home changes with the locks. -/
theorem lockHome (booked : Booked b H a) (sound : Sound H' b)
    (others : ∀ m, m ≠ b.wid → ∀ t, Tally H b m t → Tally H' b m t) (mine : Tally H' b b.wid t)
    (locks : a'.locks = a.locks) (dirLocks : a'.dirLocks = t) (phase : a'.phase = a.phase)
    (may : t.isBlockLocked = true → a'.home.MayLock)
    (writer : t.isBlockWLocked = true → a'.home = .unshared) : Booked b H' a' where
  sound := sound
  worker := fun m away => by rw [locks]; exact others m away _ (booked.worker m away)
  home := by rw [dirLocks]; exact mine
  may := by rw [locks, phase]; exact booked.may
  writer := by rw [locks, phase]; exact booked.writer
  mayHome := by rw [dirLocks]; exact may
  writerHome := by rw [dirLocks]; exact writer

section grant
variable {rq : Req Node}

theorem grant_others (node : rq.thread.node = n) : ∀ m, m ≠ n → ∀ t, Tally H b m t → Tally (rq.hold :: H) b m t :=
  fun m other _ tally => tally.grant_other fun same => absurd (same.symm.trans node) other

theorem any_hold (reader : rq.op = .rlock) {x : GAddr Node}
    (held : (holdsAt (rq.hold :: H) n x).any Hold.exclusive = true) : (holdsAt H n x).any Hold.exclusive = true := by
  rw [holdsAt_cons] at held
  split at held
  · simpa [Req.hold, reader] using held
  · exact held

/-- A read lock at a line. -/
theorem share (booked : Booked b H a) (away : n ≠ b.wid) (node : rq.thread.node = n)
    (here : rq.addr.toBlock = b) (op : rq.op = .rlock) (room : (holdsAt H rq.thread.node rq.addr).length < 254)
    (free : Cache.isWLocked rq.addr (a.locks n) = false)
    (locks : a'.locks = update a.locks n (Locks.share rq.addr (a.locks n)))
    (dirLocks : a'.dirLocks = a.dirLocks) (home : a'.home = a.home)
    (phase : ∀ m, m ≠ n → a'.phase m = a.phase m) (may : (a'.phase n).MayLock)
    (writer : (a.locks n).isBlockWLocked = true → ∃ ptr, a'.phase n = .dirty ptr) : Booked b (rq.hold :: H) a' := by
  subst node
  have tally := booked.worker _ away
  have readers := tally.readers booked.sound here (by simpa [Cache.isWLocked] using free)
  have sound : Sound (rq.hold :: H) b :=
    booked.sound.share (h := rq.hold) (by simp [Req.hold, op]) readers room
  have mine : Tally (rq.hold :: H) b rq.thread.node (Locks.share rq.addr (a.locks rq.thread.node)) :=
    tally.share (h := rq.hold) here (by simp [Req.hold, op]) readers
  refine booked.lockAt away sound (grant_others rfl) mine locks dirLocks home phase (fun _ => may) fun held => ?_
  obtain ⟨x, inside, exclusive⟩ := (mine.wLocked_iff sound).mp held
  exact writer ((tally.wLocked_iff booked.sound).mpr ⟨x, inside, any_hold op exclusive⟩)

/-- A write lock at a line. -/
theorem exclude (booked : Booked b H a) (away : n ≠ b.wid) (node : rq.thread.node = n)
    (here : rq.addr.toBlock = b) (op : rq.op = .wlock)
    (free : Cache.isWLocked rq.addr (a.locks n) = false) (free' : Cache.isRLocked rq.addr (a.locks n) = false)
    (locks : a'.locks = update a.locks n (Locks.exclude rq.addr (a.locks n)))
    (dirLocks : a'.dirLocks = a.dirLocks) (home : a'.home = a.home)
    (phase : ∀ m, m ≠ n → a'.phase m = a.phase m) {ptr : Nat} (dirty : a'.phase n = .dirty ptr) :
    Booked b (rq.hold :: H) a' := by
  subst node
  have tally := booked.worker _ away
  have none_ : (a.locks rq.thread.node).lookup rq.addr = none := by
    cases found : (a.locks rq.thread.node).lookup rq.addr with
    | none => rfl
    | some k =>
      have tag : k ≠ exclusiveLockTag := by simpa [Cache.isWLocked, found] using free
      simp [Cache.isRLocked, found, tag] at free'
  have sound : Sound (rq.hold :: H) b := booked.sound.exclude (h := rq.hold) (tally.nobody here none_)
  have mine : Tally (rq.hold :: H) b rq.thread.node (Locks.exclude rq.addr (a.locks rq.thread.node)) :=
    tally.exclude (h := rq.hold) here (by simp [Req.hold, op])
  exact booked.lockAt away sound (grant_others rfl) mine locks dirLocks home phase
    (fun _ => by rw [dirty]; trivial) fun _ => ⟨ptr, dirty⟩

/-- A read lock at the home. -/
theorem shareHome (booked : Booked b H a) (node : rq.thread.node = b.wid) (here : rq.addr.toBlock = b)
    (op : rq.op = .rlock) (room : (holdsAt H rq.thread.node rq.addr).length < 254)
    (free : a.dirLocks.lookup rq.addr ≠ some exclusiveLockTag) (locks : a'.locks = a.locks)
    (dirLocks : a'.dirLocks = Locks.share rq.addr a.dirLocks) (phase : a'.phase = a.phase)
    (may : a'.home.MayLock) (writer : a.dirLocks.isBlockWLocked = true → a'.home = .unshared) :
    Booked b (rq.hold :: H) a' := by
  have tally := booked.home
  rw [← node] at tally
  have readers := tally.readers booked.sound here free
  have sound : Sound (rq.hold :: H) b :=
    booked.sound.share (h := rq.hold) (by simp [Req.hold, op]) readers room
  have mine : Tally (rq.hold :: H) b b.wid (Locks.share rq.addr a.dirLocks) := by
    rw [← node]
    exact tally.share (h := rq.hold) here (by simp [Req.hold, op]) readers
  refine booked.lockHome sound (grant_others node) mine locks dirLocks phase (fun _ => may) fun held => ?_
  obtain ⟨x, inside, exclusive⟩ := (mine.wLocked_iff sound).mp held
  exact writer ((booked.home.wLocked_iff booked.sound).mpr ⟨x, inside, any_hold op exclusive⟩)

/-- A write lock at the home. -/
theorem excludeHome (booked : Booked b H a) (node : rq.thread.node = b.wid) (here : rq.addr.toBlock = b)
    (op : rq.op = .wlock) (free : ∀ k, a.dirLocks.lookup rq.addr = some k → k ≤ 0) (locks : a'.locks = a.locks)
    (dirLocks : a'.dirLocks = Locks.exclude rq.addr a.dirLocks) (phase : a'.phase = a.phase)
    (unshared : a'.home = .unshared) : Booked b (rq.hold :: H) a' := by
  have tally := booked.home
  rw [← node] at tally
  have none_ : a.dirLocks.lookup rq.addr = none := by
    cases found : a.dirLocks.lookup rq.addr with
    | none => rfl
    | some k =>
      have positive := tally.positive found
      have := free k found
      omega
  have sound : Sound (rq.hold :: H) b := booked.sound.exclude (h := rq.hold) (tally.nobody here none_)
  have mine : Tally (rq.hold :: H) b b.wid (Locks.exclude rq.addr a.dirLocks) := by
    rw [← node]
    exact tally.exclude (h := rq.hold) here (by simp [Req.hold, op])
  exact booked.lockHome sound (grant_others node) mine locks dirLocks phase
    (fun _ => by rw [unshared]; trivial) fun _ => unshared

end grant

section release
variable {rq : Req Node}

theorem release_others (node : rq.thread.node = n) :
    ∀ m, m ≠ n → ∀ t, Tally H b m t → Tally (dropHold rq.thread rq.addr H) b m t :=
  fun m other _ tally => tally.release_other fun same => absurd (same.symm.trans node) other

theorem dropHold_subset (n : Node) (x : GAddr Node) :
    (holdsAt (dropHold rq.thread rq.addr H) n x).Sublist (holdsAt H n x) :=
  List.eraseP_sublist.filter _

/-- Fewer locks than before. -/
theorem locked_of_dropHold {t t' : Locks Node} (tally : Tally H b n t)
    (tally' : Tally (dropHold rq.thread rq.addr H) b n t') (held : t'.isBlockLocked = true) :
    t.isBlockLocked = true := by
  obtain ⟨x, inside, some_⟩ := tally'.locked_iff.mp held
  refine tally.locked_iff.mpr ⟨x, inside, fun none_ => some_ ?_⟩
  have fewer : (holdsAt (dropHold rq.thread rq.addr H) n x).Sublist (holdsAt H n x) := dropHold_subset n x
  rw [none_] at fewer
  exact List.sublist_nil.mp fewer

theorem wLocked_of_dropHold {t t' : Locks Node} (sound : Sound H b) (tally : Tally H b n t)
    (tally' : Tally (dropHold rq.thread rq.addr H) b n t') (held : t'.isBlockWLocked = true) :
    t.isBlockWLocked = true := by
  obtain ⟨x, inside, exclusive⟩ := (tally'.wLocked_iff sound.release).mp held
  refine (tally.wLocked_iff sound).mpr ⟨x, inside, ?_⟩
  obtain ⟨h, member, mine⟩ := List.any_eq_true.mp exclusive
  exact List.any_eq_true.mpr ⟨h, (dropHold_subset n x).subset member, mine⟩

/-- `UnLock` at a line. -/
theorem unLock (booked : Booked b H a) (away : n ≠ b.wid) (node : rq.thread.node = n)
    (here : rq.addr.toBlock = b) (held : ∃ h ∈ H, h.thread = rq.thread ∧ h.addr = rq.addr) :
    Booked b (dropHold rq.thread rq.addr H) (a.setLocks n (Cache.releaseLock rq.addr (a.locks n))) := by
  subst node
  have tally := booked.worker _ away
  have mine := tally.release booked.sound here held
  exact booked.lockAt away booked.sound.release (release_others rfl) mine rfl rfl rfl (fun _ _ => rfl)
    (fun locked => booked.may _ away (locked_of_dropHold tally mine locked))
    fun locked => booked.writer _ away (wLocked_of_dropHold booked.sound tally mine locked)

/-- `UnLock` at the home. -/
theorem unLockHome (booked : Booked b H a) (node : rq.thread.node = b.wid)
    (here : rq.addr.toBlock = b) (held : ∃ h ∈ H, h.thread = rq.thread ∧ h.addr = rq.addr) :
    Booked b (dropHold rq.thread rq.addr H)
      (a.setDirLocks (Directory.releaseLock rq.addr ⟨a.home.dirState, a.home.sharers, a.dirLocks⟩)) := by
  have tally := booked.home
  have mine : Tally (dropHold rq.thread rq.addr H) b b.wid
      (Directory.releaseLock rq.addr ⟨a.home.dirState, a.home.sharers, a.dirLocks⟩) := by
    rw [← node] at tally ⊢
    refine tally.releaseHome (e := ⟨a.home.dirState, a.home.sharers, a.dirLocks⟩) booked.sound here held ?_
    intro tag
    have unshared : a.home = .unshared := booked.writerHome (Locks.wLocked_iff.mpr ⟨_, tag⟩)
    change a.home.dirState = .unshared
    rw [unshared]
    rfl
  exact booked.lockHome booked.sound.release (release_others node) mine rfl rfl rfl
    (fun locked => booked.mayHome (locked_of_dropHold tally mine locked))
    fun locked => booked.writerHome (wLocked_of_dropHold booked.sound tally mine locked)

/-- A lock that is held is in the table. -/
theorem held_locked (tally : Tally H b rq.thread.node t) (here : rq.addr.toBlock = b)
    (held : ∃ h ∈ H, h.thread = rq.thread ∧ h.addr = rq.addr) : t.isBlockLocked = true := by
  obtain ⟨h, member, thread, addr⟩ := held
  refine tally.locked_iff.mpr ⟨rq.addr, here, fun none_ => ?_⟩
  have found : h ∈ holdsAt H rq.thread.node rq.addr :=
    List.mem_filter.mpr ⟨member, by simp [Hold.isAt, thread, addr]⟩
  rw [none_] at found
  cases found

end release

/-- The tables are empty anyway when a line goes away. -/
theorem locks_bare (booked : Booked b H a) (away : n ≠ b.wid) (bars : ¬ (a.phase n).MayLock) :
    update a.locks n ∅ = a.locks := by
  rw [← booked.bare away bars, update_eq_self]

theorem unlocked_of_bare (bare : t = ∅) {P : Prop} (held : t.isBlockLocked = true) : P := by
  rw [bare] at held
  cases held

end Booked

namespace Booked
variable {g : Guard Node} {b : Block Node} {H H' : List (Hold Node)} {a a' : Abs Node} {n : Node}

section
variable (booked : Booked b H a)
include booked

/-- Only one phase changes, to one that may have the locks that are there. -/
theorem move {ph : Phase Node} (locks : a'.locks = a.locks)
    (dirLocks : a'.dirLocks = a.dirLocks) (home : a'.home = a.home) (phase : a'.phase = update a.phase n ph)
    (fine : n ≠ b.wid → (a.locks n).isBlockLocked = true →
      ph.MayLock ∧ ((a.locks n).isBlockWLocked = true → ∃ ptr, ph = .dirty ptr)) : Booked b H a' := by
  refine booked.keep locks dirLocks (fun m away => ?_) (Or.inl home)
  rw [phase]
  by_cases same : m = n
  · subst m
    rw [update_self]
    exact Or.inr (fine away)
  · rw [update_of_ne same]
    exact Or.inl rfl

/-- The home changes, and with it the request it serves. -/
theorem serve {c : Node} {op : AccessOp} {ptr id : Nat} {flag : Flag} {rq : Req Node}
    {stage stage' : Stage Node} (before : a.phase c = .miss op ptr id flag rq stage)
    (locks : a'.locks = a.locks) (dirLocks : a'.dirLocks = a.dirLocks)
    (phase : a'.phase = update a.phase c (.miss op ptr id flag rq stage'))
    (home : a'.home = a.home ∨ (a.dirLocks.isBlockLocked = true → a'.home.MayLock ∧
      (a.dirLocks.isBlockWLocked = true → a'.home = .unshared))) : Booked b H a' := by
  refine booked.keep locks dirLocks (fun m away => ?_) home
  rw [phase]
  by_cases same : m = c
  · subst m
    rw [update_self]
    refine Or.inr fun held => ?_
    have may := booked.may c away held
    rw [before] at may
    refine ⟨by cases op <;> exact may, fun writer => ?_⟩
    obtain ⟨p, dirty⟩ := booked.writer c away writer
    rw [before] at dirty
    cases dirty
  · rw [update_of_ne same]
    exact Or.inl rfl

/-- A write of the home is done; it may be the lock that is granted. -/
theorem homeWritten {rq : Req Node} {flag : Flag}
    (flagged : flag = rq.flag) (kind : rq.Writes) (node : rq.thread.node = b.wid)
    (here : rq.op = .wlock → rq.addr.toBlock = b) (unshared : a.home = .unshared)
    (written : Abs.HomeWritten b rq flag a outs a') : Booked b (outs.foldl Out.book H) a' := by
  cases written with
  | applied unlocked => exact booked.keep rfl rfl (fun _ _ => Or.inl rfl) (Or.inl rfl)
  | granted locked free =>
    have op := Req.op_of_writes kind (by rw [← flagged]; exact locked)
    exact booked.excludeHome node (here op) op free rfl rfl rfl unshared
  | waits locked k held positive => exact booked

/-- A worker agrees to an invalidation. -/
theorem invalidated {ph : Phase Node} (gives : Abs.Invalidated g a n ph)
    (locks : a'.locks = a.locks) (dirLocks : a'.dirLocks = a.dirLocks) (phase : a'.phase = update a.phase n ph)
    (home : a.dirLocks.isBlockLocked = true → a'.home.MayLock ∧
      (a.dirLocks.isBlockWLocked = true → a'.home = .unshared)) : Booked b H a' := by
  refine booked.keep locks dirLocks (fun m away => ?_) (Or.inr home)
  rw [phase]
  by_cases same : m = n
  · subst m
    rw [update_self]
    cases gives with
    | drops ptr before unlocked =>
      refine Or.inr fun held => ?_
      rw [unlocked] at held
      cases held
    | lacks ai before => exact Or.inl before.symm
    | evicts ptr id before => exact Or.inl before.symm
    | writes op ptr id flag rq stage before => exact Or.inl before.symm
  · rw [update_of_ne same]
    exact Or.inl rfl

/-- The home goes on from a state without locks. -/
theorem fromBare (bars : ¬ a.home.MayLock) {home : Home Node} : a.dirLocks.isBlockLocked = true → home.MayLock ∧
      (a.dirLocks.isBlockWLocked = true → home = .unshared) :=
  fun held => unlocked_of_bare (booked.bareHome bars) held

theorem clear (x : GAddr Node) : a.home.clear x = a.home ∨ (a.dirLocks.isBlockLocked = true → (a.home.clear x).MayLock ∧
      (a.dirLocks.isBlockWLocked = true → a.home.clear x = .unshared)) := by
  cases home : a.home with
  | shared L =>
    refine Or.inr fun _ => ⟨?_, fun writer => ?_⟩
    · simp only [Home.clear]
      split <;> trivial
    · have unshared := booked.writerHome writer
      rw [home] at unshared
      cases unshared
  | dirty o => exact Or.inr (fun held => unlocked_of_bare (booked.bareHome (by rw [home]; exact id)) held)
  | _ => exact Or.inl rfl

/-- Every step keeps the books. -/
theorem step (inv : Consistent b a) (carried : Carried g b a) (mine : ∀ n rq, g.req n rq → rq.thread.node = n ∧
      (rq.op = .rlock ∨ rq.op = .wlock ∨ rq.op = .unlock → rq.addr.toBlock = b))
    (lawful : ∀ o ∈ outs, o.Lawful H) (step : Abs.Step g b a outs a') : Booked b (outs.foldl Out.book H) a' := by
  -- a line that is not dirty has no exclusive lock
  have notWriter : ∀ {m : Node}, m ≠ b.wid → (∀ ptr, a.phase m ≠ .dirty ptr) → ∀ {P : Prop},
      (a.locks m).isBlockWLocked = true → P := by
    intro m away other P held
    obtain ⟨ptr, dirty⟩ := booked.writer m away held
    exact absurd dirty (other ptr)
  have bareAt : ∀ {m : Node}, m ≠ b.wid → ¬ (a.phase m).MayLock → ∀ {P : Prop},
      (a.locks m).isBlockLocked = true → P := fun away bars _ held => unlocked_of_bare (booked.bare away bars) held
  have keeps : ∀ {o : GAddr Node} {ph : Phase Node},
      (a.phase o.wid = .dirty o.off ∧ ph = .shared o.off) ∨
        (∃ id', a.phase o.wid = .evicting o.off id') ∧ ph = a.phase o.wid →
      (a.locks o.wid).isBlockWLocked = false → o.wid ≠ b.wid → (a.locks o.wid).isBlockLocked = true →
      ph.MayLock ∧ ((a.locks o.wid).isBlockWLocked = true → ∃ ptr, ph = .dirty ptr) := by
    rintro o ph (⟨-, rfl⟩ | ⟨⟨id', evicting⟩, same⟩) unlocked away held
    · exact ⟨trivial, fun writer => by rw [unlocked] at writer; cases writer⟩
    · exact bareAt away (by rw [evicting]; exact id) held
  have gives : ∀ {o : GAddr Node} {ph : Phase Node} {newId : Nat} {flag : Flag},
      (a.phase o.wid = .dirty o.off ∧ (a.locks o.wid).isBlockLocked = false ∧ ph = .leaving o.off newId flag) ∨
        (∃ id', a.phase o.wid = .evicting o.off id') ∧ ph = a.phase o.wid →
      o.wid ≠ b.wid → (a.locks o.wid).isBlockLocked = true →
      ph.MayLock ∧ ((a.locks o.wid).isBlockWLocked = true → ∃ ptr, ph = .dirty ptr) := by
    rintro o ph newId flag (⟨-, unlocked, -⟩ | ⟨⟨id', evicting⟩, same⟩) away held
    · rw [unlocked] at held; cases held
    · exact bareAt away (by rw [evicting]; exact id) held
  cases step with
  -- locks at a line
  | rLockHit n rq away valid op stable free =>
    obtain ⟨node, here⟩ := mine n rq valid
    refine booked.share away node (here (Or.inl op)) op (lawful _ List.mem_cons_self op) free rfl rfl rfl
      (fun _ _ => rfl) ?_ (booked.writer n away)
    change (a.phase n).MayLock
    cases phase : a.phase n with
    | shared | dirty => trivial
    | _ => rw [phase] at stable; exact stable.elim
  | wLockHit n rq away valid op ptr phase free free' =>
    obtain ⟨node, here⟩ := mine n rq valid
    exact booked.exclude away node (here (Or.inr (Or.inl op))) op free free' rfl rfl rfl (fun _ _ => rfl) phase
  | unLock n rq away valid op cached =>
    obtain ⟨node, here⟩ := mine n rq valid
    exact booked.unLock away node (here (Or.inr (Or.inr op))) (lawful (.released rq) List.mem_cons_self)
  | unLockNothing n rq valid op nothing =>
    obtain ⟨rfl, here⟩ := mine n rq valid
    have held := lawful (.released rq) List.mem_cons_self
    exfalso
    by_cases atHome : rq.thread.node = b.wid
    · rw [if_pos atHome] at nothing
      have locked := held_locked (by rw [atHome]; exact booked.home) (here (Or.inr (Or.inr op))) held
      exact unlocked_of_bare nothing locked
    · rw [if_neg atHome] at nothing
      have locked := held_locked (booked.worker _ atHome) (here (Or.inr (Or.inr op))) held
      refine bareAt atHome (fun may => nothing ?_) locked
      cases phase : a.phase rq.thread.node with
      | absent ai => rw [phase] at may; exact may
      | _ => trivial
  | rLockDone n rq away op ptr id flag stage phase answer locked free landed =>
    obtain ⟨valid, flagged, kind⟩ := carried.miss n op flag rq (by rw [phase]; rfl)
    obtain rfl := inv.readAnswer_op away phase answer
    have rlock := Req.op_of_reads (by simpa using kind) (by rw [← flagged]; exact locked)
    obtain ⟨node, here⟩ := mine n rq valid
    refine booked.share away node (here (Or.inl rlock)) rlock (lawful (.granted rq) List.mem_cons_self rlock) free
      rfl rfl rfl (fun m other => by simp [other]) (by simp [Phase.MayLock]) fun writer => ?_
    exact notWriter away (by simp [phase]) writer
  | rLockLost n rq away op ptr id flag stage phase answer locked taken landed =>
    obtain rfl := inv.readAnswer_op away phase answer
    exact bareAt away (by rw [phase]; exact fun h => h) (Cache.locked_of_isWLocked taken)
  | wLockDone n rq away op ptr id flag stage phase answer locked free free' landed =>
    obtain ⟨valid, flagged, kind⟩ := carried.miss n op flag rq (by rw [phase]; rfl)
    have wlock := Req.op_of_writes (by simpa [inv.lastAnswer_op away phase answer] using kind)
      (by rw [← flagged]; exact locked)
    obtain ⟨node, here⟩ := mine n rq valid
    exact booked.exclude away node (here (Or.inr (Or.inl wlock))) wlock free free' rfl rfl rfl
      (fun m other => by simp [other]) (show _ = Phase.dirty ptr by simp)
  -- locks at the home
  | homeRLock rq valid op idle free =>
    obtain ⟨node, here⟩ := mine _ rq valid
    refine booked.shareHome node (here (Or.inl op)) op (lawful _ List.mem_cons_self op) ?_ rfl rfl rfl ?_
      booked.writerHome
    · intro tag
      exact free (booked.writerHome (Locks.wLocked_iff.mpr ⟨_, tag⟩)) tag
    · change a.home.MayLock
      cases home : a.home with
      | unshared | shared => trivial
      | _ => rw [home] at idle; exact idle.elim
  | homeWLock rq valid op unshared free =>
    obtain ⟨node, here⟩ := mine _ rq valid
    exact booked.excludeHome node (here (Or.inr (Or.inl op))) op free rfl rfl rfl unshared
  | homeUnLock rq valid op =>
    obtain ⟨node, here⟩ := mine _ rq valid
    exact booked.unLockHome node (here (Or.inr (Or.inr op))) (lawful (.released rq) List.mem_cons_self)
  | fetchLockDone rq id flag o home locked =>
    obtain ⟨valid, flagged, kind⟩ := carried.home true flag rq (by rw [home]; rfl)
    have rlock := Req.op_of_reads (by simpa using kind) (by rw [← flagged]; exact locked)
    obtain ⟨node, here⟩ := mine _ rq valid
    have none_ : a.dirLocks = ∅ := booked.bareHome (by rw [home]; exact fun h => h)
    refine booked.shareHome node (here (Or.inl rlock)) rlock (lawful (.granted rq) List.mem_cons_self rlock) ?_
      rfl rfl rfl trivial fun writer => unlocked_of_bare none_ (Locks.locked_of_wLocked writer)
    rw [none_]
    simp
  | takeDone rq id flag o outs a' home written =>
    obtain ⟨valid, flagged, kind⟩ := carried.home false flag rq (by rw [home]; rfl)
    obtain ⟨node, here⟩ := mine _ rq valid
    have moved : Booked b H (a.setHome .unshared) :=
      booked.keep rfl rfl (fun _ _ => Or.inl rfl) (Or.inr fun _ => ⟨trivial, fun _ => rfl⟩)
    exact moved.homeWritten flagged (by simpa using kind) node (fun op => here (Or.inr (Or.inl op))) rfl written
  | invalidateDone rq id flag L answer n outs a' home acked last written =>
    obtain ⟨valid, flagged, kind⟩ := carried.home false flag rq (by rw [home]; rfl)
    obtain ⟨node, here⟩ := mine _ rq valid
    have moved : Booked b H (a.setHome .unshared) :=
      booked.keep rfl rfl (fun _ _ => Or.inl rfl) (Or.inr fun _ => ⟨trivial, fun _ => rfl⟩)
    exact moved.homeWritten flagged (by simpa using kind) node (fun op => here (Or.inr (Or.inl op))) rfl written
  -- lines come and go
  | miss n rq away valid op ptr id d ai phase fetch kind =>
    exact booked.move rfl rfl rfl rfl fun _ => bareAt away (by rw [phase]; exact fun h => h)
  | upgrade n rq away valid ptr id d phase kind data =>
    exact booked.move rfl rfl rfl rfl fun _ _ => ⟨trivial, notWriter away (by simp [phase])⟩
  | evictShared n away ptr phase unlocked | evictDirty n away ptr id phase unlocked =>
    refine booked.move rfl rfl rfl rfl fun _ held => ?_
    rw [unlocked] at held
    cases held
  | readDone n rq away op ptr id flag stage phase answer unlocked landed =>
    exact booked.move rfl rfl rfl rfl fun _ _ => ⟨trivial, notWriter away (by simp [phase])⟩
  | writeDone n rq away op ptr id flag stage phase answer unlocked landed
  | wLockWaits n rq away op ptr id flag stage phase answer locked held landed =>
    exact booked.move rfl rfl rfl rfl fun _ _ => ⟨trivial, fun _ => ⟨ptr, rfl⟩⟩
  | undoUpgrade n rq away ptr id flag stage phase answer allowed =>
    exact booked.move rfl rfl rfl rfl fun _ _ => ⟨trivial, notWriter away (by simp [phase])⟩
  | readFailed n rq away op ptr id flag stage phase answer =>
    obtain rfl := inv.readAnswer_op away phase answer
    have bars : ¬ (a.phase n).MayLock := by rw [phase]; exact fun h => h
    exact booked.move (booked.locks_bare away bars) rfl rfl rfl fun _ => bareAt away bars
  | writeFailed n rq away ptr id flag stage phase answer =>
    have bars : ¬ (a.phase n).MayLock := by rw [phase]; exact fun h => h
    exact booked.move (booked.locks_bare away bars) rfl rfl rfl fun _ => bareAt away bars
  | gone n away ptr id phase =>
    have bars : ¬ (a.phase n).MayLock := by
      rcases phase with phase | ⟨flag, phase⟩ <;> rw [phase] <;> exact fun h => h
    exact booked.move (booked.locks_bare away bars) rfl rfl rfl fun _ => bareAt away bars
  | ownerAnswer n away op ptr id flag rq o ok home early phase
  | homeAnswer n away op ptr id flag rq o ok phase =>
    exact booked.serve phase rfl rfl rfl (Or.inl rfl)
  -- the home begins something for itself
  | fetchShared rq valid kind id o dirty | fetchInvalidate rq valid kind id o dirty =>
    exact booked.keep rfl rfl (fun _ _ => Or.inl rfl)
      (Or.inr (booked.fromBare (by rw [dirty]; exact fun h => h)))
  | invalidate rq valid kind id L shared =>
    refine booked.keep rfl rfl (fun _ _ => Or.inl rfl) (Or.inr fun _ => ⟨trivial, fun writer => ?_⟩)
    have unshared := booked.writerHome writer
    rw [shared] at unshared
    cases unshared
  -- the home serves a request
  | readRefused c away ptr id flag rq phase idle tried
  | writeRefused c away op ptr id flag rq phase write idle tried =>
    exact booked.serve phase rfl rfl rfl (Or.inl rfl)
  | readServed c away ptr id flag rq phase idle unlocked =>
    refine booked.serve phase rfl rfl rfl (Or.inr fun _ => ⟨trivial, fun writer => ?_⟩)
    rw [unlocked] at writer
    cases writer
  | writeGranted c away op ptr id flag rq phase write unshared unlocked =>
    refine booked.serve phase rfl rfl rfl (Or.inr fun held => ?_)
    rw [unlocked] at held
    cases held
  | upgradeGranted c away op ptr id flag rq L phase write shared only unlocked =>
    refine booked.serve phase rfl rfl rfl (Or.inr fun held => ?_)
    rw [unlocked] at held
    cases held
  | writeInvalidates c away op ptr id flag rq newId L phase write shared others unlocked =>
    refine booked.serve phase rfl rfl rfl (Or.inr fun held => ?_)
    rw [unlocked] at held
    cases held
  | readForwarded c away ptr id flag rq newId o phase dirty
  | writeForwarded c away op ptr id flag rq newId o phase write dirty =>
    exact booked.serve phase rfl rfl rfl (Or.inr (booked.fromBare (by rw [dirty]; exact fun h => h)))
  | dropped c away ptr settled phase =>
    refine booked.keep rfl rfl (fun m away' => ?_) (booked.clear _)
    by_cases same : m = c
    · subst m
      exact Or.inr (bareAt away (by rw [phase]; exact fun h => h))
    · exact Or.inl (by simp [same])
  | droppedFirst c away ptr settled op ptr' id flag rq phase =>
    exact booked.serve phase rfl rfl rfl (booked.clear _)
  | writtenBack c away ptr id settled phase =>
    refine booked.keep rfl rfl (fun m away' => ?_) (booked.clear _)
    by_cases same : m = c
    · subst m
      exact Or.inr (bareAt away (by rw [phase]; exact fun h => h))
    · exact Or.inl (by simp [same])
  -- the owner answers
  | fetchRefused rq id flag o tried home | takeRefused rq id flag o tried home =>
    exact booked.keep rfl rfl (fun _ _ => Or.inl rfl)
      (Or.inr (booked.fromBare (by rw [home]; exact fun h => h)))
  | readForwardRefused r id flag o tried home rq phase
  | writeForwardRefused r id flag o tried home rq phase =>
    exact booked.serve phase rfl rfl rfl (Or.inr (booked.fromBare (by rw [home]; exact fun h => h)))
  | fetched rq id flag o ph home h unlocked =>
    have moved : Booked b H (a.setPhase o.wid ph) := booked.move rfl rfl rfl rfl (keeps h unlocked)
    exact moved.keep rfl rfl (fun _ _ => Or.inl rfl)
      (Or.inr (moved.fromBare (by change ¬ a.home.MayLock; rw [home]; exact fun h => h)))
  | taken rq id flag o ph newId home h =>
    have moved : Booked b H (a.setPhase o.wid ph) := booked.move rfl rfl rfl rfl (gives h)
    exact moved.keep rfl rfl (fun _ _ => Or.inl rfl)
      (Or.inr (moved.fromBare (by change ¬ a.home.MayLock; rw [home]; exact fun h => h)))
  | readForwardAnswered r id flag o ph home rq phase h unlocked =>
    have moved : Booked b H (a.setPhase o.wid ph) := booked.move rfl rfl rfl rfl (keeps h unlocked)
    have formed := inv.home
    rw [home] at formed
    exact moved.serve (by simpa [formed.2.2.1] using phase) rfl rfl rfl
      (Or.inr (moved.fromBare (by change ¬ a.home.MayLock; rw [home]; exact fun h => h)))
  | writeForwardAnswered r id flag o ph newId home rq phase h =>
    have moved : Booked b H (a.setPhase o.wid ph) := booked.move rfl rfl rfl rfl (gives h)
    have formed := inv.home
    rw [home] at formed
    exact moved.serve (by simpa [formed.2.2.1] using phase) rfl rfl rfl
      (Or.inr (moved.fromBare (by change ¬ a.home.MayLock; rw [home]; exact fun h => h)))
  -- the home hears the owner
  | fetchDone rq id flag o home | fetchFailed rq id flag o home | readForwardDone r id flag o home
  | readForwardFailed r id flag o home | takeFailed rq id flag o home =>
    exact booked.keep rfl rfl (fun _ _ => Or.inl rfl)
      (Or.inr (booked.fromBare (by rw [home]; exact fun h => h)))
  | writeForwardDone r id flag o ok got rq home phase =>
    exact booked.serve phase rfl rfl rfl (Or.inr (booked.fromBare (by rw [home]; exact fun h => h)))
  -- invalidation rounds
  | invalidated rq id flag L answer status n ph home asked h =>
    refine booked.invalidated h rfl rfl rfl fun _ => ⟨trivial, fun writer => ?_⟩
    have unshared := booked.writerHome writer
    rw [home] at unshared
    cases unshared
  | invalidatedForward r id flag L answer status n ph home asked h =>
    exact booked.invalidated h rfl rfl rfl (booked.fromBare (by rw [home]; exact fun h => h))
  | invalidateRefused rq id flag L answer status n home
  | invalidateHeard rq id flag L answer status n ok home
  | invalidateFailed rq id flag L answer status n ok home =>
    refine booked.keep rfl rfl (fun _ _ => Or.inl rfl) (Or.inr fun _ => ⟨trivial, fun writer => ?_⟩)
    have unshared := booked.writerHome writer
    rw [home] at unshared
    cases unshared
  | invalidateForwardRefused r id flag L answer status n home
  | invalidateForwardHeard r id flag L answer status n ok home =>
    exact booked.keep rfl rfl (fun _ _ => Or.inl rfl)
      (Or.inr (booked.fromBare (by rw [home]; exact fun h => h)))
  | invalidateForwardDone r id flag L answer n rq home acked last phase
  | invalidateForwardFailed r id flag L answer status n ok rq home acked last failed phase =>
    exact booked.serve phase rfl rfl rfl (Or.inr (booked.fromBare (by rw [home]; exact fun h => h)))
  -- nothing about locks
  | readHit | readUpgrading | writeHit | refused | postponed | land | homeRead | homeWrite =>
    exact booked.keep rfl rfl (fun _ _ => Or.inl rfl) (Or.inl rfl)

/-- A lock of another block is granted. -/
theorem grant_elsewhere {h : Hold Node} (other : h.addr.toBlock ≠ b) : Booked b (h :: H) a where
  sound := by
    have same : ∀ n x, x.toBlock = b → holdsAt (h :: H) n x = holdsAt H n x := fun n x here =>
      holdsAt_cons_other fun at_ => other (by rw [at_.2]; exact here)
    refine ⟨fun n x here => ?_, fun n x here => ?_⟩
    · rw [same n x here]; exact booked.sound.sole n x here
    · rw [same n x here]; exact booked.sound.few n x here
  worker := fun n away => (booked.worker n away).grant_other fun _ => other
  home := booked.home.grant_other fun _ => other
  may := booked.may
  writer := booked.writer
  mayHome := booked.mayHome
  writerHome := booked.writerHome

/-- A lock of another block is released. -/
theorem release_elsewhere {th : Thread Node} {x : GAddr Node} (other : x.toBlock ≠ b) :
    Booked b (dropHold th x H) a where
  sound := booked.sound.release
  worker := fun n away => (booked.worker n away).release_other fun _ => other
  home := booked.home.release_other fun _ => other
  may := booked.may
  writer := booked.writer
  mayHome := booked.mayHome
  writerHome := booked.writerHome

end

end Booked

/-- Does the output change the locks? -/
def Out.isBooking : Out Node → Bool
  | .granted _ | .released _ => true
  | _ => false

theorem Out.book_other {o : Out Node} (other : o.isBooking = false) : o.book H = H ∧ o.Lawful H := by
  cases o <;> first | exact ⟨rfl, trivial⟩ | cases other

theorem foldl_book_other (none_ : outs.countP Out.isBooking = 0) : outs.foldl Out.book H = H := by
  induction outs with
  | nil => rfl
  | cons o outs ih =>
    rw [List.countP_cons] at none_
    have other : o.isBooking = false := by
      by_contra books
      simp [books] at none_
    rw [List.foldl_cons, (Out.book_other other).1]
    exact ih (by omega)

/-- A run with one change of the locks at most. -/
theorem Booked.run {g : Guard Node} {b : Block Node} {a a' : Abs Node}
    (booked : Booked b H a) (inv : Consistent b a) (carried : Carried g b a)
    (mine : ∀ n rq, g.req n rq → rq.thread.node = n ∧
      (rq.op = .rlock ∨ rq.op = .wlock ∨ rq.op = .unlock → rq.addr.toBlock = b))
    (run : Lts.Run (Abs.Step g b) a outs a') (one : outs.countP Out.isBooking ≤ 1)
    (lawful : ∀ o ∈ outs, o.Lawful H) : Booked b (outs.foldl Out.book H) a' := by
  induction run with
  | refl => exact booked
  | @tail t t' xs ys before last ih =>
    rw [List.countP_append] at one
    have first := ih (by omega) fun o member => lawful o (List.mem_append_left _ member)
    have now : Consistent b t ∧ Carried g b t :=
      before.invariant (P := fun a => Consistent b a ∧ Carried g b a) ⟨inv, carried⟩
        fun _ _ _ h step => ⟨h.1.step step, h.2.step step⟩
    rw [List.foldl_append]
    refine first.step now.1 now.2 mine (fun o member => ?_) last
    by_cases books : o.isBooking = true
    · -- the first part has changed nothing
      have some_ : 0 < ys.countP Out.isBooking := List.countP_pos_iff.mpr ⟨o, member, books⟩
      rw [foldl_book_other (by omega)]
      exact lawful o (List.mem_append_right _ member)
    · exact (Out.book_other (by simpa using books)).2

end Gam
