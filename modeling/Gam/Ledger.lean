import Gam.System

/-! The lock table of a line or of a directory entry, against the locks that were granted and not
released. -/

namespace Gam
variable {Node : Type} [DecidableEq Node]

/-- Is it a lock of address `x` that a thread of worker `n` has? -/
def Hold.isAt (n : Node) (x : GAddr Node) (h : Hold Node) : Bool := decide (h.thread.node = n ∧ h.addr = x)

/-- The locks of one address at one worker. -/
def holdsAt (H : List (Hold Node)) (n : Node) (x : GAddr Node) : List (Hold Node) := H.filter (Hold.isAt n x)

/-- What the table should say about these locks. -/
def lockEntry (hs : List (Hold Node)) : Option Int :=
  if hs.isEmpty then none
  else if hs.any Hold.exclusive then some exclusiveLockTag
  else some hs.length

/-- An exclusive lock is the only one of its address at its worker, and the readers can be counted. -/
structure Sound (H : List (Hold Node)) (b : Block Node) : Prop where
  sole : ∀ n x, x.toBlock = b → (holdsAt H n x).any Hold.exclusive = true → (holdsAt H n x).length = 1
  few : ∀ n x, x.toBlock = b → (holdsAt H n x).length < 255

/-- The table of worker `n` for block `b` is right. -/
def Tally (H : List (Hold Node)) (b : Block Node) (n : Node) (locks : Locks Node) : Prop :=
  ∀ x, locks.lookup x = if x.toBlock = b then lockEntry (holdsAt H n x) else none

section perm
variable {H H' : List (Hold Node)} {b : Block Node} {n : Node} {x : GAddr Node} {locks : Locks Node}

theorem lockEntry_perm {hs hs' : List (Hold Node)} (perm : hs.Perm hs') : lockEntry hs = lockEntry hs' := by
  have any : hs.any Hold.exclusive = hs'.any Hold.exclusive := perm.any_eq
  have empty : hs.isEmpty = hs'.isEmpty := perm.isEmpty_eq
  simp [lockEntry, any, empty, perm.length_eq]

theorem Sound.perm (sound : Sound H b) (perm : H.Perm H') : Sound H' b where
  sole := fun n x here held => by
    have same : (holdsAt H n x).Perm (holdsAt H' n x) := perm.filter _
    rw [← same.length_eq]
    exact sound.sole n x here (by rw [same.any_eq]; exact held)
  few := fun n x here => by
    have same : (holdsAt H n x).Perm (holdsAt H' n x) := perm.filter _
    rw [← same.length_eq]
    exact sound.few n x here

theorem Tally.perm (tally : Tally H b n locks) (perm : H.Perm H') : Tally H' b n locks := by
  intro x
  rw [tally x]
  split
  · exact lockEntry_perm (perm.filter _)
  · rfl

end perm

section table
variable {H : List (Hold Node)} {b : Block Node} {n : Node} {x : GAddr Node} {locks : Locks Node}

@[simp] theorem lockEntry_nil : lockEntry ([] : List (Hold Node)) = none := rfl

theorem lockEntry_eq_none {hs : List (Hold Node)} : lockEntry hs = none ↔ hs = [] := by
  cases hs with
  | nil => simp
  | cons h hs =>
    simp only [lockEntry, List.isEmpty_cons, Bool.false_eq_true, if_false, reduceCtorEq, iff_false]
    split <;> simp

/-- The exclusive tag is there for an exclusive lock. -/
theorem Sound.tag_iff (sound : Sound H b) (here : x.toBlock = b) :
    lockEntry (holdsAt H n x) = some exclusiveLockTag ↔ (holdsAt H n x).any Hold.exclusive = true := by
  have few := sound.few n x here
  generalize holdsAt H n x = hs at few
  cases held : hs.any Hold.exclusive with
  | true =>
    cases hs with
    | nil => cases held
    | cons h hs => simp [lockEntry, held]
  | false =>
    simp only [lockEntry, held, Bool.false_eq_true, if_false, iff_false]
    split
    · simp
    · simp only [Option.some.injEq, exclusiveLockTag]
      omega

/-- The numbers of readers are positive. -/
theorem Tally.positive (tally : Tally H b n locks) {k : Int} (found : locks.lookup x = some k) : 0 < k := by
  rw [tally x] at found
  split at found
  · generalize holdsAt H n x = hs at found
    cases hs with
    | nil => cases found
    | cons h hs =>
      simp only [lockEntry, List.isEmpty_cons, Bool.false_eq_true, if_false] at found
      split at found
      · cases found; decide
      · cases found
        simp only [List.length_cons]
        omega
  · cases found

theorem Tally.lookup (tally : Tally H b n locks) (here : x.toBlock = b) :
    locks.lookup x = lockEntry (holdsAt H n x) := by
  rw [tally x, if_pos here]

theorem Tally.inside (tally : Tally H b n locks) {k : Int} (found : locks.lookup x = some k) : x.toBlock = b := by
  by_contra outside
  rw [tally x, if_neg outside] at found
  cases found

end table

/-! ### Granting -/

section grant
variable {H : List (Hold Node)} {b : Block Node} {n : Node} {x : GAddr Node} {locks : Locks Node} {h : Hold Node}

theorem holdsAt_cons : holdsAt (h :: H) n x = if h.isAt n x then h :: holdsAt H n x else holdsAt H n x := by
  simp only [holdsAt, List.filter_cons]

theorem holdsAt_cons_self : holdsAt (h :: H) h.thread.node h.addr = h :: holdsAt H h.thread.node h.addr := by
  simp [holdsAt_cons, Hold.isAt]

theorem holdsAt_cons_other (other : ¬ (h.thread.node = n ∧ h.addr = x)) : holdsAt (h :: H) n x = holdsAt H n x := by
  simp [holdsAt_cons, Hold.isAt, other]

/-- A reader joins. -/
theorem Sound.share (sound : Sound H b) (reader : h.exclusive = false)
    (free : (holdsAt H h.thread.node h.addr).any Hold.exclusive = false)
    (room : (holdsAt H h.thread.node h.addr).length < 254) : Sound (h :: H) b where
  sole := fun n x here held => by
    by_cases same : h.thread.node = n ∧ h.addr = x
    · obtain ⟨rfl, rfl⟩ := same
      rw [holdsAt_cons_self, List.any_cons, reader, free] at held
      cases held
    · rw [holdsAt_cons_other same] at held ⊢
      exact sound.sole n x here held
  few := fun n x here => by
    by_cases same : h.thread.node = n ∧ h.addr = x
    · obtain ⟨rfl, rfl⟩ := same
      rw [holdsAt_cons_self, List.length_cons]
      omega
    · rw [holdsAt_cons_other same]
      exact sound.few n x here

/-- A writer comes to an address nobody at its worker has locked. -/
theorem Sound.exclude (sound : Sound H b) (free : holdsAt H h.thread.node h.addr = []) : Sound (h :: H) b where
  sole := fun n x here held => by
    by_cases same : h.thread.node = n ∧ h.addr = x
    · obtain ⟨rfl, rfl⟩ := same
      rw [holdsAt_cons_self, free]
      rfl
    · rw [holdsAt_cons_other same] at held ⊢
      exact sound.sole n x here held
  few := fun n x here => by
    by_cases same : h.thread.node = n ∧ h.addr = x
    · obtain ⟨rfl, rfl⟩ := same
      rw [holdsAt_cons_self, free]
      simp
    · rw [holdsAt_cons_other same]
      exact sound.few n x here

/-- A lock elsewhere. -/
theorem Tally.grant_other (tally : Tally H b n locks) (other : h.thread.node = n → h.addr.toBlock ≠ b) :
    Tally (h :: H) b n locks := by
  intro x
  rw [tally x]
  split
  · next here =>
    rw [holdsAt_cons_other]
    rintro ⟨node, rfl⟩
    exact other node here
  · rfl

theorem Tally.insert {k : Int} (tally : Tally H b h.thread.node locks) (here : h.addr.toBlock = b)
    (entry : some k = lockEntry (h :: holdsAt H h.thread.node h.addr)) :
    Tally (h :: H) b h.thread.node (locks.insert h.addr k) := by
  intro x
  by_cases same : x = h.addr
  · subst same
    rw [AList.lookup_insert, if_pos here, holdsAt_cons_self, entry]
  · rw [AList.lookup_insert_ne same, tally x, holdsAt_cons_other fun h => same h.2.symm]

theorem Tally.share (tally : Tally H b h.thread.node locks) (here : h.addr.toBlock = b)
    (reader : h.exclusive = false) (free : (holdsAt H h.thread.node h.addr).any Hold.exclusive = false) :
    Tally (h :: H) b h.thread.node (Locks.share h.addr locks) := by
  refine tally.insert here ?_
  rw [tally.lookup here]
  generalize holdsAt H h.thread.node h.addr = hs at free
  have count : (lockEntry hs).getD 0 = hs.length := by
    cases hs with
    | nil => rfl
    | cons h' hs => simp [lockEntry, free]
  rw [count]
  simp [lockEntry, reader, free]

theorem Tally.exclude (tally : Tally H b h.thread.node locks) (here : h.addr.toBlock = b)
    (writer : h.exclusive = true) : Tally (h :: H) b h.thread.node (Locks.exclude h.addr locks) := by
  refine tally.insert here ?_
  simp [lockEntry, writer]

end grant

/-! ### Releasing -/

section release
variable {H : List (Hold Node)} {b : Block Node} {n : Node} {x : GAddr Node} {locks : Locks Node}
  {th : Thread Node}

/-- One lock of address `x` that thread `th` has goes away. -/
def dropHold (th : Thread Node) (x : GAddr Node) (H : List (Hold Node)) : List (Hold Node) :=
  H.eraseP fun h => decide (h.thread = th ∧ h.addr = x)

theorem holdsAt_drop_other {y : GAddr Node} (other : ¬ (th.node = n ∧ x = y)) : holdsAt (dropHold th x H) n y = holdsAt H n y := by
  induction H with
  | nil => rfl
  | cons h H ih =>
    by_cases hit : h.thread = th ∧ h.addr = x
    · have away : ¬ (h.thread.node = n ∧ h.addr = y) := by
        rw [hit.1, hit.2]; exact other
      rw [holdsAt_cons_other away]
      simp [dropHold, hit]
    · have kept : dropHold th x (h :: H) = h :: dropHold th x H := by simp [dropHold, hit]
      rw [kept, holdsAt_cons, holdsAt_cons, ih]

theorem holdsAt_drop_self (held : ∃ h ∈ H, h.thread = th ∧ h.addr = x) :
    ∃ h, (holdsAt H th.node x).Perm (h :: holdsAt (dropHold th x H) th.node x) := by
  obtain ⟨h, member, matches_⟩ := held
  obtain ⟨h', before, after, -, hit, split, erased⟩ := List.exists_of_eraseP member
    (p := fun h => decide (h.thread = th ∧ h.addr = x)) (by simpa using matches_)
  have hit : h'.thread = th ∧ h'.addr = x := by simpa using hit
  refine ⟨h', ?_⟩
  have dropped : dropHold th x H = before ++ after := erased
  rw [dropped, split]
  have mine : h'.isAt th.node x = true := by simp [Hold.isAt, hit]
  simp only [holdsAt, List.filter_append, List.filter_cons, mine, if_true]
  exact List.perm_middle

theorem Sound.release (sound : Sound H b) : Sound (dropHold th x H) b := by
  have fewer : ∀ n y, (holdsAt (dropHold th x H) n y).Sublist (holdsAt H n y) := fun n y =>
    List.eraseP_sublist.filter _
  refine ⟨fun n y here held => ?_, fun n y here => ?_⟩
  · have more : (holdsAt H n y).any Hold.exclusive = true := by
      obtain ⟨h, member, exclusive⟩ := List.any_eq_true.mp held
      exact List.any_eq_true.mpr ⟨h, (fewer n y).subset member, exclusive⟩
    have one := sound.sole n y here more
    have le := (fewer n y).length_le
    have some_ : (holdsAt (dropHold th x H) n y).length ≠ 0 := by
      intro none_
      rw [List.length_eq_zero_iff.mp none_] at held
      cases held
    omega
  · exact Nat.lt_of_le_of_lt (fewer n y).length_le (sound.few n y here)

theorem Tally.release_other (tally : Tally H b n locks) (other : th.node = n → x.toBlock ≠ b) :
    Tally (dropHold th x H) b n locks := by
  intro y
  rw [tally y]
  split
  · next here =>
    rw [holdsAt_drop_other]
    rintro ⟨node, rfl⟩
    exact other node here
  · rfl

/-- What is left at the address: nothing after an exclusive lock, one reader less otherwise. -/
theorem Sound.left (sound : Sound H b) (here : x.toBlock = b) (held : ∃ h ∈ H, h.thread = th ∧ h.addr = x) :
    (lockEntry (holdsAt H th.node x) = some exclusiveLockTag ∧ holdsAt (dropHold th x H) th.node x = []) ∨
      ∃ k : Nat, lockEntry (holdsAt H th.node x) = some (k + 1 : Int) ∧ (k + 1 : Int) ≠ exclusiveLockTag ∧
        lockEntry (holdsAt (dropHold th x H) th.node x) = if k = 0 then none else some (k : Int) := by
  obtain ⟨h, perm⟩ := holdsAt_drop_self held
  have length := perm.length_eq
  rw [List.length_cons] at length
  have few := sound.few th.node x here
  by_cases exclusive : (holdsAt H th.node x).any Hold.exclusive = true
  · left
    refine ⟨(sound.tag_iff here).mpr exclusive, ?_⟩
    have one := sound.sole th.node x here exclusive
    exact List.length_eq_zero_iff.mp (by omega)
  · right
    have none_ : (holdsAt H th.node x).any Hold.exclusive = false := by simpa using exclusive
    have readers : (holdsAt (dropHold th x H) th.node x).any Hold.exclusive = false := by
      rw [perm.any_eq, List.any_cons, Bool.or_eq_false_iff] at none_
      exact none_.2
    refine ⟨(holdsAt (dropHold th x H) th.node x).length, ?_, ?_, ?_⟩
    · rw [lockEntry_perm perm]
      rw [perm.any_eq] at none_
      simp [lockEntry, none_]
    · rw [exclusiveLockTag]
      omega
    · rw [lockEntry, readers]
      simp [List.isEmpty_iff_length_eq_zero]

/-- Removing the entry or lowering it by one is right. -/
theorem Tally.set (tally : Tally H b th.node locks) (here : x.toBlock = b) {locks' : Locks Node}
    (same : ∀ y, y ≠ x → locks'.lookup y = locks.lookup y)
    (entry : locks'.lookup x = lockEntry (holdsAt (dropHold th x H) th.node x)) :
    Tally (dropHold th x H) b th.node locks' := by
  intro y
  by_cases at_ : y = x
  · subst at_
    rw [entry, if_pos here]
  · rw [same y at_, tally y, holdsAt_drop_other fun h => at_ h.2.symm]

/-- `UnLock` at a caching worker. -/
theorem Tally.release (tally : Tally H b th.node locks) (sound : Sound H b) (here : x.toBlock = b)
    (held : ∃ h ∈ H, h.thread = th ∧ h.addr = x) : Tally (dropHold th x H) b th.node (Cache.releaseLock x locks) := by
  unfold Cache.releaseLock
  rw [tally.lookup here]
  rcases sound.left here held with ⟨tag, none_⟩ | ⟨k, count, other, left⟩
  · rw [tag]
    simp only [true_or, if_true]
    refine tally.set here (fun y at_ => AList.lookup_erase_ne at_) ?_
    rw [AList.lookup_erase, none_]
    rfl
  · rw [count]
    by_cases zero : k = 0
    · have last : (k + 1 : Int) = exclusiveLockTag ∨ (k + 1 : Int) - 1 = 0 := by omega
      simp only [if_pos last]
      refine tally.set here (fun y at_ => AList.lookup_erase_ne at_) ?_
      rw [AList.lookup_erase, left, if_pos zero]
    · have more : ¬ ((k + 1 : Int) = exclusiveLockTag ∨ (k + 1 : Int) - 1 = 0) := by omega
      simp only [if_neg more]
      refine tally.set here (fun y at_ => AList.lookup_insert_ne at_) ?_
      rw [AList.lookup_insert, left, if_neg zero]
      simp

/-- `UnLock` at the home, where an exclusive lock only counts in `DIR_UNSHARED`. -/
theorem Tally.releaseHome {e : DirEntry Node} (tally : Tally H b th.node e.locks) (sound : Sound H b)
    (here : x.toBlock = b) (held : ∃ h ∈ H, h.thread = th ∧ h.addr = x)
    (unshared : e.locks.lookup x = some exclusiveLockTag → e.state = .unshared) :
    Tally (dropHold th x H) b th.node (Directory.releaseLock x e) := by
  have entry := tally.lookup here
  unfold Directory.releaseLock Directory.isWLocked
  rcases sound.left here held with ⟨tag, none_⟩ | ⟨k, count, other, left⟩
  · rw [entry, tag] at unshared
    simp only [unshared rfl, decide_true, entry, tag, Bool.and_self, if_true]
    refine tally.set here (fun y at_ => AList.lookup_erase_ne at_) ?_
    rw [AList.lookup_erase, none_]
    rfl
  · have noTag : (some (k + 1 : Int) = some exclusiveLockTag) = False := by simpa using other
    have less : (k + 1 : Int) - 1 = k := by omega
    simp only [entry, count, noTag, decide_false, Bool.and_false, Bool.false_eq_true, if_false, Option.getD_some, less]
    by_cases zero : k = 0
    · rw [if_pos (by omega)]
      refine tally.set here (fun y at_ => AList.lookup_erase_ne at_) ?_
      rw [AList.lookup_erase, left, if_pos zero]
    · rw [if_neg (by omega)]
      refine tally.set here (fun y at_ => AList.lookup_insert_ne at_) ?_
      rw [AList.lookup_insert, left, if_neg zero]

end release

end Gam
