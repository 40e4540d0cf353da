import Gam.Lru.Events

/-!
# The lists and the counters of a cache

In every run the LRU lists are doubly linked lists of lines that exist, and the counters are exact. A line
that can be used is in one of the lists as long as no request for write permission is refused.
-/

namespace Gam.Lru

open Function

variable {Node : Type} [DecidableEq Node] {events : List (Event Node)} {s : State Node}

/-- A line is in a list: from the head of the list one comes to it, and from it to the tail. -/
def Listed (s : State Node) (i p : Nat) : Prop :=
  ∃ nodes, Deque s.next s.prev (s.heads i) (s.tails i) nodes ∧ p ∈ nodes

omit [DecidableEq Node] in
theorem Woven.mem_of_listed {lists : Nat → List Nat} (woven : Woven s lists) {i p : Nat} (listed : Listed s i p) : p ∈ lists i := by
  obtain ⟨nodes, deque, member⟩ := listed
  rwa [← deque.linked.unique (woven.deque i).linked]

omit [DecidableEq Node] in
/-- With null pointers at both ends a list is empty. -/
theorem not_listed_of_head {i p : Nat} (empty : s.heads i = none) : ¬Listed s i p := by
  rintro ⟨nodes, deque, member⟩
  have first := deque.head_eq
  rw [empty, eq_comm, List.head?_eq_none_iff] at first
  rw [first] at member
  exact List.not_mem_nil member

/-! ## Lists -/

/-- The lists are well formed, no line is in two of them, and all their lines are in the table. -/
theorem lists_wellFormed (events : List (Event Node)) (ran : State.init.run events = some s) :
    ∃ lists : Nat → List Nat, (∀ i, Deque s.next s.prev (s.heads i) (s.tails i) (lists i)) ∧
      (∀ i j p, p ∈ lists i → p ∈ lists j → i = j) ∧
      ∀ i, ∀ p ∈ lists i, ∃ l, s.lines p = some l ∧ s.caches l.addr = some p := by
  obtain ⟨lists, valid, _⟩ := (Inv.init False).run (fun impossible => impossible.elim) ran
  refine ⟨lists, valid.deque, valid.apart, fun i p member => ?_⟩
  obtain ⟨l, found⟩ := valid.listed i p member
  exact ⟨l, found, valid.cached p l.core (core_of_lines found)⟩

/-- The first list and no contention. -/
def firstList : Pick := ⟨fun _ => 0, fun _ => true, fun _ => true, 0⟩

/-- Two blocks are read, the second is evicted and the first is invalidated. -/
def readsAndEviction : List (Event Nat) :=
  [.readWrite false ⟨1, 0⟩ firstList 0, .reply 0 true firstList, .readWrite false ⟨1, 1⟩ firstList 1, .reply 0 true firstList,
    .readWrite false ⟨1, 0⟩ firstList 2, .evict 0 true, .invalidate ⟨1, 0⟩]

theorem lists_wellFormed_after_eviction : ∃ s, State.init.run readsAndEviction = some s ∧
    ∃ lists : Nat → List Nat, (∀ i, Deque s.next s.prev (s.heads i) (s.tails i) (lists i)) ∧
      (∀ i j p, p ∈ lists i → p ∈ lists j → i = j) ∧
      ∀ i, ∀ p ∈ lists i, ∃ l, s.lines p = some l ∧ s.caches l.addr = some p :=
  ⟨_, rfl, lists_wellFormed readsAndEviction rfl⟩

/-! ## Lines that can be used -/

/-- While no write permission is refused, every shared or dirty line is in exactly one list. -/
theorem resident_listed (granted : GrantedAll State.init events) (ran : State.init.run events = some s) {p : Nat} {l : Line Node}
    (found : s.lines p = some l) (usable : l.state = .shared ∨ l.state = .dirty) : ∃! i, i < lruNum ∧ Listed s i p := by
  obtain ⟨lists, valid, resident⟩ := (Inv.init True).run (fun _ => granted) ran
  obtain ⟨i, member⟩ := resident trivial p l.core (core_of_lines found) usable
  refine ⟨i, ⟨valid.bounded i p member, lists i, valid.deque i, member⟩, fun j inside => ?_⟩
  exact valid.apart j i p (valid.toWoven.mem_of_listed inside.2) member

/-- A block is read and then locked for writing. -/
def readAndLock (ok : Bool) : List (Event Nat) :=
  [.readWrite false ⟨1, 0⟩ firstList 0, .reply 0 true firstList, .lock true ⟨1, 0⟩ firstList 1, .reply 0 ok firstList]

theorem resident_listed_after_lock : GrantedAll State.init (readAndLock true) ∧ ∃ s l, State.init.run (readAndLock true) = some s ∧
    s.lines 0 = some l ∧ l.state = .dirty ∧ ∃! i, i < lruNum ∧ Listed s i 0 := by
  have granted : GrantedAll State.init (readAndLock true) :=
    ⟨trivial, fun _ _ => ⟨trivial, fun _ _ => ⟨trivial, fun _ _ => ⟨trivial, fun _ _ => trivial⟩⟩⟩⟩
  exact ⟨granted, _, _, rfl, rfl, rfl, resident_listed granted rfl rfl (Or.inr rfl)⟩

/-- When the lock is refused, `UndoShared` makes the line shared again but links it in no list. -/
theorem refused_unlisted : ∃ s l, State.init.run (readAndLock false) = some s ∧ s.lines 0 = some l ∧ l.state = .shared ∧
    s.pending = [] ∧ ∀ i, ¬Listed s i 0 := by
  refine ⟨_, _, rfl, rfl, rfl, rfl, fun i => not_listed_of_head ?_⟩
  by_cases first : i = firstList.list
  · subst first
    rfl
  · show update (update (fun _ => none) firstList.list _) firstList.list _ i = none
    rw [update_of_ne first, update_of_ne first]

/-! ## Counters -/

/-- `used_bytes` and `to_evicted` are exact. -/
theorem counters_exact (events : List (Event Node)) (ran : State.init.run events = some s) :
    {p | ∃ b, s.caches b = some p}.Finite ∧ s.usedBytes = blockSize * {p | ∃ b, s.caches b = some p}.ncard ∧
      s.toEvicted = {p | ∃ b l, s.caches b = some p ∧ s.lines p = some l ∧ l.state = .toInvalid}.ncard ∧
      0 ≤ s.usedBytes - s.toEvicted * blockSize := by
  obtain ⟨lists, valid, _⟩ := (Inv.init False).run (fun impossible => impossible.elim) ran
  obtain ⟨n, census, used⟩ := valid.used
  have lines : {p | alive (s.core p) = 1} = {p | ∃ b, s.caches b = some p} := by
    ext p
    constructor
    · intro there
      cases core : s.core p with
      | none => rw [Set.mem_ofPred_eq, core] at there; cases there
      | some k => exact ⟨k.addr, valid.cached p k core⟩
    · rintro ⟨b, cached⟩
      obtain ⟨k, core, _⟩ := valid.found b p cached
      rw [Set.mem_ofPred_eq, core]
      rfl
  have leaves : {p | leaving (s.core p) = 1} = {p | ∃ b l, s.caches b = some p ∧ s.lines p = some l ∧ l.state = .toInvalid} := by
    ext p
    constructor
    · intro there
      cases found : s.lines p with
      | none =>
        rw [Set.mem_ofPred_eq, State.core, found] at there
        cases there
      | some l =>
        rw [Set.mem_ofPred_eq, core_of_lines found, leaving] at there
        refine ⟨l.addr, l, valid.cached p l.core (core_of_lines found), found, ?_⟩
        by_contra other
        rw [if_neg (show l.core.state ≠ .toInvalid from other)] at there
        cases there
    · rintro ⟨b, l, _, found, state⟩
      rw [Set.mem_ofPred_eq, core_of_lines found, leaving]
      exact if_pos state
  have fewer : s.toEvicted ≤ n := by
    refine valid.evicted.le census fun p there => ?_
    cases core : s.core p with
    | none => rw [Set.mem_ofPred_eq, core] at there; cases there
    | some k => rw [Set.mem_ofPred_eq, core]; rfl
  refine ⟨lines ▸ census.finite, ?_, leaves ▸ valid.evicted.exact, ?_⟩
  · rw [used, census.exact, lines]
  · rw [used, blockSize]
    omega

/-- After a dirty line was given away its bytes are still counted. -/
theorem counters_exact_after_fetch : ∃ s, State.init.run (readAndLock true ++ [.unLock ⟨1, 0⟩, .fetchInvalidate ⟨1, 0⟩]) = some s ∧
    s.usedBytes = 4096 ∧ s.toEvicted = 1 ∧ s.usedBytes = blockSize * {p | ∃ b, s.caches b = some p}.ncard :=
  ⟨_, rfl, rfl, rfl, (counters_exact (readAndLock true ++ [.unLock ⟨1, 0⟩, .fetchInvalidate ⟨1, 0⟩]) rfl).2.1⟩

end Gam.Lru
