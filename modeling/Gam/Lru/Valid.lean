import Gam.Lru.Cache
import Gam.Lru.Shape
import Gam.Census

/-!
# The invariant of a cache

A line in transition waits for exactly one pending request, and while it is fetched it is in no list.
Every other line was linked, unless it is shared again after a request for write permission failed.
-/

namespace Gam.Lru

open Function

variable {Node : Type}
variable {q : Pending Node} {s' : State Node}

/-- The state of a line that waits for a request. -/
def PendingOp.state : PendingOp → CacheState
  | .read => .toShared
  | .write | .writePermissionOnly => .toDirty
  | .writeBack | .invalidate => .toInvalid

/-- The lines are those that the table of the cache holds, and the pending requests are for lines that
wait for them. -/
structure Books (s : State Node) : Prop where
  cached : ∀ p k, s.core p = some k → s.caches k.addr = some p
  found : ∀ b p, s.caches b = some p → ∃ k, s.core p = some k ∧ k.addr = b
  awaited : ∀ q ∈ s.pending, ∃ p k, s.caches q.block = some p ∧ s.core p = some k ∧ k.state = q.op.state
  once : (s.pending.map Pending.block).Nodup

/-- Whether there is a line, as a number. -/
def alive : Option (Core Node) → Int
  | none => 0
  | some _ => 1

/-- Whether a line is about to be deleted, as a number. -/
def leaving : Option (Core Node) → Int
  | none => 0
  | some k => if k.state = .toInvalid then 1 else 0

/-- The counters agree with the lines. -/
structure Counted (s : State Node) : Prop where
  used : ∃ n, Census {p | alive (s.core p) = 1} n ∧ s.usedBytes = blockSize * n
  evicted : Census {p | leaving (s.core p) = 1} s.toEvicted

structure Valid (s : State Node) (lists : Nat → List Nat) : Prop extends Shape s lists, Books s, Counted s where
  fetched : ∀ p k, s.core p = some k → k.state = .toShared ∨ k.state = .toDirty → ∀ i, p ∉ lists i

/-- Every line that can be used is in a list. -/
def Resident (s : State Node) (lists : Nat → List Nat) : Prop :=
  ∀ p k, s.core p = some k → k.state = .shared ∨ k.state = .dirty → ∃ i, p ∈ lists i

/-- The invariant; `strict` when no request for write permission failed. -/
def Inv (strict : Prop) (s : State Node) : Prop := ∃ lists, Valid s lists ∧ (strict → Resident s lists)

theorem mark_alive (s : State Node) (p : Nat) : mark {p | alive (s.core p) = 1} p = alive (s.core p) := by
  cases core : s.core p with
  | none => exact mark_of_notMem fun there => by rw [Set.mem_ofPred_eq, core] at there; cases there
  | some k => exact mark_of_mem (by rw [Set.mem_ofPred_eq, core]; rfl)

theorem mark_leaving (s : State Node) (p : Nat) : mark {p | leaving (s.core p) = 1} p = leaving (s.core p) := by
  cases core : s.core p with
  | none => exact mark_of_notMem fun there => by rw [Set.mem_ofPred_eq, core] at there; cases there
  | some k =>
    by_cases state : k.state = .toInvalid
    · rw [leaving, if_pos state]
      exact mark_of_mem (by rw [Set.mem_ofPred_eq, core, leaving, if_pos state])
    · rw [leaving, if_neg state]
      exact mark_of_notMem fun there => by rw [Set.mem_ofPred_eq, core, leaving, if_neg state] at there; cases there

/-- A step that changes, creates or deletes one line. -/
theorem Counted.change {s s' : State Node} {p : Nat} (counted : Counted s) (others : ∀ q, q ≠ p → s'.core q = s.core q)
    (used : s'.usedBytes = s.usedBytes + blockSize * (alive (s'.core p) - alive (s.core p)))
    (evicted : s'.toEvicted = s.toEvicted + leaving (s'.core p) - leaving (s.core p)) : Counted s' := by
  obtain ⟨n, census, bytes⟩ := counted.used
  refine ⟨⟨_, census.change p fun q other => ?_, ?_⟩, ?_⟩
  · rw [Set.mem_ofPred_eq, others q other]
    rfl
  · rw [used, bytes, mark_alive, mark_alive, blockSize]
    omega
  · rw [evicted, ← mark_leaving s', ← mark_leaving s]
    refine counted.evicted.change p fun q other => ?_
    rw [Set.mem_ofPred_eq, others q other]
    rfl

/-- The pending requests after a step: those for other blocks are old, and one for the given block fits
the state of its line. -/
structure Fits (s : State Node) (block : Block Node) (state : CacheState) (pending : List (Pending Node)) : Prop where
  each : ∀ q ∈ pending, (q ∈ s.pending ∧ q.block ≠ block) ∨ (q.block = block ∧ state = q.op.state)
  once : (pending.map Pending.block).Nodup

namespace Books

variable {s : State Node} {p : Nat} {k : Core Node}

/-- A line that does not wait has no pending request. -/
theorem not_awaited (books : Books s) (found : s.core p = some k) (steady : k.state.inTransition = false)
    (member : q ∈ s.pending) : q.block ≠ k.addr := by
  intro same
  obtain ⟨p', k', cached, core, state⟩ := books.awaited q member
  obtain rfl := Option.some.inj ((same ▸ cached).symm.trans (books.cached p k found))
  obtain rfl := Option.some.inj (core.symm.trans found)
  rw [state] at steady
  cases op : q.op <;> rw [op] at steady <;> cases steady

theorem fits_steady (books : Books s) (found : s.core p = some k) (steady : k.state.inTransition = false) (state : CacheState) :
    Fits s k.addr state s.pending :=
  ⟨fun _ member => Or.inl ⟨member, books.not_awaited found steady member⟩, books.once⟩

theorem fits_same (books : Books s) (found : s.core p = some k) : Fits s k.addr k.state s.pending := by
  refine ⟨fun q member => ?_, books.once⟩
  by_cases same : q.block = k.addr
  · obtain ⟨p', k', cached, core, state⟩ := books.awaited q member
    obtain rfl := Option.some.inj ((same ▸ cached).symm.trans (books.cached p k found))
    obtain rfl := Option.some.inj (core.symm.trans found)
    exact Or.inr ⟨same, state⟩
  · exact Or.inl ⟨member, same⟩

/-- A request is sent for a block that had none. -/
theorem fits_await (books : Books s) (alone : ∀ r ∈ s.pending, r.block ≠ q.block) :
    Fits s q.block q.op.state (q :: s.pending) := by
  refine ⟨fun r member => ?_, ?_⟩
  · rcases List.mem_cons.mp member with rfl | member
    · exact Or.inr ⟨rfl, rfl⟩
    · exact Or.inl ⟨member, alone r member⟩
  · rw [List.map_cons, List.nodup_cons]
    refine ⟨fun member => ?_, books.once⟩
    obtain ⟨r, inside, same⟩ := List.mem_map.mp member
    exact alone r inside same

/-- A request was answered: the others are for other blocks. -/
theorem answered (books : Books s) {id : Nat} (asked : s.pending[id]? = some q) :
    (∀ r ∈ s.pending.eraseIdx id, r ∈ s.pending ∧ r.block ≠ q.block) ∧ ((s.pending.eraseIdx id).map Pending.block).Nodup := by
  refine ⟨fun r member => ?_, books.once.sublist ((List.eraseIdx_sublist ..).map _)⟩
  obtain ⟨j, other, there⟩ := List.mem_eraseIdx_iff_getElem?.mp member
  refine ⟨List.mem_of_getElem? there, fun same => other ?_⟩
  have inside := (List.getElem?_eq_some_iff.mp there).1
  refine List.getElem?_inj (by rwa [List.length_map]) books.once |>.mp ?_
  rw [List.getElem?_map, List.getElem?_map, there, asked, Option.map_some, Option.map_some, same]

theorem fits_answered (books : Books s) {id : Nat} (asked : s.pending[id]? = some q) (state : CacheState) :
    Fits s q.block state (s.pending.eraseIdx id) :=
  ⟨fun r member => Or.inl ((books.answered asked).1 r member), (books.answered asked).2⟩

/-- One line gets another state and other locks. -/
theorem change {k' : Core Node} (books : Books s) (found : s.core p = some k)
    (others : ∀ q, q ≠ p → s'.core q = s.core q) (own : s'.core p = some k') (same : k'.addr = k.addr) (caches : s'.caches = s.caches)
    (fits : Fits s k.addr k'.state s'.pending) : Books s' := by
  have here : s.caches k.addr = some p := books.cached p k found
  refine ⟨fun q j core => ?_, fun b q cached => ?_, fun r member => ?_, fits.once⟩
  · rw [caches]
    by_cases equal : q = p
    · rw [equal, own] at core
      obtain rfl := Option.some.inj core
      rw [equal, same]
      exact here
    · rw [others q equal] at core
      exact books.cached q j core
  · rw [caches] at cached
    obtain ⟨j, core, addr⟩ := books.found b q cached
    by_cases equal : q = p
    · rw [equal, found] at core
      obtain rfl := Option.some.inj core
      exact ⟨k', equal ▸ own, same.trans addr⟩
    · exact ⟨j, (others q equal).trans core, addr⟩
  · rw [caches]
    rcases fits.each r member with ⟨old, elsewhere⟩ | ⟨block, state⟩
    · obtain ⟨q, j, cached, core, state⟩ := books.awaited r old
      refine ⟨q, j, cached, (others q ?_).trans core, state⟩
      rintro rfl
      rw [found] at core
      obtain rfl := Option.some.inj core
      obtain ⟨j, core', addr⟩ := books.found _ _ cached
      rw [found] at core'
      obtain rfl := Option.some.inj core'
      exact elsewhere addr.symm
    · exact ⟨p, k', block ▸ here, own, state⟩

/-- A line is deleted, and no request is pending for it. -/
theorem delete [DecidableEq Node] (books : Books s) (found : s.core p = some k)
    (others : ∀ q, q ≠ p → s'.core q = s.core q) (own : s'.core p = none) (caches : s'.caches = update s.caches k.addr none)
    (old : ∀ q ∈ s'.pending, q ∈ s.pending ∧ q.block ≠ k.addr) (once : (s'.pending.map Pending.block).Nodup) : Books s' := by
  have here : s.caches k.addr = some p := books.cached p k found
  refine ⟨fun q j core => ?_, fun b q cached => ?_, fun r member => ?_, once⟩
  · have other : q ≠ p := by
      rintro rfl
      rw [own] at core
      cases core
    rw [others q other] at core
    have cached := books.cached q j core
    rw [caches, update_of_ne]
    · exact cached
    · intro same
      rw [same, here] at cached
      exact other (Option.some.inj cached).symm
  · rw [caches] at cached
    by_cases same : b = k.addr
    · rw [same, update_self] at cached
      cases cached
    · rw [update_of_ne same] at cached
      obtain ⟨j, core, addr⟩ := books.found b q cached
      refine ⟨j, (others q ?_).trans core, addr⟩
      rintro rfl
      rw [found] at core
      exact same (addr ▸ congrArg Core.addr (Option.some.inj core).symm)
  · obtain ⟨there, elsewhere⟩ := old r member
    obtain ⟨q, j, cached, core, state⟩ := books.awaited r there
    refine ⟨q, j, ?_, (others q ?_).trans core, state⟩
    · rw [caches, update_of_ne elsewhere]
      exact cached
    · rintro rfl
      obtain ⟨j', core', addr⟩ := books.found _ _ cached
      rw [found] at core'
      obtain rfl := Option.some.inj core'
      exact elsewhere addr.symm

/-- A line is created for a block that is not cached, with a request for it. -/
theorem create [DecidableEq Node] (books : Books s) (fresh : s.core p = none) (absent : s.caches k.addr = none)
    (others : ∀ q, q ≠ p → s'.core q = s.core q) (own : s'.core p = some k) (caches : s'.caches = update s.caches k.addr (some p))
    (fits : Fits s k.addr k.state s'.pending) : Books s' := by
  refine ⟨fun q j core => ?_, fun b q cached => ?_, fun r member => ?_, fits.once⟩
  · rw [caches]
    by_cases equal : q = p
    · rw [equal, own] at core
      obtain rfl := Option.some.inj core
      rw [update_self, equal]
    · rw [others q equal] at core
      have cached := books.cached q j core
      rw [update_of_ne]
      · exact cached
      · intro same
        rw [same, absent] at cached
        cases cached
  · rw [caches] at cached
    by_cases same : b = k.addr
    · rw [same, update_self] at cached
      obtain rfl := Option.some.inj cached
      exact ⟨k, own, same.symm⟩
    · rw [update_of_ne same] at cached
      obtain ⟨j, core, addr⟩ := books.found b q cached
      refine ⟨j, (others q ?_).trans core, addr⟩
      rintro rfl
      rw [fresh] at core
      cases core
  · rw [caches]
    rcases fits.each r member with ⟨there, elsewhere⟩ | ⟨block, state⟩
    · obtain ⟨q, j, cached, core, state⟩ := books.awaited r there
      refine ⟨q, j, ?_, (others q ?_).trans core, state⟩
      · rw [update_of_ne elsewhere]
        exact cached
      · rintro rfl
        rw [fresh] at core
        cases core
    · exact ⟨p, k, by rw [block, update_self], own, state⟩

end Books

end Gam.Lru
