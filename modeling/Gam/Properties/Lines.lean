import Gam.Awaited
import Gam.Holds
import Gam.Play

/-! What the caches can look like, and when a line leaves one. -/

namespace Gam

open Function
variable {Node : Type} [DecidableEq Node]
variable {p : Pending Node} {l : CacheLine Node}

/-- Does the answer to such a work request, or its completion, remove the line? -/
def PendingOp.removes : PendingOp Node → Bool
  | .access .read | .access .write | .writeBack | .pendingInvalidate => true
  | _ => false

namespace BlockState
variable {b : Block Node} {s s' s'' : BlockState Node} {n m client : Node}

/-- A line of worker `n` that is locked or in transition stays, with its locks. -/
def Keeps (n : Node) (s s' : BlockState Node) : Prop :=
  ∀ l, s.line n = some l → l.locks.isBlockLocked = true ∨ l.state.inTransition = true →
    ∃ l', s'.line n = some l' ∧ l'.ptr = l.ptr ∧ l'.locks = l.locks ∧
      (l.state.inTransition = true → l'.state.inTransition = true)

theorem Keeps.of_eq (same : s'.line n = s.line n) : Keeps n s s' :=
  fun l line _ => ⟨l, same.trans line, rfl, rfl, id⟩

theorem Keeps.trans (first : Keeps n s s') (second : Keeps n s' s'') : Keeps n s s'' := by
  intro l line used
  obtain ⟨l', line', ptr, locks, moving⟩ := first l line used
  obtain ⟨l'', line'', ptr', locks', moving'⟩ := second l' line' (used.imp (by rw [locks]; exact id) moving)
  exact ⟨l'', line'', ptr'.trans ptr, locks'.trans locks, moving' ∘ moving⟩

section frames

@[simp] theorem refuseRead_line (c : Command Node) (status : Status) :
    (s.refuseRead m client c status).line = s.line := by
  simp only [refuseRead]
  split <;> rfl

@[simp] theorem shareLine_line (c : Command Node) (d : Data) : (s.shareLine m client c d).line = s.line := by
  simp only [shareLine]
  split <;> rfl

@[simp] theorem refuseWrite_line (c : Command Node) (status : Status) :
    (s.refuseWrite m client c status).line = s.line := by
  simp only [refuseWrite]
  split <;> rfl

end frames

/-- The line of worker `n` is the same before and after, or it was removed when an answer that ends it
arrived. -/
inductive Ends (n : Node) (s s' : BlockState Node) : Prop
  | stays (same : ∀ l, s.line n = some l → ∃ l', s'.line n = some l' ∧ l'.ptr = l.ptr)
  | leaves (gone : s'.line n = none) (due : ∃ p ∈ s.pending n, p.op.removes = true)

theorem Ends.of_eq (same : s'.line n = s.line n) : Ends n s s' :=
  .stays fun l line => ⟨l, same.trans line, rfl⟩

/-- Another worker's line changes. -/
theorem Ends.other {x : Option (CacheLine Node)} (other : n ≠ m) (line : s'.line = update s.line m x) : Ends n s s' :=
  .of_eq (by rw [line, update_of_ne other])

/-- A line changes in place. -/
theorem Ends.set {l l' : CacheLine Node} (here : s.line m = some l)
    (line : s'.line = update s.line m (some l')) (ptr : l'.ptr = l.ptr) : Ends n s s' := by
  by_cases same : n = m
  · subst same
    refine .stays fun x found => ⟨l', by rw [line, update_self], ?_⟩
    cases here.symm.trans found
    exact ptr
  · exact .other same line

/-- A line is removed by the answer it waited for. -/
theorem Ends.drop (listed : p ∈ s.pending m) (removes : p.op.removes = true)
    (line : s'.line = update s.line m none) : Ends n s s' := by
  by_cases same : n = m
  · subst same
    exact .leaves (by rw [line, update_self]) ⟨p, listed, removes⟩
  · exact .other same line

/-- A new line is put where there is none. -/
theorem Ends.fresh {l l' : CacheLine Node} (line : s.line n = some l) (free : s.line m = none)
    (lines : s'.line = update s.line m (some l')) : Ends n s s' := by
  refine .other (fun same => ?_) lines
  rw [same, free] at line
  cases line

section requests
variable {l : CacheLine Node} {rq : Req Node} {fresh : Fresh}

end requests

end BlockState

/-- The state of the line that an answer or a completion for such a work request changes. -/
def PendingOp.lineState : PendingOp Node → Option CacheState
  | .access .read => some .toShared
  | .access .write | .access .writePermissionOnly => some .toDirty
  | .writeBack | .pendingInvalidate => some .toInvalid
  | _ => none

/-- What worker `n` caches of a block is as it should be, and whatever is on its way to change the
line finds it. -/
structure BlockState.CacheSound (b : Block Node) (s : BlockState Node) (n : Node) : Prop where
  writer : ∀ l, s.line n = some l → l.locks.isBlockWLocked = true → l.state = .dirty
  locked : ∀ l, s.line n = some l → l.locks.isBlockLocked = true →
    l.state = .shared ∨ l.state = .dirty ∨ l.state = .toDirty
  pending : n ≠ b.wid → ∀ p ∈ s.pending n, ∃ l, s.line n = some l ∧ p.op.lineState = some l.state
  reply : ∀ src r, .msg (.reply r) ∈ s.chan src n → ∃ p, s.getPending n r.id = some p
  data : n ≠ b.wid → ∀ src ptr d, .line ptr d ∈ s.chan src n → ∃ l, s.line n = some l ∧ l.ptr = ptr
  completion : ∀ id ∈ s.completions n, ∃ p l, s.getPending n id = some p ∧ s.line n = some l ∧
    p.op.lineState = some l.state

namespace Phase
variable {ph : Phase Node}

theorem lineState_of_pending (listed : p ∈ ph.pending) :
    ∃ st ptr, ph.line = some (st, ptr) ∧ p.op.lineState = some st := by
  cases ph with
  | absent | shared | dirty => cases listed
  | evicting | evicted | leaving =>
    cases List.mem_singleton.mp listed
    exact ⟨_, _, rfl, rfl⟩
  | miss op ptr id flag rq stage =>
    cases List.mem_singleton.mp listed
    refine ⟨_, _, rfl, ?_⟩
    cases op <;> rfl

theorem state_of_mayLock {l : CacheState × Nat} (may : ph.MayLock) (line : ph.line = some l) :
    l.1 = .shared ∨ l.1 = .dirty ∨ l.1 = .toDirty := by
  cases ph with
  | absent | evicting | evicted | leaving => exact may.elim
  | shared => cases line; exact Or.inl rfl
  | dirty => cases line; exact Or.inr (Or.inl rfl)
  | miss op ptr id flag rq stage =>
    cases op with
    | read | write => exact may.elim
    | writePermissionOnly => cases line; exact Or.inr (Or.inr rfl)

end Phase

section rel
variable {b : Block Node} {s s' : BlockState Node} {a a' : Abs Node} {H : List (Hold Node)} {n : Node}

/-- The line of a worker, as the phase shows it. -/
theorem Rel.line_shown (rel : Rel b s a) (line : s.line n = some l) :
    n ≠ b.wid ∧ (a.phase n).line = some (l.state, l.ptr) ∧ l.locks = a.locks n := by
  have away : n ≠ b.wid := by
    rintro rfl
    rw [rel.home.line] at line
    cases line
  have shown : s.line n = (a.phase n).line.map fun l => ⟨l.2, l.1, a.locks n, a.raw n⟩ := (rel.node n away).line
  rw [line] at shown
  cases phase : (a.phase n).line with
  | none => rw [phase] at shown; cases shown
  | some x => rw [phase] at shown; cases shown; exact ⟨away, rfl, rfl⟩

theorem Rel.pending_line (rel : Rel b s a) (away : n ≠ b.wid) (listed : p ∈ s.pending n) :
    ∃ l, s.line n = some l ∧ p.op.lineState = some l.state := by
  have shows := rel.node n away
  have pending : s.pending n = (a.phase n).pending := shows.pending
  have line : s.line n = (a.phase n).line.map fun l => ⟨l.2, l.1, a.locks n, a.raw n⟩ := shows.line
  rw [pending] at listed
  obtain ⟨st, ptr, found, state⟩ := Phase.lineState_of_pending listed
  rw [found] at line
  exact ⟨_, line, state⟩

theorem Booked.cache (booked : Booked b H a) (rel : Rel b s a) (n : Node) : s.CacheSound b n where
  writer := fun l line held => by
    obtain ⟨away, phase, locks⟩ := rel.line_shown line
    rw [locks] at held
    obtain ⟨ptr, dirty⟩ := booked.writer n away held
    rw [dirty] at phase
    exact (congrArg Prod.fst (Option.some.inj phase)).symm
  locked := fun l line held => by
    obtain ⟨away, phase, locks⟩ := rel.line_shown line
    rw [locks] at held
    exact Phase.state_of_mayLock (booked.may n away held) phase
  pending := fun away p listed => rel.pending_line away listed
  reply := fun src r listed => by
    obtain ⟨p, only, id⟩ := rel.reply_awaited listed
    rw [← id]
    exact ⟨p, BlockState.getPending_of_singleton only⟩
  data := fun away src ptr d listed => rel.data_awaited away listed
  completion := fun id listed => by
    have away : n ≠ b.wid := by
      rintro rfl
      rw [rel.home.completions] at listed
      cases listed
    obtain ⟨p, only, rfl, -⟩ := rel.completion_awaited listed
    obtain ⟨l, line, state⟩ := rel.pending_line away (by rw [only]; exact List.mem_singleton_self p)
    exact ⟨p, l, BlockState.getPending_of_singleton only, line, state⟩

end rel

namespace Sys
variable {mem : Block Node → Data} {s : Sys Node}

/-- The shared line of worker 1 with `k` readers. -/
def CachedReaders (k : Nat) (bs : BlockState Nat) : Prop :=
  ∃ l, bs.line 1 = some l ∧ l.state = .shared ∧ (AList.lookup ⟨0, 0⟩ l.locks).getD 0 = k

/-- Up to the 255th, one more reader is always let in. -/
theorem CachedReaders.grant {k : Nat} {bs : BlockState Nat} {rq : Req Nat} (held : CachedReaders k bs)
    (few : k < 255) (op : rq.op = .rlock) (addr : rq.addr = ⟨0, 0⟩) (fresh : Fresh) :
    ∃ bs', bs.step ⟨0, 0⟩ (.request 1 rq fresh) = (bs', [.granted rq]) ∧ CachedReaders (k + 1) bs' := by
  obtain ⟨l, line, state, count⟩ := held
  have untagged : AList.lookup rq.addr l.locks ≠ some exclusiveLockTag := by
    rw [addr]
    intro tagged
    simp [tagged, exclusiveLockTag] at count
    omega
  refine ⟨bs.setLine 1 (some { l with locks := Locks.share rq.addr l.locks }), ?_,
    { l with locks := Locks.share rq.addr l.locks }, by simp, state, ?_⟩
  · simp [BlockState.step, BlockState.localRequest, op, BlockState.cacheRLock, line, state,
      CacheState.inTransition, Cache.rLock, Cache.isWLocked, untagged]
  · rw [← addr] at count ⊢
    simp [Locks.share, count]

end Sys

end Gam
