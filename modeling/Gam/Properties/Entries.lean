import Gam.Holds
import Gam.Play

/-! What the directory of a home can look like. -/

namespace Gam
variable {Node : Type} [DecidableEq Node]

/-- The entry of a block as its home should keep it. -/
structure DirEntry.Sound (e : DirEntry Node) : Prop where
  dirty : e.state = .dirty → e.shared.length = 1 ∧ e.locks.isBlockLocked = false
  shared : e.state = .shared →
    e.shared ≠ [] ∧ (e.shared.map GAddr.wid).Nodup ∧ e.locks.isBlockWLocked = false
  toShared : e.state = .toShared → e.shared.length = 1
  unshared : e.state = .unshared → e.shared = [] ∧ e.locks.isBlockLocked = true
  /-- No entry is left behind. -/
  needed : e.shared ≠ [] ∨ e.state.inTransition = true ∨ e.locks.isBlockLocked = true

namespace Booked
variable {b : Block Node} {H : List (Hold Node)} {a : Abs Node}

end Booked

namespace Sys
variable {mem : Block Node → Data} {s : Sys Node} {b : Block Node} {e : DirEntry Node}

/-- Worker 1 reads a block of worker 0, and a thread of worker 0 locks it. -/
def lockedEntry : List (Act Nat) :=
  sharedBlock ++ [.issue (ask 1 0 0 .rlock false), .run 0 fun _ => 0, .run 0 fun _ => 0]

/-- The entry of the shared block with `k` readers at its home. -/
def ReadersAt (k : Nat) (bs : BlockState Nat) : Prop :=
  ∃ locks, bs.entry = some ⟨.shared, [⟨1, 7⟩], locks⟩ ∧ (AList.lookup ⟨0, 0⟩ locks).getD 0 = k

/-- One more reader is always let in: in `DIR_SHARED` no count stands for a writer. -/
theorem ReadersAt.grant {k : Nat} {bs : BlockState Nat} {rq : Req Nat} (held : ReadersAt k bs)
    (op : rq.op = .rlock) (addr : rq.addr = ⟨0, 0⟩) (fresh : Fresh) :
    ∃ bs', bs.step ⟨0, 0⟩ (.request 0 rq fresh) = (bs', [.granted rq]) ∧ ReadersAt (k + 1) bs' := by
  obtain ⟨locks, stored, count⟩ := held
  refine ⟨bs.setEntry (some ⟨.shared, [⟨1, 7⟩], Locks.share ⟨0, 0⟩ locks⟩), ?_, _, rfl, ?_⟩
  · simp [BlockState.step, BlockState.localRequest, op, BlockState.homeRLock, BlockState.dirState, stored,
      Directory.getState, DirState.inTransition, Directory.rLock, Directory.isWLocked, addr]
  · simp [Locks.share, count]

end Sys

end Gam
