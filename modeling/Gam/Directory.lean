import Mathlib.Data.List.AList
import Gam.Basic

/-! The home side of one block: `Directory` and its entries (`directory.h`, `directory.cc`).
A missing entry is `none`, which the code reads as `DIR_UNSHARED`. -/

namespace Gam

/-- The `locks` map of a directory entry or of a cache line. -/
abbrev Locks (Node : Type) := AList (fun _ : GAddr Node => Int)

/-- `EXCLUSIVE_LOCK_TAG`. -/
def exclusiveLockTag : Int := 255

namespace Locks
variable {Node : Type} [DecidableEq Node]

/-- `IsBlockLocked`. -/
def isBlockLocked (locks : Locks Node) : Bool := !locks.entries.isEmpty

theorem eq_empty_of_not_locked {locks : Locks Node} (free : locks.isBlockLocked = false) : locks = ∅ := by
  refine AList.ext ?_
  simpa [isBlockLocked] using free

theorem locked_of_lookup {locks : Locks Node} {addr : GAddr Node} {k : Int}
    (held : locks.lookup addr = some k) : locks.isBlockLocked = true := by
  by_contra free
  have none_ : locks = ∅ := eq_empty_of_not_locked (by simpa using free)
  rw [none_] at held
  cases held

theorem locked_insert (locks : Locks Node) (addr : GAddr Node) (k : Int) : isBlockLocked (locks.insert addr k) = true :=
  locked_of_lookup (AList.lookup_insert locks)

/-- `IsBlockWLocked`. -/
def isBlockWLocked (locks : Locks Node) : Bool :=
  locks.entries.any fun e => decide (e.2 = exclusiveLockTag)

/-- One more reader, or the one writer, of an address. -/
def share (addr : GAddr Node) (locks : Locks Node) : Locks Node :=
  locks.insert addr ((locks.lookup addr).getD 0 + 1)

def exclude (addr : GAddr Node) (locks : Locks Node) : Locks Node :=
  locks.insert addr exclusiveLockTag

end Locks

inductive DirState
  | unshared | shared | dirty | toShared | toDirty | toUnshared
deriving DecidableEq, Repr

/-- `Directory::InTransitionState`. -/
def DirState.inTransition : DirState → Bool
  | .toShared | .toDirty | .toUnshared => true
  | .unshared | .shared | .dirty => false

structure DirEntry (Node : Type) where
  state : DirState
  shared : List (GAddr Node)
  locks : Locks Node

namespace Directory
variable {Node : Type} [DecidableEq Node]

def getState (entry : Option (DirEntry Node)) : DirState :=
  entry.elim .unshared DirEntry.state

/-- `GetSList`, empty without an entry. -/
def getSList (entry : Option (DirEntry Node)) : List (GAddr Node) :=
  entry.elim [] DirEntry.shared

def getLocks (entry : Option (DirEntry Node)) : Locks Node :=
  entry.elim ∅ DirEntry.locks

def setState (state : DirState) (entry : Option (DirEntry Node)) : Option (DirEntry Node) :=
  entry.map fun e => { e with state }

/-- `ToShared`; `none` is `Gnullptr`, the write-back of the owner. -/
def toShared (addr : Option (GAddr Node)) : Option (DirEntry Node) → Option (DirEntry Node)
  | none => addr.map fun a => ⟨.shared, [a], ∅⟩
  | some e =>
    if e.state = .toShared then match addr with
      | none => some { e with state := .shared }
      | some a => some { e with state := .shared, shared := e.shared.tail ++ [a] }
    else some { e with state := .shared, shared := e.shared ++ addr.toList }

/-- `ToDirty`. -/
def toDirty (addr : GAddr Node) : Option (DirEntry Node) → Option (DirEntry Node)
  | none => some ⟨.dirty, [addr], ∅⟩
  | some e => some { e with state := .dirty, shared := [addr] }

/-- `ToUnShared`: the entry only survives for its locks. -/
def toUnShared : Option (DirEntry Node) → Option (DirEntry Node)
  | none => none
  | some e => if e.locks.isBlockLocked then some { e with state := .unshared, shared := [] } else none

/-- `ToToShared`, `ToToUnShared` and `ToToDirty`. -/
def toToShared : Option (DirEntry Node) → Option (DirEntry Node) := setState .toShared
def toToUnShared : Option (DirEntry Node) → Option (DirEntry Node) := setState .toUnshared
def toToDirty : Option (DirEntry Node) → Option (DirEntry Node) := setState .toDirty

/-- `UndoShared` and `UndoDirty`. -/
def undoShared : Option (DirEntry Node) → Option (DirEntry Node) := setState .shared
def undoDirty : Option (DirEntry Node) → Option (DirEntry Node) := setState .dirty

/-- `Remove`: the first address of worker `wid` leaves the list. -/
def remove (wid : Node) : Option (DirEntry Node) → Option (DirEntry Node)
  | none => none
  | some e =>
    let shared := e.shared.eraseP fun a => decide (a.wid = wid)
    if shared.isEmpty && !e.locks.isBlockLocked then none else some { e with shared }

/-- `Clear`: an evicted line leaves the list, if it is still in it. -/
def clear (addr : GAddr Node) : Option (DirEntry Node) → Option (DirEntry Node)
  | none => none
  | some e =>
    let shared :=
      if e.state = .dirty then if e.shared.head? = some addr then e.shared.tail else e.shared
      else e.shared.filter fun a => decide (a ≠ addr)
    if shared.isEmpty then
      if e.locks.isBlockLocked then some { e with state := .unshared, shared } else none
    else some { e with shared }

/-- `IsWLocked`: at the home an exclusive lock only counts in `DIR_UNSHARED`. -/
def isWLocked (addr : GAddr Node) (e : DirEntry Node) : Bool :=
  decide (e.state = .unshared) && decide (e.locks.lookup addr = some exclusiveLockTag)

/-- `IsRLocked`. -/
def isRLocked (addr : GAddr Node) (e : DirEntry Node) : Bool :=
  match e.locks.lookup addr with
  | some k => decide (0 < k) && decide (k ≠ exclusiveLockTag)
  | none => false

/-- `RLock`; `none` is the failure code. -/
def rLock (addr : GAddr Node) : Option (DirEntry Node) → Option (DirEntry Node)
  | none => some ⟨.unshared, [], Locks.share addr ∅⟩
  | some e =>
    if isWLocked addr e then none else some { e with locks := Locks.share addr e.locks }

/-- `WLock`; `none` is the failure code. -/
def wLock (addr : GAddr Node) : Option (DirEntry Node) → Option (DirEntry Node)
  | none => some ⟨.unshared, [], Locks.exclude addr ∅⟩
  | some e =>
    if isWLocked addr e || isRLocked addr e then none else some { e with locks := Locks.exclude addr e.locks }

/-- The lock table after `UnLock`. -/
def releaseLock (addr : GAddr Node) (e : DirEntry Node) : Locks Node :=
  let left := if isWLocked addr e then 0 else (e.locks.lookup addr).getD 0 - 1
  if left = 0 then e.locks.erase addr else e.locks.insert addr left

/-- `UnLock`: an entry that was kept for this lock only is dropped. -/
def unLock (addr : GAddr Node) : Option (DirEntry Node) → Option (DirEntry Node)
  | none => none
  | some e =>
    let locks := releaseLock addr e
    if e.state = .unshared && !Locks.isBlockLocked locks then none else some { e with locks }

end Directory

end Gam
