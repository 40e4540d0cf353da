import Gam.Directory

/-! A cache line of one block at one worker (`cache.h`). A line that is not cached is
`none` in the block's state, so `CACHE_INVALID` needs no constructor. -/

namespace Gam

inductive CacheState
  | shared | dirty | toShared | toDirty | toInvalid
deriving DecidableEq, Repr

/-- `Cache::InTransitionState`. -/
def CacheState.inTransition : CacheState → Bool
  | .toShared | .toDirty | .toInvalid => true
  | .shared | .dirty => false

/-- `line` of the source, the buffer, is split into its address `ptr` and its content. -/
structure CacheLine (Node : Type) where
  ptr : Nat
  state : CacheState
  locks : Locks Node
  data : Data

namespace Cache
variable {Node : Type} [DecidableEq Node]

def setState (state : CacheState) (l : CacheLine Node) : CacheLine Node := { l with state }

/-- `SetCLine`: a fresh line in a buffer the allocator returned; what the buffer held before
is arbitrary and shows up as `d`. -/
def setCLine (ptr : Nat) (d : Data) (state : CacheState) : CacheLine Node := ⟨ptr, state, ∅, d⟩

def isWLocked (addr : GAddr Node) (locks : Locks Node) : Bool :=
  decide (locks.lookup addr = some exclusiveLockTag)

def isRLocked (addr : GAddr Node) (locks : Locks Node) : Bool :=
  match locks.lookup addr with
  | some k => decide (k ≠ exclusiveLockTag)
  | none => false

theorem locked_of_isWLocked {addr : GAddr Node} {locks : Locks Node} (taken : isWLocked addr locks = true) :
    locks.isBlockLocked = true :=
  Locks.locked_of_lookup (by simpa [isWLocked] using taken)

theorem locked_of_taken {addr : GAddr Node} {locks : Locks Node}
    (taken : (isWLocked addr locks || isRLocked addr locks) = true) : locks.isBlockLocked = true := by
  rcases Bool.or_eq_true_iff.mp taken with writer | readers
  · exact locked_of_isWLocked writer
  · unfold isRLocked at readers
    cases held : locks.lookup addr with
    | none => simp [held] at readers
    | some k => exact Locks.locked_of_lookup held

/-- `RLock`; `none` is the failure code. -/
def rLock (addr : GAddr Node) (l : CacheLine Node) : Option (CacheLine Node) :=
  if isWLocked addr l.locks then none else some { l with locks := Locks.share addr l.locks }

/-- `WLock`; `none` is the failure code. -/
def wLock (addr : GAddr Node) (l : CacheLine Node) : Option (CacheLine Node) :=
  if isWLocked addr l.locks || isRLocked addr l.locks then none
  else some { l with locks := Locks.exclude addr l.locks }

/-- The lock table after `UnLock`; a missing lock makes `at` throw, and nothing changes. -/
def releaseLock (addr : GAddr Node) (locks : Locks Node) : Locks Node :=
  match locks.lookup addr with
  | none => locks
  | some k =>
    if k = exclusiveLockTag ∨ k - 1 = 0 then locks.erase addr else locks.insert addr (k - 1)

/-- `UnLock`. -/
def unLock (addr : GAddr Node) (l : CacheLine Node) : CacheLine Node :=
  { l with locks := releaseLock addr l.locks }

end Cache

end Gam
