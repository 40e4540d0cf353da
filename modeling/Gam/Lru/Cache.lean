import Gam.Lru.Lists

/-!
# A node's cache

What the requests of the application, the replies, the requests of other nodes and eviction do to the
lines of a cache, to its lists and to its counters. Requests that are put off come again later. How full
a cache is before it evicts is left out: an eviction can happen at any time.
-/

namespace Gam.Lru

open Function

/-- What happens at a node. A pointer for a new line and the choice of a list come with an event. -/
inductive Event (Node : Type) where
  | readWrite (write : Bool) (block : Block Node) (pick : Pick) (fresh : Nat)
  | lock (exclusive : Bool) (addr : GAddr Node) (pick : Pick) (fresh : Nat)
  | unLock (addr : GAddr Node)
  | reply (id : Nat) (ok : Bool) (pick : Pick)
  | fetchShared (block : Block Node) (pick : Pick)
  | fetchInvalidate (block : Block Node)
  | invalidate (block : Block Node)
  | evict (list : Nat) (free : Bool)

namespace State

variable {Node : Type} [DecidableEq Node]

/-- `GetCLine`: the pointer and the line. -/
def getCLine (block : Block Node) (s : State Node) : Option (Nat × Line Node) :=
  (s.caches block).bind fun p => (s.lines p).map fun l => (p, l)

def setState (p : Nat) (state : CacheState) (s : State Node) : State Node := s.modify p fun l => { l with state }

def setLocks (p : Nat) (locks : Locks Node) (s : State Node) : State Node := s.modify p fun l => { l with locks }

/-- `AddToPending`. -/
def await (q : Pending Node) (s : State Node) : State Node := { s with pending := q :: s.pending }

/-- `SetCLine` for a block that is not cached, followed by `ToToShared` or `ToToDirty`. -/
def newLine (p : Nat) (block : Block Node) (state : CacheState) (s : State Node) : State Node :=
  { s with
    lines := update s.lines p (some { addr := block, state, locks := ∅ })
    caches := update s.caches block (some p)
    usedBytes := s.usedBytes + blockSize }

/-- `ToShared`. -/
def toShared (pick : Pick) (p : Nat) (s : State Node) : State Node :=
  let s := if (s.lines p).map Line.state = some .toShared then s.linkLRU pick p else s
  s.setState p .shared

/-- `ToDirty`. -/
def toDirty (pick : Pick) (p : Nat) (s : State Node) : State Node := (s.setState p .dirty).linkLRU pick p

/-- The line leaves the table and is deleted. -/
def dropLine (p : Nat) (block : Block Node) (s : State Node) : State Node :=
  { s with lines := update s.lines p none, caches := update s.caches block none }

/-- `ToToInvalid`. -/
def toToInvalid (p : Nat) (s : State Node) : State Node :=
  let s := s.setState p .toInvalid
  { s with toEvicted := s.toEvicted + 1 }

/-- What `ToInvalid` takes off the counters. -/
def discount (l : Line Node) (s : State Node) : State Node :=
  { s with
    usedBytes := s.usedBytes - blockSize
    toEvicted := if l.state = .toInvalid then s.toEvicted - 1 else s.toEvicted }

/-- `ToInvalid`: the line is unlinked and deleted. -/
def toInvalid (p : Nat) (s : State Node) : State Node :=
  match s.lines p with
  | none => s
  | some l => ((s.discount l).unLinkLRU p).dropLine p l.addr

/-- A hit moves the line to the front of a list. -/
def touch (pick : Pick) (p : Nat) (s : State Node) : State Node := (s.unLinkLRU p).linkLRU pick p

/-- A shared line that is to be written: the permission is asked for. -/
def upgrade (p : Nat) (q : Pending Node) (s : State Node) : State Node := ((s.setState p .toDirty).unLinkLRU p).await q

/-- The body of the loop of `ReadWrite` for one block. -/
def readWrite (write : Bool) (block : Block Node) (pick : Pick) (fresh : Nat) (s : State Node) : Option (State Node) :=
  match s.getCLine block with
  | some (p, l) =>
    if l.state.inTransition then some s
    else if write && l.state ≠ .dirty then some (s.upgrade p ⟨block, .writePermissionOnly, none⟩)
    else some (s.touch pick p)
  | none =>
    if (s.lines fresh).isSome then none
    else if write then some ((s.newLine fresh block .toDirty).await ⟨block, .write, none⟩)
    else some ((s.newLine fresh block .toShared).await ⟨block, .read, none⟩)

/-- `Lock`. -/
def lock (exclusive : Bool) (addr : GAddr Node) (pick : Pick) (fresh : Nat) (s : State Node) : Option (State Node) :=
  match s.getCLine addr.toBlock with
  | some (p, l) =>
    if l.state.inTransition then some s
    else if exclusive then
      if l.state ≠ .dirty then some (s.upgrade p ⟨addr.toBlock, .writePermissionOnly, some addr⟩)
      else if Cache.isWLocked addr l.locks || Cache.isRLocked addr l.locks then some (s.touch pick p)
      else some ((s.touch pick p).setLocks p (l.locks.exclude addr))
    else if Cache.isWLocked addr l.locks then some s
    else some ((s.setLocks p (l.locks.share addr)).touch pick p)
  | none =>
    if (s.lines fresh).isSome then none
    else if exclusive then some ((s.newLine fresh addr.toBlock .toDirty).await ⟨addr.toBlock, .write, some addr⟩)
    else some ((s.newLine fresh addr.toBlock .toShared).await ⟨addr.toBlock, .read, some addr⟩)

def unLock (addr : GAddr Node) (s : State Node) : State Node :=
  match s.getCLine addr.toBlock with
  | none => s
  | some (p, l) => s.setLocks p (Cache.releaseLock addr l.locks)

/-- The lock that a request waited for is taken when its line is there. -/
def takeLock (p : Nat) (exclusive : Bool) (addr : Option (GAddr Node)) (s : State Node) : State Node :=
  match addr with
  | none => s
  | some addr =>
    s.modify p fun l =>
      if Cache.isWLocked addr l.locks || (exclusive && Cache.isRLocked addr l.locks) then l
      else { l with locks := if exclusive then l.locks.exclude addr else l.locks.share addr }

/-- The last answer to a pending request: `ProcessPendingRead`, `ProcessPendingWrite`,
`ProcessPendingEvictDirty` and `CompletionCheck`, or the failure of a read or a write. -/
def answer (q : Pending Node) (ok : Bool) (pick : Pick) (p : Nat) (s : State Node) : State Node :=
  match q.op, ok with
  | .read, true => (s.toShared pick p).takeLock p false q.lock
  | .write, true => (s.toDirty pick p).takeLock p true q.lock
  | .writePermissionOnly, true => (s.toDirty pick p).takeLock p true q.lock
  | .writePermissionOnly, false => s.setState p .shared
  | _, _ => s.toInvalid p

def reply (id : Nat) (ok : Bool) (pick : Pick) (s : State Node) : State Node :=
  match s.pending[id]? with
  | none => s
  | some q =>
    let s := { s with pending := s.pending.eraseIdx id }
    match s.caches q.block with
    | none => s
    | some p => s.answer q ok pick p

/-- `ProcessRemoteReadCache`. -/
def fetchShared (block : Block Node) (pick : Pick) (s : State Node) : State Node :=
  match s.getCLine block with
  | none => s
  | some (p, l) => if l.state.inTransition || l.locks.isBlockWLocked then s else s.toShared pick p

/-- `ProcessRemoteWriteCache` for `FETCH_AND_INVALIDATE` and `WRITE_FORWARD`. -/
def fetchInvalidate (block : Block Node) (s : State Node) : State Node :=
  match s.getCLine block with
  | none => s
  | some (p, l) =>
    if l.state.inTransition || l.locks.isBlockLocked then s else (s.toToInvalid p).await ⟨block, .invalidate, none⟩

/-- `ProcessRemoteWriteCache` for `INVALIDATE` and `INVALIDATE_FORWARD`. -/
def invalidate (block : Block Node) (s : State Node) : State Node :=
  match s.getCLine block with
  | none => s
  | some (p, l) => if l.state.inTransition || l.locks.isBlockLocked then s else s.toInvalid p

/-- `UnLinkLRU(to_evict, to_evict->pos)`. -/
def unLinkOwn (p : Nat) (l : Line Node) (s : State Node) : State Node :=
  match l.pos with
  | none => s
  | some i => s.unLinkAt p i

/-- One turn of the loop of `Evict(n)`, which tries the last line of a list, with `Evict(cline)`; `free`
says whether the lock of its block is. -/
def evict (list : Nat) (free : Bool) (s : State Node) : State Node :=
  match s.tails (list % lruNum) with
  | none => s
  | some p =>
    match s.lines p with
    | none => s
    | some l =>
      if !free || l.locks.isBlockLocked || l.state.inTransition then s
      else
        let s := s.unLinkOwn p l
        if l.state = .shared then s.toInvalid p else (s.toToInvalid p).await ⟨l.addr, .writeBack, none⟩

def step (s : State Node) : Event Node → Option (State Node)
  | .readWrite write block pick fresh => s.readWrite write block pick fresh
  | .lock exclusive addr pick fresh => s.lock exclusive addr pick fresh
  | .unLock addr => some (s.unLock addr)
  | .reply id ok pick => some (s.reply id ok pick)
  | .fetchShared block pick => some (s.fetchShared block pick)
  | .fetchInvalidate block => some (s.fetchInvalidate block)
  | .invalidate block => some (s.invalidate block)
  | .evict list free => some (s.evict list free)

def run (s : State Node) (events : List (Event Node)) : Option (State Node) := events.foldlM step s

end State

end Gam.Lru
