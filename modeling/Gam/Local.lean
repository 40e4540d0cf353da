import Gam.BlockState

/-! One round of the block loops of application requests: `Cache::ReadWrite` and
`Cache::Lock` at a worker that caches the block, `ProcessLocalRead`, `ProcessLocalWrite`,
`ProcessLocalRLock`, `ProcessLocalWLock` and `ProcessLocalUnLock` at its home, and
`Cache::Evict`. -/

namespace Gam.BlockState
variable {Node : Type} [DecidableEq Node]

/-- `Cache::ReadWrite` for `READ`. Lines in `CACHE_TO_INVALID`, and read-locked lines in
`CACHE_TO_DIRTY`, still serve reads. -/
def cacheRead (b : Block Node) (n : Node) (rq : Req Node) (fresh : Fresh) (s : BlockState Node) :
    BlockState Node × List (Out Node) :=
  match s.line n with
  | some l =>
    if l.state = .toInvalid ∨ (l.state = .toDirty ∧ l.locks.isBlockLocked) then
      (s, [.served rq l.data])
    else if l.state.inTransition then (s.addToServeLocal n rq, [.postponed rq])
    else (s, [.served rq l.data])
  | none =>
    ((s.setLine n (some (Cache.setCLine fresh.ptr fresh.data .toShared))).submit n b.wid .read
      fresh.id fresh.ptr ⟨false, rq.tryLock⟩ rq, [.sent rq])

/-- `Cache::ReadWrite` for `WRITE`. A shared line is upgraded, with an early copy. -/
def cacheWrite (b : Block Node) (n : Node) (rq : Req Node) (fresh : Fresh) (s : BlockState Node) :
    BlockState Node × List (Out Node) :=
  match s.line n with
  | some l =>
    if l.state.inTransition then (s.addToServeLocal n rq, [.postponed rq])
    else if l.state ≠ .dirty then
      ((s.setLine n (some { l with state := .toDirty, data := rq.early b l.data })).submit n b.wid
        .writePermissionOnly fresh.id l.ptr ⟨false, rq.tryLock⟩ rq, [.sent rq])
    else (s.setLine n (some { l with data := rq.apply b l.data }), [.applied rq])
  | none =>
    ((s.setLine n (some (Cache.setCLine fresh.ptr fresh.data .toDirty))).submit n b.wid .write
      fresh.id fresh.ptr ⟨false, rq.tryLock⟩ rq, [.sent rq])

/-- A lock that is taken: a try-lock gives up, any other request waits in the queue. -/
def lockBusy (n : Node) (rq : Req Node) (s : BlockState Node) : BlockState Node × List (Out Node) :=
  if rq.tryLock then (s, [.refused rq]) else (s.addToServeLocal n rq, [.postponed rq])

/-- `Cache::Lock` for `RLOCK`. -/
def cacheRLock (b : Block Node) (n : Node) (rq : Req Node) (fresh : Fresh) (s : BlockState Node) :
    BlockState Node × List (Out Node) :=
  match s.line n with
  | some l =>
    if l.state.inTransition then (s.addToServeLocal n rq, [.postponed rq])
    else
      match Cache.rLock rq.addr l with
      | some l' => (s.setLine n (some l'), [.granted rq])
      | none => s.lockBusy n rq
  | none =>
    ((s.setLine n (some (Cache.setCLine fresh.ptr fresh.data .toShared))).submit n b.wid .read
      fresh.id fresh.ptr ⟨true, rq.tryLock⟩ rq, [.sent rq])

/-- `Cache::Lock` for `WLOCK`. -/
def cacheWLock (b : Block Node) (n : Node) (rq : Req Node) (fresh : Fresh) (s : BlockState Node) :
    BlockState Node × List (Out Node) :=
  match s.line n with
  | some l =>
    if l.state.inTransition then (s.addToServeLocal n rq, [.postponed rq])
    else if l.state ≠ .dirty then
      ((s.setLine n (some (Cache.setState .toDirty l))).submit n b.wid .writePermissionOnly
        fresh.id l.ptr ⟨true, rq.tryLock⟩ rq, [.sent rq])
    else
      match Cache.wLock rq.addr l with
      | some l' => (s.setLine n (some l'), [.granted rq])
      | none => s.lockBusy n rq
  | none =>
    ((s.setLine n (some (Cache.setCLine fresh.ptr fresh.data .toDirty))).submit n b.wid .write
      fresh.id fresh.ptr ⟨true, rq.tryLock⟩ rq, [.sent rq])

/-- The home fetches a dirty block for a local read: `FETCH_AND_SHARED` to the owner. -/
def fetchShared (b : Block Node) (rq : Req Node) (flag : Flag) (id : Nat) (s : BlockState Node) :
    BlockState Node × List (Out Node) :=
  match s.sharers with
  | [] => (s, [])
  | rc :: _ =>
    (((s.setEntry (Directory.toToShared s.entry)).addPending b.wid
      ⟨.fetchAndShared, id, flag, 0, .success, some rq⟩).send b.wid rc.wid
        [.msg (.command ⟨.fetchAndShared, id, flag⟩)], [.sent rq])

/-- The home takes a block back from everyone who caches it, for a local write:
`FETCH_AND_INVALIDATE` to the owner or `INVALIDATE` to all sharers. -/
def fetchInvalidate (b : Block Node) (rq : Req Node) (flag : Flag) (id : Nat) (s : BlockState Node) :
    BlockState Node × List (Out Node) :=
  let dirty := s.dirState = .dirty
  (((s.setEntry (Directory.toToUnShared s.entry)).addPending b.wid
    ⟨if dirty then .fetchAndInvalidate else .invalidate, id, flag, s.sharers.length, .success,
      some rq⟩).broadcast b.wid (s.sharers.map GAddr.wid)
        (.command ⟨if dirty then .fetchAndInvalidate else .invalidate, id, flag⟩), [.sent rq])

/-- `ProcessLocalRead` for a block of local memory. -/
def homeRead (b : Block Node) (rq : Req Node) (fresh : Fresh) (s : BlockState Node) :
    BlockState Node × List (Out Node) :=
  if s.dirState.inTransition then (s.addToServeLocal b.wid rq, [.postponed rq])
  else if s.dirState = .dirty then s.fetchShared b rq ⟨false, rq.tryLock⟩ fresh.id
  else (s, [.served rq s.mem])

/-- `ProcessLocalWrite` for a block of local memory. -/
def homeWrite (b : Block Node) (rq : Req Node) (fresh : Fresh) (s : BlockState Node) :
    BlockState Node × List (Out Node) :=
  if s.dirState.inTransition then (s.addToServeLocal b.wid rq, [.postponed rq])
  else if s.dirState = .dirty ∨ s.dirState = .shared then
    s.fetchInvalidate b rq ⟨false, rq.tryLock⟩ fresh.id
  else (s.setMem (rq.apply b s.mem), [.applied rq])

/-- `ProcessLocalRLock` for a block of local memory. -/
def homeRLock (b : Block Node) (rq : Req Node) (fresh : Fresh) (s : BlockState Node) :
    BlockState Node × List (Out Node) :=
  if s.dirState.inTransition then (s.addToServeLocal b.wid rq, [.postponed rq])
  else if s.dirState = .dirty then s.fetchShared b rq ⟨true, rq.tryLock⟩ fresh.id
  else
    match Directory.rLock rq.addr s.entry with
    | some e => (s.setEntry (some e), [.granted rq])
    | none => s.lockBusy b.wid rq

/-- `ProcessLocalWLock` for a block of local memory. -/
def homeWLock (b : Block Node) (rq : Req Node) (fresh : Fresh) (s : BlockState Node) :
    BlockState Node × List (Out Node) :=
  if s.dirState.inTransition then (s.addToServeLocal b.wid rq, [.postponed rq])
  else if s.dirState = .dirty ∨ s.dirState = .shared then
    s.fetchInvalidate b rq ⟨true, rq.tryLock⟩ fresh.id
  else
    match Directory.wLock rq.addr s.entry with
    | some e => (s.setEntry (some e), [.granted rq])
    | none => s.lockBusy b.wid rq

/-- One round of the loop over the blocks of a request, at the worker `n` it was issued on. -/
def localRequest (b : Block Node) (n : Node) (rq : Req Node) (fresh : Fresh)
    (s : BlockState Node) : BlockState Node × List (Out Node) :=
  match rq.op with
  | .read => if n = b.wid then s.homeRead b rq fresh else s.cacheRead b n rq fresh
  | .write => if n = b.wid then s.homeWrite b rq fresh else s.cacheWrite b n rq fresh
  | .rlock => if n = b.wid then s.homeRLock b rq fresh else s.cacheRLock b n rq fresh
  | .wlock => if n = b.wid then s.homeWLock b rq fresh else s.cacheWLock b n rq fresh
  | .unlock | .mfence | .sfence => (s, [])

/-- The lock table part of `ProcessLocalUnLock`. -/
def unLock (b : Block Node) (n : Node) (rq : Req Node) (s : BlockState Node) : BlockState Node :=
  if n = b.wid then s.setEntry (Directory.unLock rq.addr s.entry)
  else
    match s.line n with
    | some l => s.setLine n (some (Cache.unLock rq.addr l))
    | none => s

/-- `Cache::Evict` of the line at worker `n`; only unlocked lines that are not in transition
are chosen. -/
def evict (b : Block Node) (n : Node) (id : Nat) (s : BlockState Node) : BlockState Node :=
  match s.line n with
  | none => s
  | some l =>
    if l.locks.isBlockLocked then s
    else
      match l.state with
      | .shared => (s.setLine n none).send n b.wid [.msg (.request (.activeInvalidate l.ptr))]
      | .dirty =>
        ((s.setLine n (some (Cache.setState .toInvalid l))).addPending n
          ⟨.writeBack, id, ⟨false, false⟩, 0, .success, none⟩).send n b.wid
            [.mem l.data, .msg (.request (.writeBack id l.ptr))]
      | .toShared | .toDirty | .toInvalid => s

end Gam.BlockState
