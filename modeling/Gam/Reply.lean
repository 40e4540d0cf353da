import Gam.Remote

/-! What a worker does when an answer arrives or one of its signaled sends completes
(`pending_request.cc`, `ProcessRemoteReadReply`, `ProcessRemoteWriteReply` and
`CompletionCheck`), and the steps of one block as a whole. -/

namespace Gam.BlockState
variable {Node : Type} [DecidableEq Node]

/-- The tail of a lock request whose `RLock` has just run. -/
def rLockDone (rq : Req Node) (granted : Bool) : List (Out Node) :=
  (if granted then [.granted rq] else []) ++ [.replied rq]

/-- `ProcessPendingRead` for `READ`: the line of worker `n` has its data. -/
def pendingReadCache (n : Node) (p : Pending Node) (rq : Req Node) (s : BlockState Node) :
    BlockState Node × List (Out Node) :=
  match s.line n with
  | none => (s, [])
  | some l =>
    let l' := Cache.setState .shared l
    if p.flag.locked then
      match Cache.rLock rq.addr l' with
      | some l'' =>
        ((s.setLine n (some l'')).erasePending n p.id, rLockDone rq true ++ [.process n])
      | none => ((s.setLine n (some l')).erasePending n p.id, rLockDone rq false ++ [.process n])
    else
      ((s.setLine n (some l')).erasePending n p.id, [.served rq l.data, .replied rq, .process n])

/-- `ProcessPendingRead` for `FETCH_AND_SHARED`: the home has the data back. -/
def pendingReadHome (b : Block Node) (p : Pending Node) (rq : Req Node) (s : BlockState Node) :
    BlockState Node × List (Out Node) :=
  let entry := Directory.toShared none s.entry
  if p.flag.locked then
    match Directory.rLock rq.addr entry with
    | some e =>
      ((s.setEntry (some e)).erasePending b.wid p.id, rLockDone rq true ++ [.process b.wid])
    | none =>
      ((s.setEntry entry).erasePending b.wid p.id, rLockDone rq false ++ [.process b.wid])
  else
    ((s.setEntry entry).erasePending b.wid p.id, [.served rq s.mem, .replied rq, .process b.wid])

/-- `ProcessPendingReadForward`. -/
def pendingReadForward (b : Block Node) (p : Pending Node) (parent : Remote Node)
    (s : BlockState Node) : BlockState Node × List (Out Node) :=
  ((s.setEntry (Directory.toShared (some ⟨parent.wid, parent.ptr⟩)
    (Directory.toShared none s.entry))).erasePending b.wid p.id, [.process b.wid])

/-- The application hears that its try-lock failed. -/
def giveUp (n : Node) (rq : Req Node) : List (Out Node) :=
  [.refused rq, .decremented rq, .notify rq, .process n]

/-- The end of a failed write or upgrade at a caching worker: `ToInvalid` of a missed line,
`UndoShared` of an upgraded one. -/
def undoAccess (n : Node) (op : AccessOp) (p : Pending Node) (rq : Req Node)
    (s : BlockState Node) : BlockState Node × List (Out Node) :=
  ((s.setLine n (if op = .write then none else (s.line n).map (Cache.setState .shared))).erasePending
    n p.id, giveUp n rq)

/-- The end of a failed write of the home: `UndoDirty` or `UndoShared`. -/
def undoHome (b : Block Node) (p : Pending Node) (rq : Req Node) (s : BlockState Node) :
    BlockState Node × List (Out Node) :=
  ((s.setEntry (if p.op = .fetchAndInvalidate then Directory.undoDirty s.entry
    else Directory.undoShared s.entry)).erasePending b.wid p.id, giveUp b.wid rq)

/-- The end of a successful write or upgrade at a caching worker. -/
def finishAccess (b : Block Node) (n : Node) (p : Pending Node) (rq : Req Node)
    (s : BlockState Node) : BlockState Node × List (Out Node) :=
  match s.line n with
  | none => (s, [])
  | some l =>
    if p.flag.locked then
      let l' := Cache.setState .dirty l
      match Cache.wLock rq.addr l' with
      | some l'' =>
        ((s.setLine n (some l'')).erasePending n p.id, [.granted rq, .decremented rq, .notify rq, .process n])
      -- other threads of this worker hold read locks: wait for them
      | none =>
        (((s.setLine n (some l')).erasePending n p.id).addToServeLocal n rq,
          [.decremented rq, .postponed rq, .process n])
    else
      ((s.setLine n (some { l with state := .dirty, data := rq.apply b l.data })).erasePending n p.id,
        [.applied rq, .replied rq, .process n])

/-- The end of a successful write of the home; the shared list is empty by now. -/
def finishHome (b : Block Node) (p : Pending Node) (rq : Req Node) (s : BlockState Node) :
    BlockState Node × List (Out Node) :=
  let entry := Directory.toUnShared s.entry
  if p.flag.locked then
    match Directory.wLock rq.addr entry with
    | some e =>
      ((s.setEntry (some e)).erasePending b.wid p.id, [.granted rq, .decremented rq, .notify rq, .process b.wid])
    | none =>
      (((s.setEntry entry).erasePending b.wid p.id).addToServeLocal b.wid rq,
        [.decremented rq, .postponed rq, .process b.wid])
  else
    (((s.setMem (rq.apply b s.mem)).setEntry entry).erasePending b.wid p.id, [.applied rq, .replied rq, .process b.wid])

/-- The counter of a pending write after an answer of `client`: answers of the home count up,
answers of other workers count down, and a `WRITE_REPLY` has already been counted (`done`). -/
def countReply (b : Block Node) (client : Node) (done : Bool) (counter : Int) : Int :=
  if done then counter else if client = b.wid then counter + 1 else counter - 1

/-- `ProcessPendingWrite` for `WRITE` and `WRITE_PERMISSION_ONLY`. -/
def pendingWriteCache (b : Block Node) (n client : Node) (op : AccessOp) (p : Pending Node)
    (done : Bool) (rq : Req Node) (s : BlockState Node) : BlockState Node × List (Out Node) :=
  let counter := countReply b client done p.counter
  if p.status ≠ .success then
    if counter = 0 then s.undoAccess n op p rq else (s.setPending n { p with counter }, [])
  else if counter = 0 ∨ done then s.finishAccess b n p rq
  else (s.setPending n { p with counter }, [])

/-- `ProcessPendingWrite` for `FETCH_AND_INVALIDATE` and `INVALIDATE`. -/
def pendingWriteHome (b : Block Node) (client : Node) (p : Pending Node) (done : Bool)
    (rq : Req Node) (s : BlockState Node) : BlockState Node × List (Out Node) :=
  let counter := countReply b client done p.counter
  let s := s.setEntry (Directory.remove client s.entry)
  if p.status ≠ .success then
    if counter = 0 then s.undoHome b p rq else (s.setPending b.wid { p with counter }, [])
  else if counter = 0 ∨ done then s.finishHome b p rq
  else (s.setPending b.wid { p with counter }, [])

/-- `ProcessPendingWriteForward`. -/
def pendingWriteForward (b : Block Node) (p : Pending Node) (parent : Remote Node)
    (s : BlockState Node) : BlockState Node × List (Out Node) :=
  (((s.setEntry (Directory.toDirty ⟨parent.wid, parent.ptr⟩ s.entry)).sendImm b.wid parent.wid
    parent.id).erasePending b.wid p.id, [.process b.wid])

/-- `ProcessPendingEvictDirty`. -/
def pendingEvictDirty (n : Node) (p : Pending Node) (s : BlockState Node) : BlockState Node × List (Out Node) :=
  ((s.setLine n none).erasePending n p.id, [.process n])

/-- A failed `INVALIDATE_FORWARD` ends: the requester hears about it. -/
def undoInvalidateForward (b : Block Node) (p : Pending Node) (parent : Remote Node)
    (status : Status) (s : BlockState Node) : BlockState Node × List (Out Node) :=
  (((s.setEntry (Directory.undoShared s.entry)).send b.wid parent.wid
    [.msg (.reply (.writeReply parent.id status 0))]).erasePending b.wid p.id, [.process b.wid])

/-- `ProcessPendingInvalidateForward`. A requester that has lost its copy gets the data too. -/
def pendingInvalidateForward (b : Block Node) (client : Node) (p : Pending Node)
    (parent : Remote Node) (s : BlockState Node) : BlockState Node × List (Out Node) :=
  let counter := p.counter - 1
  let s := s.setEntry (Directory.remove client s.entry)
  if p.status ≠ .success then
    if counter = 0 then s.undoInvalidateForward b p parent p.status
    else (s.setPending b.wid { p with counter }, [])
  else if counter = 0 then
    let data : List (Item Node) :=
      if parent.op = .write ∨ s.dirState = .unshared then [.line parent.ptr s.mem] else []
    ((s.grantOwnership b parent.wid parent.id parent.ptr data).erasePending b.wid p.id, [.process b.wid])
  else (s.setPending b.wid { p with counter }, [])

/-- `ProcessPendingRequest`: worker `n` has got an answer of `client` for `p`. -/
def processPending (b : Block Node) (n client : Node) (p : Pending Node) (done : Bool)
    (s : BlockState Node) : BlockState Node × List (Out Node) :=
  match p.op, p.parent with
  | .access .read, some rq => s.pendingReadCache n p rq
  | .access op, some rq => s.pendingWriteCache b n client op p done rq
  | .fetchAndShared, some rq => s.pendingReadHome b p rq
  | .fetchAndInvalidate, some rq | .invalidate, some rq => s.pendingWriteHome b client p done rq
  | .readForward parent, _ => s.pendingReadForward b p parent
  | .writeForward parent, _ => s.pendingWriteForward b p parent
  | .invalidateForward parent, _ => s.pendingInvalidateForward b client p parent
  | .writeBack, _ => s.pendingEvictDirty n p
  | _, _ => (s, [])

/-- `ProcessRemoteReadReply`. -/
def processReadReply (b : Block Node) (n : Node) (p : Pending Node) (s : BlockState Node) :
    BlockState Node × List (Out Node) :=
  match p.op, p.parent with
  | .access .read, some rq =>
    ((s.setLine n none).erasePending n p.id, [.refused rq, .notify rq, .process n])
  | .fetchAndShared, some rq =>
    ((s.setEntry (Directory.undoDirty s.entry)).erasePending n p.id, [.refused rq, .notify rq, .process n])
  | .readForward _, _ =>
    ((s.setEntry (Directory.undoDirty s.entry)).erasePending n p.id, [.process b.wid])
  | _, _ => (s, [])

/-- `ProcessRemoteWriteReply` with an error status. -/
def failWriteReply (b : Block Node) (n client : Node) (p : Pending Node) (status : Status)
    (s : BlockState Node) : BlockState Node × List (Out Node) :=
  let counter := if client = b.wid then 0 else p.counter - 1
  match p.op, p.parent with
  | .access op, some rq =>
    if op = .read then (s, [])
    else if counter = 0 then s.undoAccess n op p rq
    else (s.setPending n { p with counter, status }, [])
  | .fetchAndInvalidate, some rq | .invalidate, some rq =>
    if counter = 0 then s.undoHome b p rq else (s.setPending n { p with counter, status }, [])
  | .writeForward parent, _ =>
    (((s.setEntry (Directory.undoDirty s.entry)).sendImm b.wid parent.wid parent.id).erasePending
      b.wid p.id, [.process b.wid])
  | .invalidateForward parent, _ =>
    if p.counter - 1 = 0 then s.undoInvalidateForward b p parent status
    else (s.setPending n { p with counter := p.counter - 1, status }, [])
  | _, _ => (s, [])

/-- An answer of worker `client` reaches worker `n`; without a pending work request for it
the code would fail, and the model does nothing. -/
def processReply (b : Block Node) (n client : Node) (r : Reply) (s : BlockState Node) :
    BlockState Node × List (Out Node) :=
  match r with
  | .imm id =>
    match s.getPending n id with
    | none => (s, [])
    | some p => s.processPending b n client p false
  | .readReply id _ =>
    match s.getPending n id with
    | none => (s, [])
    | some p => s.processReadReply b n p
  | .writeReply id status counter =>
    match s.getPending n id with
    | none => (s, [])
    | some p =>
      if status ≠ .success then s.failWriteReply b n client p status
      else if p.counter + counter = 0 then
        s.processPending b n client { p with counter := p.counter + counter } true
      else (s.setPending n { p with counter := p.counter + counter }, [])

/-- `CompletionCheck`. -/
def completionCheck (n : Node) (id : Nat) (s : BlockState Node) : BlockState Node × List (Out Node) :=
  match s.getPending n id with
  | none => (s, [])
  | some p =>
    if p.op = .pendingInvalidate then
      ((s.setLine n none).erasePending n id, [.process n])
    else (s.erasePending n id, [])

/-- The oldest item on the channel from `src` to `dst` arrives. -/
def deliver (b : Block Node) (src dst : Node) (newId : Nat) (s : BlockState Node) : BlockState Node × List (Out Node) :=
  match s.chan src dst with
  | [] => (s, [])
  | item :: rest =>
    let s' := s.setChan src dst rest
    match item with
    | .mem d => (if dst = b.wid then s'.setMem d else s', [])
    | .line ptr d =>
      match s.line dst with
      | some l => (if l.ptr = ptr then s'.setLine dst (some { l with data := d }) else s', [])
      | none => (s', [])
    | .msg (.reply r) => s'.processReply b dst src r
    | .msg m => (s'.processRequest b dst src m newId, [])

/-- The oldest signaled send of worker `n` completes. -/
def complete (n : Node) (s : BlockState Node) : BlockState Node × List (Out Node) :=
  match s.completions n with
  | [] => (s, [])
  | id :: rest =>
    completionCheck n id { s with completions := Function.update s.completions n rest }

/-- The local part of `ProcessToServeRequest`: the queue of worker `n` is copied and cleared. -/
def takeLocal (n : Node) (s : BlockState Node) : BlockState Node :=
  { s with toServeLocal := Function.update s.toServeLocal n [] }

/-- The steps of one block. -/
inductive Event (Node : Type)
  | request (n : Node) (rq : Req Node) (fresh : Fresh)
  | unLock (n : Node) (rq : Req Node)
  | evict (n : Node) (newId : Nat)
  | deliver (src dst : Node) (newId : Nat)
  | complete (n : Node)
  | takeLocal (n : Node)
  | serveRemote (n : Node) (newId : Nat)

def step (b : Block Node) (s : BlockState Node) : Event Node → BlockState Node × List (Out Node)
  | .request n rq fresh => s.localRequest b n rq fresh
  | .unLock n rq => (s.unLock b n rq, [.released rq, .process n])
  | .evict n newId => (s.evict b n newId, [])
  | .deliver src dst newId => s.deliver b src dst newId
  | .complete n => s.complete n
  | .takeLocal n => (s.takeLocal n, [])
  | .serveRemote n newId => (s.serveRemote b n newId, [])

end Gam.BlockState
