import Gam.Local

/-! What a worker does with the requests and commands of other workers
(`remote_request_cache.cc`, `remote_request.cc`): the home with `READ`, `WRITE`,
`WRITE_PERMISSION_ONLY`, `ACTIVE_INVALIDATE` and `WRITE_BACK`, a caching worker with what
the home asks of it. -/

namespace Gam.BlockState
variable {Node : Type} [DecidableEq Node]

/-- `ProcessRemoteRead`: worker `client` misses the block. -/
def processRemoteRead (b : Block Node) (client : Node) (id ptr : Nat) (flag : Flag) (newId : Nat)
    (s : BlockState Node) : BlockState Node :=
  let wr : Msg Node := .request (.access .read id ptr flag)
  if s.dirState.inTransition then s.addToServe b.wid client wr
  else if s.dirState ≠ .dirty then
    if s.dirLocks.isBlockWLocked then
      if flag.tryLock then s.send b.wid client [.msg (.reply (.readReply id .lockFailed))]
      else s.addToServe b.wid client wr
    else
      (s.setEntry (Directory.toShared (some ⟨client, ptr⟩) s.entry)).send b.wid client
        [.line ptr s.mem, .msg (.reply (.imm id))]
  else
    match s.sharers with
    | [] => s
    | rc :: _ =>
      ((s.setEntry (Directory.toToShared s.entry)).addPending b.wid
        ⟨.readForward ⟨.read, id, ptr, client⟩, newId, flag, 0, .success, none⟩).send b.wid rc.wid
          [.msg (.command ⟨.readForward ptr id client, newId, flag⟩)]

/-- The end of `ProcessRemoteWrite` without a detour: ownership goes to `client` at once. -/
def grantOwnership (b : Block Node) (client : Node) (id ptr : Nat) (data : List (Item Node))
    (s : BlockState Node) : BlockState Node :=
  (s.setEntry (Directory.toDirty ⟨client, ptr⟩ s.entry)).send b.wid client
    (data ++ [.msg (.reply (.writeReply id .success 0))])

/-- `ProcessRemoteWrite`: worker `client` wants to own the block, as it misses it (`WRITE`)
or holds a shared copy (`WRITE_PERMISSION_ONLY`). -/
def processRemoteWrite (b : Block Node) (client : Node) (op : AccessOp) (id ptr : Nat) (flag : Flag)
    (newId : Nat) (s : BlockState Node) : BlockState Node :=
  let wr : Msg Node := .request (.access op id ptr flag)
  if s.dirState.inTransition then s.addToServe b.wid client wr
  else if s.dirState ≠ .dirty then
    if s.dirLocks.isBlockLocked then
      if flag.tryLock then s.send b.wid client [.msg (.reply (.writeReply id .lockFailed 0))]
      else s.addToServe b.wid client wr
    else if s.dirState = .shared then
      let others := (s.sharers.map GAddr.wid).filter fun n => decide (n ≠ client)
      if others.isEmpty then s.grantOwnership b client id ptr []
      else
        ((s.setEntry (Directory.toToDirty s.entry)).addPending b.wid
          ⟨.invalidateForward ⟨op, id, ptr, client⟩, newId, flag, others.length, .success,
            none⟩).broadcast b.wid others (.command ⟨.invalidateForward, newId, flag⟩)
    else s.grantOwnership b client id ptr [.line ptr s.mem]
  else
    match s.sharers with
    | [] => s
    | rc :: _ =>
      ((s.setEntry (Directory.toToDirty s.entry)).addPending b.wid
        ⟨.writeForward ⟨op, id, ptr, client⟩, newId, flag, 0, .success, none⟩).send b.wid rc.wid
          [.msg (.command ⟨.writeForward ptr id client, newId, flag⟩)]

/-- `ProcessRemoteEvictShared`. -/
def processRemoteEvictShared (b : Block Node) (client : Node) (ptr : Nat) (s : BlockState Node) : BlockState Node :=
  if s.dirState.inTransition then s.addToServe b.wid client (.request (.activeInvalidate ptr))
  else s.setEntry (Directory.clear ⟨client, ptr⟩ s.entry)

/-- `ProcessRemoteEvictDirty`. -/
def processRemoteEvictDirty (b : Block Node) (client : Node) (id ptr : Nat) (s : BlockState Node) : BlockState Node :=
  if s.dirState.inTransition then s.addToServe b.wid client (.request (.writeBack id ptr))
  else (s.setEntry (Directory.clear ⟨client, ptr⟩ s.entry)).sendImm b.wid client id

/-- The negative answer of `ProcessRemoteReadCache`: to the home, and to the requester of a
forwarded read. -/
def refuseRead (n client : Node) (c : Command Node) (status : Status) (s : BlockState Node) : BlockState Node :=
  let s' := s.send n client [.msg (.reply (.readReply c.id status))]
  match c.op with
  | .readForward _ pid pwid => s'.send n pwid [.msg (.reply (.readReply pid status))]
  | _ => s'

/-- The copies `ProcessRemoteReadCache` sends out: to the home, and first to the requester
of a forwarded read. -/
def shareLine (n client : Node) (c : Command Node) (d : Data) (s : BlockState Node) : BlockState Node :=
  match c.op with
  | .readForward ptr pid pwid =>
    (s.send n pwid [.line ptr d, .msg (.reply (.imm pid))]).send n client
      [.mem d, .msg (.reply (.imm c.id))]
  | _ => s.send n client [.mem d, .msg (.reply (.imm c.id))]

/-- `ProcessRemoteReadCache`: `FETCH_AND_SHARED` or `READ_FORWARD` at the owner `n`. -/
def processRemoteReadCache (n client : Node) (c : Command Node) (s : BlockState Node) : BlockState Node :=
  match s.line n with
  | none => s.refuseRead n client c .readError
  | some l =>
    if l.state = .toDirty then s.addToServe n client (.command c)
    else if l.locks.isBlockWLocked then
      if c.flag.tryLock then s.refuseRead n client c .lockFailed
      else s.addToServe n client (.command c)
    -- a line in another transition state answers but keeps that state ("deadlock")
    else if l.state.inTransition then s.shareLine n client c l.data
    else (s.shareLine n client c l.data).setLine n (some (Cache.setState .shared l))

/-- The negative answer of `ProcessRemoteWriteCache`: to the home, and to the requester of a
forwarded write. -/
def refuseWrite (n client : Node) (c : Command Node) (status : Status) (s : BlockState Node) : BlockState Node :=
  let s' := s.send n client [.msg (.reply (.writeReply c.id status 0))]
  match c.op with
  | .writeForward _ pid pwid => s'.send n pwid [.msg (.reply (.writeReply pid status 0))]
  | _ => s'

/-- The last part of `ProcessRemoteWriteCache`: the line gives the block up. In a transition
state (`deadlock`) it answers and stays; otherwise a line that has data to hand over waits
for the completion of its RDMA write. -/
def surrender (n client : Node) (c : Command Node) (l : CacheLine Node) (deadlock : Bool)
    (newId : Nat) (s : BlockState Node) : BlockState Node :=
  match c.op with
  | .fetchAndInvalidate =>
    if deadlock then s.send n client [.mem l.data, .msg (.reply (.imm c.id))]
    else
      (((s.addPending n ⟨.pendingInvalidate, newId, c.flag, 0, .success, none⟩).setLine n
        (some (Cache.setState .toInvalid l))).send n client
          [.mem l.data, .msg (.reply (.imm c.id))]).signal n newId
  | .invalidate | .invalidateForward =>
    if deadlock then s.sendImm n client c.id else (s.sendImm n client c.id).setLine n none
  | .writeForward ptr pid pwid =>
    if deadlock then
      (s.send n pwid [.line ptr l.data, .msg (.reply (.imm pid))]).sendImm n client c.id
    else
      ((((s.addPending n ⟨.pendingInvalidate, newId, c.flag, 0, .success, none⟩).setLine n
        (some (Cache.setState .toInvalid l))).send n pwid
          [.line ptr l.data, .msg (.reply (.imm pid))]).signal n newId).sendImm n client c.id
  | .fetchAndShared | .readForward _ _ _ => s

/-- `ProcessRemoteWriteCache`: `FETCH_AND_INVALIDATE`, `INVALIDATE`, `INVALIDATE_FORWARD` or
`WRITE_FORWARD` at worker `n`. -/
def processRemoteWriteCache (n client : Node) (c : Command Node) (newId : Nat)
    (s : BlockState Node) : BlockState Node :=
  match s.line n with
  | none =>
    if c.op.isInvalidate then s.sendImm n client c.id else s.refuseWrite n client c .writeError
  | some l =>
    -- deadlock cases 1 and 2
    let deadlock := (c.op.isInvalidate && decide (l.state = .toDirty)) || decide (l.state = .toInvalid)
    if l.state.inTransition && !deadlock then s.addToServe n client (.command c)
    else if l.locks.isBlockLocked then
      if c.flag.tryLock then s.refuseWrite n client c .lockFailed
      else if deadlock then s.surrender n client c l deadlock newId  -- deadlock case 3
      else s.addToServe n client (.command c)
    else s.surrender n client c l deadlock newId

/-- `ProcessRequest` for everything but replies. -/
def processRequest (b : Block Node) (n client : Node) (m : Msg Node) (newId : Nat)
    (s : BlockState Node) : BlockState Node :=
  match m with
  | .request (.access .read id ptr flag) => s.processRemoteRead b client id ptr flag newId
  | .request (.access op id ptr flag) => s.processRemoteWrite b client op id ptr flag newId
  | .request (.activeInvalidate ptr) => s.processRemoteEvictShared b client ptr
  | .request (.writeBack id ptr) => s.processRemoteEvictDirty b client id ptr
  | .command c =>
    match c.op with
    | .fetchAndShared | .readForward _ _ _ => s.processRemoteReadCache n client c
    | _ => s.processRemoteWriteCache n client c newId
  | .reply _ => s

/-- The remote part of `ProcessToServeRequest`: the queue of worker `n` is copied, cleared
and processed again, front first. -/
def serveRemote (b : Block Node) (n : Node) (newId : Nat) (s : BlockState Node) : BlockState Node :=
  ((s.toServe n).foldl (fun acc entry => (acc.1.processRequest b n entry.1 entry.2 acc.2, acc.2 + 1))
    (s.clearToServe n, newId)).1

end Gam.BlockState
