import Gam.Reply

/-! The cluster: all blocks, the application requests with their counters, and the fences.
A handler run is a sequence of small steps; what is left of it is the list `todo`, and the
next handler starts when that list is empty. -/

namespace Gam

open Function

/-- The part of an application request that changes: `counter` and the flags `TO_SERVE`
and `FENCE`. -/
structure Work where
  counter : Int
  toServe : Bool
  fence : Bool

/-- `Fence`, one for each application thread. -/
structure Fence (Node : Type) where
  mfenced : Bool
  sfenced : Bool
  pendingWrites : Int
  pendingWorks : List (Req Node)
  inProcess : Bool

/-- What is left to do in the running handler. -/
inductive Task (Node : Type)
  /-- `ProcessLocalRequest`, for a new or fenced request and for one from a local queue. -/
  | start (rq : Req Node)
  | replay (rq : Req Node)
  /-- The loop over the blocks of a request, at block number `i`. -/
  | block (rq : Req Node) (i : Nat)
  /-- The end of `ProcessLocalUnLock` and of the fence operations. -/
  | leave (rq : Req Node)
  /-- The two halves of `ProcessToServeRequest`. -/
  | serveLocal (b : Block Node) (n : Node)
  | serveRemote (b : Block Node) (n : Node)
  | notify (rq : Req Node)
  /-- The loop of `ProcessFenced`, and the `pop` at the end of one round. -/
  | fenced (th : Thread Node)
  | popFenced (th : Thread Node)

/-- What has happened to the requests so far. -/
inductive Entry (Node : Type)
  | issued (rq : Req Node)
  | started (rq : Req Node)
  | served (rq : Req Node) (b : Block Node) (d : Data)
  | applied (rq : Req Node) (b : Block Node)
  | granted (rq : Req Node)
  | refused (rq : Req Node)
  | released (rq : Req Node)
  | returned (rq : Req Node)
  | notified (rq : Req Node)

/-- A lock that was granted and not yet released. -/
structure Hold (Node : Type) where
  thread : Thread Node
  addr : GAddr Node
  exclusive : Bool
deriving DecidableEq

structure Sys (Node : Type) where
  blk : Block Node → BlockState Node
  work : Nat → Work
  fence : Thread Node → Fence Node
  /-- The last number `GetWorkPsn` returned at each worker. -/
  psn : Node → Nat
  todo : List (Task Node)
  /-- The synchronous request a thread waits for. -/
  waiting : Thread Node → Option Nat
  /-- History, newest first; no handler reads it. -/
  log : List (Entry Node)
  /-- Locks held, and locks whose release was requested but has not happened. -/
  held : List (Hold Node)
  releasing : List (Hold Node)

namespace Fence
variable {Node : Type}

def init : Fence Node := ⟨false, false, 0, [], false⟩

/-- `IsFenced` and `IsMFenced` for a request with flags `w`. -/
def isFenced (f : Fence Node) (w : Work) : Bool := (f.mfenced || f.sfenced) && !w.toServe && !w.fence
def isMFenced (f : Fence Node) (w : Work) : Bool := f.mfenced && !w.toServe && !w.fence

end Fence

namespace Sys
variable {Node : Type} [DecidableEq Node]

def init (mem : Block Node → Data) : Sys Node where
  blk b := BlockState.init (mem b)
  work _ := ⟨0, false, false⟩
  fence _ := Fence.init
  psn _ := 0
  todo := []
  waiting _ := none
  log := []
  held := []
  releasing := []

@[simps -fullyApplied]
def setBlk (s : Sys Node) (b : Block Node) (bs : BlockState Node) : Sys Node :=
  { s with blk := update s.blk b bs }

@[simps -fullyApplied]
def setWork (s : Sys Node) (rid : Nat) (w : Work) : Sys Node :=
  { s with work := update s.work rid w }

def addCounter (s : Sys Node) (rid : Nat) (k : Int) : Sys Node :=
  s.setWork rid { s.work rid with counter := (s.work rid).counter + k }

@[simps -fullyApplied]
def setFence (s : Sys Node) (th : Thread Node) (f : Fence Node) : Sys Node :=
  { s with fence := update s.fence th f }

@[simps -fullyApplied]
def record (s : Sys Node) (e : Entry Node) : Sys Node := { s with log := e :: s.log }

@[simps -fullyApplied]
def push (s : Sys Node) (tasks : List (Task Node)) : Sys Node := { s with todo := tasks ++ s.todo }

/-- `GetWorkPsn`, `k` times. -/
@[simps -fullyApplied]
def draw (s : Sys Node) (n : Node) (k : Nat) : Sys Node :=
  { s with psn := update s.psn n (s.psn n + k) }

/-- What the worker does about one output of a block handler, and the tasks that follow. -/
def emit (b : Block Node) (s : Sys Node) : Out Node → Sys Node × List (Task Node)
  | .served rq d => (s.record (.served rq b d), [])
  | .applied rq => (s.record (.applied rq b), [])
  | .granted rq =>
    ({ s.record (.granted rq) with
        held := ⟨rq.thread, rq.addr, decide (rq.op = .wlock)⟩ :: s.held }, [])
  | .refused rq => (s.record (.refused rq), [])
  | .released rq =>
    ({ s.record (.released rq) with
        releasing := s.releasing.eraseP fun hold =>
          decide (hold.thread = rq.thread ∧ hold.addr = rq.addr) }, [])
  | .sent rq => (s.addCounter rq.rid 1, [])
  | .postponed rq =>
    (if rq.op = .read ∨ rq.op = .write then s.addCounter rq.rid 1 else s, [])
  | .decremented rq => (s.addCounter rq.rid (-1), [])
  | .replied rq =>
    (s.addCounter rq.rid (-1), if (s.work rq.rid).counter - 1 = 0 then [.notify rq] else [])
  | .notify rq => (s, [.notify rq])
  | .process n => (s, [.serveLocal b n, .serveRemote b n])

def emitAll (b : Block Node) (s : Sys Node) : List (Out Node) → Sys Node × List (Task Node)
  | [] => (s, [])
  | o :: outs =>
    let (s', tasks) := s.emit b o
    let (s'', tasks') := emitAll b s' outs
    (s'', tasks ++ tasks')

/-- Run one step of block `b` and act on what it puts out. -/
def block (s : Sys Node) (b : Block Node) (ev : BlockState.Event Node) : Sys Node :=
  let (bs, outs) := (s.blk b).step b ev
  let (s', tasks) := (s.setBlk b bs).emitAll b outs
  s'.push tasks

/-- `AddToFence`. -/
def addToFence (s : Sys Node) (rq : Req Node) : Sys Node :=
  let f := s.fence rq.thread
  (s.setWork rq.rid { s.work rq.rid with fence := true }).setFence rq.thread
    { f with pendingWorks := f.pendingWorks ++ [rq] }

/-- A request without anything left to wait for: the caller of the first attempt gets a zero
return, everyone else is told by `Notify`. -/
def finish (s : Sys Node) (rq : Req Node) : Sys Node :=
  let w := s.work rq.rid
  if rq.async || w.toServe || w.fence then s.push [.notify rq]
  else
    { s.record (.returned rq) with waiting := update s.waiting rq.thread none }

/-- `Notify`. -/
def notify (s : Sys Node) (rq : Req Node) : Sys Node :=
  let s := s.record (.notified rq)
  if rq.async then
    let f := s.fence rq.thread
    let f := if rq.op = .write then { f with pendingWrites := f.pendingWrites - 1 } else f
    if !f.inProcess && decide (f.pendingWrites = 0) && (f.mfenced || f.sfenced) then
      (s.setFence rq.thread { f with inProcess := true }).push [.fenced rq.thread]
    else s.setFence rq.thread f
  else { s with waiting := update s.waiting rq.thread none }

/-- The request passes its fence: the loop over its blocks begins. A request from a local
queue gives back the unit it was counted with there. -/
def enter (s : Sys Node) (rq : Req Node) : Sys Node :=
  let w := s.work rq.rid
  let s := if w.toServe then s else s.record (.started rq)
  let s := if (rq.op = .read ∨ rq.op = .write) ∧ w.toServe then s.addCounter rq.rid (-1) else s
  s.push [.block rq rq.addr.toBlock.idx]

/-- Must a lock operation wait for the writes of its thread? -/
def lockFence (s : Sys Node) (rq : Req Node) (proceed : Sys Node) : Sys Node :=
  let f := s.fence rq.thread
  let w := s.work rq.rid
  if w.fence then proceed
  else if f.isFenced w then s.addToFence rq
  else if f.pendingWrites ≠ 0 then
    (s.setFence rq.thread { f with mfenced := true }).addToFence rq
  else proceed

/-- `ProcessLocalRequest`. -/
def processLocalRequest (s : Sys Node) (rq : Req Node) : Sys Node :=
  let f := s.fence rq.thread
  let w := s.work rq.rid
  match rq.op with
  | .read => if f.isMFenced w then s.addToFence rq else s.enter rq
  | .write =>
    if f.isFenced w then s.addToFence rq
    else if rq.async && !w.toServe then
      (s.setFence rq.thread { f with pendingWrites := f.pendingWrites + 1 }).enter rq
    else s.enter rq
  | .rlock | .wlock => s.lockFence rq (s.enter rq)
  | .unlock =>
    s.lockFence rq
      (((if w.toServe then s else s.record (.started rq)).push [.leave rq]).block rq.addr.toBlock
        (.unLock rq.thread.node rq))
  | .mfence =>
    if f.isFenced w then s.addToFence rq
    else
      let s := (s.record (.started rq)).push [.leave rq]
      if f.pendingWrites ≠ 0 then s.setFence rq.thread { f with mfenced := true } else s
  | .sfence =>
    if f.isFenced w then s.addToFence rq
    else
      let s := (s.record (.started rq)).push [.leave rq]
      if f.pendingWrites ≠ 0 then s.setFence rq.thread { f with sfenced := true } else s

/-- Was the request put into the local queue of the block? -/
def isPostponed : Out Node → Bool
  | .postponed _ => true
  | _ => false

/-- One round of the loop over the blocks of a request. -/
def blockRound (s : Sys Node) (rq : Req Node) (i : Nat) (ptr : Nat) (data : Data) : Sys Node :=
  let n := rq.thread.node
  let b : Block Node := ⟨rq.addr.wid, i⟩
  let ev : BlockState.Event Node := .request n rq ⟨s.psn n + 1, ptr, data⟩
  let stops := ((s.blk b).step b ev).2.any isPostponed
  let s' := (s.draw n 1).block b ev
  match rq.op with
  | .read | .write =>
    if i * blockSize < rq.stop then if stops then s' else s'.push [.block rq (i + 1)]
    else if (s.work rq.rid).counter = 0 then s.finish rq else s
  | .rlock | .wlock =>
    if !stops && decide ((s'.work rq.rid).counter = 0) then s'.finish rq else s'
  | .unlock | .mfence | .sfence => s

/-- The loop of `ProcessFenced`. -/
def fencedRound (s : Sys Node) (th : Thread Node) : Sys Node :=
  let f := s.fence th
  match f.pendingWorks with
  | [] => s.setFence th { f with mfenced := false, sfenced := false, inProcess := false }
  | lwr :: rest =>
    match lwr.op with
    | .mfence =>
      if f.pendingWrites ≠ 0 then
        s.setFence th
          { f with mfenced := true, sfenced := false, pendingWorks := rest, inProcess := false }
      else (s.setFence th { f with pendingWorks := rest }).push [.fenced th]
    | .sfence =>
      if f.pendingWrites ≠ 0 then
        s.setFence th
          { f with sfenced := true, mfenced := false, pendingWorks := rest, inProcess := false }
      else (s.setFence th { f with pendingWorks := rest }).push [.fenced th]
    | .rlock | .wlock | .unlock =>
      if f.pendingWrites ≠ 0 then
        s.setFence th { f with sfenced := false, mfenced := true, inProcess := false }
      else s.push [.start lwr, .popFenced th]
    | .read | .write => s.push [.start lwr, .popFenced th]

/-- One task of the running handler; `ptr` and `data` are what the allocator returns. -/
def perform (s : Sys Node) (ptr : Nat) (data : Data) : Task Node → Sys Node
  | .start rq => s.processLocalRequest rq
  | .replay rq =>
    (s.setWork rq.rid { s.work rq.rid with toServe := true }).processLocalRequest rq
  | .block rq i => s.blockRound rq i ptr data
  | .leave rq =>
    let w := s.work rq.rid
    if w.toServe || w.fence then s.push [.notify rq] else s.record (.returned rq)
  | .serveLocal b n => (s.block b (.takeLocal n)).push (((s.blk b).toServeLocal n).map .replay)
  | .serveRemote b n =>
    (s.draw n ((s.blk b).toServe n).length).block b (.serveRemote n (s.psn n + 1))
  | .notify rq => s.notify rq
  | .fenced th => s.fencedRound th
  | .popFenced th =>
    let f := s.fence th
    (s.setFence th { f with pendingWorks := f.pendingWorks.tail }).push [.fenced th]

/-- What can happen next in the cluster. -/
inductive Act (Node : Type)
  | issue (rq : Req Node)
  | deliver (b : Block Node) (src dst : Node)
  | complete (b : Block Node) (n : Node)
  | evict (b : Block Node) (n : Node)
  | run (ptr : Nat) (data : Data)

/-- How the library builds requests (`gallocator.cc`): writes, fences and unlocks are
asynchronous, only locks are tried, only writes carry a function. -/
def wellFormed (rq : Req Node) : Bool :=
  match rq.op with
  | .read => !rq.async && !rq.tryLock && rq.gfunc.isNone
  | .write => rq.async && !rq.tryLock
  | .rlock | .wlock => !rq.async && rq.gfunc.isNone
  | .unlock | .mfence | .sfence => rq.async && !rq.tryLock && rq.gfunc.isNone

/-- Has a request with this identity been issued? -/
def isIssued (s : Sys Node) (rid : Nat) : Bool :=
  s.log.any fun
    | .issued rq => decide (rq.rid = rid)
    | _ => false

/-- `SendRequest`: a thread that waits for nothing issues a request. An `UNLOCK` names a lock
the thread holds. -/
def issue (s : Sys Node) (rq : Req Node) : Option (Sys Node) :=
  let mine : Hold Node → Bool := fun hold => decide (hold.thread = rq.thread ∧ hold.addr = rq.addr)
  if s.todo.isEmpty && (s.waiting rq.thread).isNone && wellFormed rq && !s.isIssued rq.rid then
    let s' : Sys Node :=
      { (s.setWork rq.rid ⟨0, false, false⟩).record (.issued rq) with
        waiting := update s.waiting rq.thread (if rq.async then none else some rq.rid)
        todo := [.start rq] }
    if rq.op = .unlock then
      match s.held.find? mine with
      | none => none
      | some hold =>
        some { s' with held := s.held.eraseP mine, releasing := hold :: s.releasing }
    else some s'
  else none

/-- One step of the cluster. Messages, completions and requests wait for the running handler;
an eviction can also come in the middle of one. -/
def step (s : Sys Node) : Act Node → Option (Sys Node)
  | .issue rq => s.issue rq
  | .deliver b src dst =>
    if s.todo.isEmpty then some ((s.draw dst 1).block b (.deliver src dst (s.psn dst + 1)))
    else none
  | .complete b n => if s.todo.isEmpty then some (s.block b (.complete n)) else none
  | .evict b n => some ((s.draw n 1).block b (.evict n (s.psn n + 1)))
  | .run ptr data =>
    match s.todo with
    | [] => none
    | task :: rest => some ({ s with todo := rest }.perform ptr data task)

end Sys

end Gam
