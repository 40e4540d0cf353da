import Gam.Cache

/-! Everything the workers of the cluster keep about one block, and the elementary updates
the message handlers are made of. -/

namespace Gam

open Function

/-- The state of one block over the whole cluster. -/
structure BlockState (Node : Type) where
  /-- `cache`: the line of every worker. -/
  line : Node → Option (CacheLine Node)
  /-- `directory` and the memory at the home. -/
  entry : Option (DirEntry Node)
  mem : Data
  /-- `pending_works` of every worker, restricted to this block. -/
  pending : Node → List (Pending Node)
  /-- `to_serve_requests` and `to_serve_local_requests` of every worker. -/
  toServe : Node → List (Node × Msg Node)
  toServeLocal : Node → List (Req Node)
  /-- What is on the way from one worker to another, oldest first. -/
  chan : Node → Node → List (Item Node)
  /-- Signaled sends whose completion the worker has not polled yet. -/
  completions : Node → List Nat

/-- What a handler tells the request it works for. -/
inductive Out (Node : Type)
  /-- The part of a read that falls into the block was copied from `d`. -/
  | served (rq : Req Node) (d : Data)
  /-- The part of a write that falls into the block took effect. -/
  | applied (rq : Req Node)
  /-- A lock was taken, a try-lock was given up, an unlock has run. -/
  | granted (rq : Req Node)
  | refused (rq : Req Node)
  | released (rq : Req Node)
  /-- A sub-request for the block was sent, or the request went to the local queue. -/
  | sent (rq : Req Node)
  | postponed (rq : Req Node)
  /-- `--counter`, without and with the `Notify` at zero. -/
  | decremented (rq : Req Node)
  | replied (rq : Req Node)
  /-- `Notify`. -/
  | notify (rq : Req Node)
  /-- `ProcessToServeRequest` at worker `n`. -/
  | process (n : Node)

/-- What the allocator and `GetWorkPsn` return to a handler. -/
structure Fresh where
  id : Nat
  ptr : Nat
  data : Data

namespace BlockState
variable {Node : Type} [DecidableEq Node]

/-- A block nobody has touched. -/
def init (mem : Data) : BlockState Node where
  line _ := none
  entry := none
  mem := mem
  pending _ := []
  toServe _ := []
  toServeLocal _ := []
  chan _ _ := []
  completions _ := []

@[simps -fullyApplied]
def setLine (s : BlockState Node) (n : Node) (l : Option (CacheLine Node)) : BlockState Node :=
  { s with line := update s.line n l }

@[simps -fullyApplied]
def setEntry (s : BlockState Node) (entry : Option (DirEntry Node)) : BlockState Node :=
  { s with entry }

@[simps -fullyApplied]
def setMem (s : BlockState Node) (mem : Data) : BlockState Node := { s with mem }

/-- `AddToPending`. -/
@[simps -fullyApplied]
def addPending (s : BlockState Node) (n : Node) (p : Pending Node) : BlockState Node :=
  { s with pending := update s.pending n (p :: s.pending n) }

/-- `ErasePendingWork`. -/
@[simps -fullyApplied]
def erasePending (s : BlockState Node) (n : Node) (id : Nat) : BlockState Node :=
  { s with pending := update s.pending n ((s.pending n).filter fun p => decide (p.id ≠ id)) }

/-- The counter and the status of a pending work request change in place. -/
@[simps -fullyApplied]
def setPending (s : BlockState Node) (n : Node) (p : Pending Node) : BlockState Node :=
  { s with
    pending := update s.pending n
      ((s.pending n).map fun q => if q.id = p.id then p else q) }

/-- `GetPendingWork`. -/
def getPending (s : BlockState Node) (n : Node) (id : Nat) : Option (Pending Node) :=
  (s.pending n).find? fun p => decide (p.id = id)

/-- `AddToServeRemoteRequest`. -/
@[simps -fullyApplied]
def addToServe (s : BlockState Node) (n client : Node) (m : Msg Node) : BlockState Node :=
  { s with toServe := update s.toServe n (s.toServe n ++ [(client, m)]) }

/-- The queue of worker `n` was copied and is cleared. -/
@[simps -fullyApplied]
def clearToServe (s : BlockState Node) (n : Node) : BlockState Node :=
  { s with toServe := update s.toServe n [] }

/-- `AddToServeLocalRequest`. -/
@[simps -fullyApplied]
def addToServeLocal (s : BlockState Node) (n : Node) (rq : Req Node) : BlockState Node :=
  { s with toServeLocal := update s.toServeLocal n (s.toServeLocal n ++ [rq]) }

/-- A write request with a signaled completion was posted at worker `n`. -/
@[simps -fullyApplied]
def signal (s : BlockState Node) (n : Node) (id : Nat) : BlockState Node :=
  { s with completions := update s.completions n (s.completions n ++ [id]) }

/-- Items are posted on the channel from `src` to `dst`. -/
@[simps -fullyApplied]
def send (s : BlockState Node) (src dst : Node) (items : List (Item Node)) : BlockState Node :=
  { s with
    chan := fun x y => if x = src ∧ y = dst then s.chan x y ++ items else s.chan x y }

/-- What is left on the channel from `src` to `dst`. -/
@[simps -fullyApplied]
def setChan (s : BlockState Node) (src dst : Node) (items : List (Item Node)) : BlockState Node :=
  { s with chan := fun x y => if x = src ∧ y = dst then items else s.chan x y }

/-- One message to every worker of a list, in the order of the list. -/
@[simps -fullyApplied]
def broadcast (s : BlockState Node) (src : Node) (dsts : List Node) (m : Msg Node) : BlockState Node :=
  { s with
    chan := fun x y =>
      if x = src then s.chan x y ++ (dsts.filter fun d => decide (d = y)).map fun _ => .msg m
      else s.chan x y }

def dirState (s : BlockState Node) : DirState := Directory.getState s.entry
def sharers (s : BlockState Node) : List (GAddr Node) := Directory.getSList s.entry
def dirLocks (s : BlockState Node) : Locks Node := Directory.getLocks s.entry

/-- A sub-request of a caching worker: `SubmitRequest` with `ADD_TO_PENDING`. -/
def submit (s : BlockState Node) (n home : Node) (op : AccessOp) (id ptr : Nat) (flag : Flag)
    (rq : Req Node) : BlockState Node :=
  (s.addPending n ⟨.access op, id, flag, 0, .success, some rq⟩).send n home
    [.msg (.request (.access op id ptr flag))]

/-- A worker posts the answer `WriteWithImm(nullptr, nullptr, 0, id)`. -/
def sendImm (s : BlockState Node) (src dst : Node) (id : Nat) : BlockState Node :=
  s.send src dst [.msg (.reply (.imm id))]

end BlockState

end Gam
