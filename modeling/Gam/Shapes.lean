import Gam.Branches

/-! What one event on a block can put out. -/

namespace Gam
variable {Node : Type} [DecidableEq Node]

/-- The outputs of an event: at most one request makes progress, then the queues are served. -/
inductive Shape : List (Out Node) → Prop
  | nothing : Shape []
  | processed (n : Node) : Shape [.process n]
  -- a request meets the block
  | read (rq : Req Node) (d : Data) : Shape [.served rq d]
  | written (rq : Req Node) : Shape [.applied rq]
  | locked (rq : Req Node) : Shape [.granted rq]
  | refused (rq : Req Node) : Shape [.refused rq]
  | postponed (rq : Req Node) : Shape [.postponed rq]
  | sent (rq : Req Node) : Shape [.sent rq]
  -- an answer ends a request
  | readDone (rq : Req Node) (d : Data) (n : Node) : Shape [.served rq d, .replied rq, .process n]
  | writeDone (rq : Req Node) (n : Node) : Shape [.applied rq, .replied rq, .process n]
  | rLockDone (rq : Req Node) (n : Node) : Shape [.granted rq, .replied rq, .process n]
  | rLockLost (rq : Req Node) (n : Node) : Shape [.replied rq, .process n]
  | readFailed (rq : Req Node) (n : Node) : Shape [.refused rq, .notify rq, .process n]
  | wLockDone (rq : Req Node) (n : Node) : Shape [.granted rq, .decremented rq, .notify rq, .process n]
  | wLockWaits (rq : Req Node) (n : Node) : Shape [.decremented rq, .postponed rq, .process n]
  | gaveUp (rq : Req Node) (n : Node) : Shape [.refused rq, .decremented rq, .notify rq, .process n]

namespace BlockState
variable {b : Block Node} {s : BlockState Node} {n client : Node}

theorem localRequest_shape (rq : Req Node) (fresh : Fresh) : Shape (s.localRequest b n rq fresh).2 := by
  unfold localRequest
  cases rq.op <;>
    simp only [homeRead, homeWrite, homeRLock, homeWLock, fetchShared, fetchInvalidate, lockBusy,
      cacheRead, cacheWrite, cacheRLock, cacheWLock] <;>
    repeat' split
  all_goals constructor

theorem pendingReadCache_shape (p : Pending Node) (rq : Req Node) : Shape (s.pendingReadCache n p rq).2 := by
  simp only [pendingReadCache, rLockDone]
  repeat' split
  all_goals constructor

theorem pendingReadHome_shape (p : Pending Node) (rq : Req Node) : Shape (s.pendingReadHome b p rq).2 := by
  simp only [pendingReadHome, rLockDone]
  repeat' split
  all_goals constructor

theorem pendingWriteCache_shape (op : AccessOp) (p : Pending Node) (done : Bool) (rq : Req Node) :
    Shape (s.pendingWriteCache b n client op p done rq).2 := by
  simp only [pendingWriteCache, finishAccess, undoAccess, giveUp]
  repeat' split
  all_goals constructor

theorem pendingWriteHome_shape (p : Pending Node) (done : Bool) (rq : Req Node) :
    Shape (s.pendingWriteHome b client p done rq).2 := by
  simp only [pendingWriteHome, finishHome, undoHome, giveUp]
  repeat' split
  all_goals constructor

theorem processPending_shape (p : Pending Node) (done : Bool) : Shape (s.processPending b n client p done).2 := by
  cases op : p.op with
  | access op' =>
    cases parent : p.parent with
    | none => cases op' <;> simp only [processPending, op, parent] <;> constructor
    | some rq =>
      cases op' <;> simp only [processPending, op, parent]
      · exact pendingReadCache_shape p rq
      · exact pendingWriteCache_shape .write p done rq
      · exact pendingWriteCache_shape .writePermissionOnly p done rq
  | fetchAndShared =>
    cases parent : p.parent <;> simp only [processPending, op, parent]
    · constructor
    · exact pendingReadHome_shape p _
  | fetchAndInvalidate | invalidate =>
    cases parent : p.parent <;> simp only [processPending, op, parent]
    · constructor
    · exact pendingWriteHome_shape p done _
  | invalidateForward x =>
    simp only [processPending, op, pendingInvalidateForward, undoInvalidateForward]
    repeat' split
    all_goals constructor
  | readForward x | writeForward x | writeBack =>
    simp only [processPending, op, pendingReadForward, pendingWriteForward, pendingEvictDirty]
    constructor
  | pendingInvalidate =>
    simp only [processPending, op]
    constructor

theorem processReply_shape (r : Reply) : Shape (s.processReply b n client r).2 := by
  cases r with
  | imm id =>
    simp only [processReply]
    split
    · constructor
    · exact processPending_shape _ _
  | readReply id status =>
    simp only [processReply, processReadReply]
    repeat' split
    all_goals constructor
  | writeReply id status counter =>
    simp only [processReply]
    split
    · constructor
    · split
      · simp only [failWriteReply, undoAccess, undoHome, undoInvalidateForward, giveUp]
        repeat' split
        all_goals constructor
      · split
        · exact processPending_shape _ _
        · constructor

/-- Every event but an `UNLOCK` puts out one of these lists. -/
theorem step_shape (ev : Event Node) (other : ∀ n rq, ev ≠ .unLock n rq) : Shape (s.step b ev).2 := by
  cases ev with
  | request n rq fresh => exact localRequest_shape rq fresh
  | unLock n rq => exact absurd rfl (other n rq)
  | evict n newId | takeLocal n | serveRemote n newId => exact .nothing
  | complete n =>
    simp only [step, complete, completionCheck]
    repeat' split
    all_goals constructor
  | deliver src dst newId =>
    simp only [step, deliver]
    split
    · constructor
    · next item rest front =>
      cases item with
      | mem d => constructor
      | line ptr d =>
        dsimp only
        split <;> constructor
      | msg m =>
        cases m with
        | reply r => exact processReply_shape r
        | request r | command c => constructor

end BlockState

end Gam
