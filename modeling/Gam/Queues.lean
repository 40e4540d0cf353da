import Gam.Branches
import Gam.Mail

/-! Which steps of a block touch the queues of postponed work. -/

namespace Gam
variable {Node : Type} [DecidableEq Node]

def Out.postponed? : Out Node → Option (Req Node)
  | .postponed rq => some rq
  | _ => none

/-- The pending work requests that only the home of a block has. -/
def PendingOp.isHome : PendingOp Node → Bool
  | .fetchAndInvalidate | .invalidate => true
  | _ => false

namespace BlockState
variable {b : Block Node} {s : BlockState Node} {n client : Node}

/-- The requests `outs` postpones go to the end of the local queue of worker `n`. -/
def Queues (n : Node) (s : BlockState Node) (res : BlockState Node × List (Out Node)) : Prop :=
  res.1.toServeLocal =
    Function.update s.toServeLocal n (s.toServeLocal n ++ res.2.filterMap Out.postponed?)

theorem Queues.none {res : BlockState Node × List (Out Node)} (same : res.1.toServeLocal = s.toServeLocal)
    (nothing : res.2.filterMap Out.postponed? = []) : s.Queues n res := by
  simp [Queues, same, nothing]

theorem Queues.one {res : BlockState Node × List (Out Node)} {rq : Req Node}
    (same : res.1.toServeLocal = (s.addToServeLocal n rq).toServeLocal)
    (postponed : res.2.filterMap Out.postponed? = [rq]) : s.Queues n res := by
  simp [Queues, same, postponed]

theorem localRequest_queues (rq : Req Node) (fresh : Fresh) : s.Queues n (s.localRequest b n rq fresh) := by
  unfold localRequest
  by_cases isHome : n = b.wid
  · subst isHome
    simp only [if_true]
    cases rq.op <;>
      simp only [homeRead, homeWrite, homeRLock, homeWLock, fetchShared, fetchInvalidate, lockBusy] <;>
      repeat' split
    all_goals first
      | exact .none rfl rfl
      | exact .one rfl rfl
  · simp only [if_neg isHome]
    cases rq.op <;>
      simp only [cacheRead, cacheWrite, cacheRLock, cacheWLock, lockBusy] <;>
      repeat' split
    all_goals first
      | exact .none rfl rfl
      | exact .one rfl rfl

theorem processRequest_toServeLocal (m : Msg Node) (newId : Nat) :
    (s.processRequest b n client m newId).toServeLocal = s.toServeLocal := by
  cases m with
  | reply r => rfl
  | request r =>
    cases r with
    | access op id ptr flag =>
      cases op <;> simp only [processRequest, processRemoteRead, processRemoteWrite, grantOwnership] <;>
        repeat' split
      all_goals rfl
    | activeInvalidate ptr =>
      simp only [processRequest, processRemoteEvictShared]
      split <;> rfl
    | writeBack id ptr =>
      simp only [processRequest, processRemoteEvictDirty]
      split <;> rfl
  | command c =>
    cases op : c.op <;>
      simp only [processRequest, processRemoteReadCache, processRemoteWriteCache, surrender, refuseRead,
        refuseWrite, shareLine, op] <;>
      repeat' split
    all_goals rfl

theorem serveRemote_toServeLocal (newId : Nat) : (s.serveRemote b n newId).toServeLocal = s.toServeLocal := by
  have fold : ∀ (q : List (Node × Msg Node)) (t : BlockState Node) (k : Nat),
      (q.foldl (fun acc entry => (acc.1.processRequest b n entry.1 entry.2 acc.2, acc.2 + 1))
        (t, k)).1.toServeLocal = t.toServeLocal := by
    intro q
    induction q with
    | nil => intro t k; rfl
    | cons e q ih =>
      intro t k
      rw [List.foldl_cons, ih, processRequest_toServeLocal]
  exact fold _ _ _

theorem finishAccess_queues (p : Pending Node) (rq : Req Node) : s.Queues n (s.finishAccess b n p rq) := by
  unfold finishAccess
  split
  · exact .none rfl rfl
  · simp only []
    repeat' split
    all_goals first
      | exact .none rfl rfl
      | exact .one rfl rfl

theorem finishHome_queues (p : Pending Node) (rq : Req Node) : s.Queues b.wid (s.finishHome b p rq) := by
  simp only [finishHome]
  repeat' split
  all_goals first
    | exact .none rfl rfl
    | exact .one rfl rfl

theorem processPending_queues (p : Pending Node) (done : Bool)
    (homely : p.op.isHome = true → n = b.wid) : s.Queues n (s.processPending b n client p done) := by
  have written : ∀ op rq, s.Queues n (s.pendingWriteCache b n client op p done rq) := by
    intro op rq
    simp only [pendingWriteCache]
    repeat' split
    all_goals first
      | exact finishAccess_queues p rq
      | exact .none rfl rfl
  have homeWritten : ∀ rq, p.op.isHome = true → s.Queues n (s.pendingWriteHome b client p done rq) := by
    intro rq home
    have same := homely home
    subst same
    simp only [pendingWriteHome]
    repeat' split
    all_goals first
      | exact finishHome_queues (s := s.setEntry (Directory.remove client s.entry)) p rq
      | exact .none rfl rfl
  cases op : p.op with
  | access op' =>
    cases parent : p.parent with
    | none => cases op' <;> exact (by simp only [processPending, op, parent]; exact .none rfl rfl)
    | some rq =>
      cases op' with
      | read =>
        simp only [processPending, op, parent, pendingReadCache]
        repeat' split
        all_goals exact .none rfl rfl
      | write => simpa only [processPending, op, parent] using written .write rq
      | writePermissionOnly => simpa only [processPending, op, parent] using written .writePermissionOnly rq
  | fetchAndShared =>
    cases parent : p.parent with
    | none => simp only [processPending, op, parent]; exact .none rfl rfl
    | some rq =>
      simp only [processPending, op, parent, pendingReadHome]
      repeat' split
      all_goals exact .none rfl rfl
  | fetchAndInvalidate =>
    cases parent : p.parent with
    | none => simp only [processPending, op, parent]; exact .none rfl rfl
    | some rq =>
      have := homeWritten rq (by rw [op]; rfl)
      simpa only [processPending, op, parent] using this
  | invalidate =>
    cases parent : p.parent with
    | none => simp only [processPending, op, parent]; exact .none rfl rfl
    | some rq =>
      have := homeWritten rq (by rw [op]; rfl)
      simpa only [processPending, op, parent] using this
  | invalidateForward x =>
    simp only [processPending, op, pendingInvalidateForward, undoInvalidateForward]
    repeat' split
    all_goals exact .none rfl rfl
  | readForward x | writeForward x | writeBack | pendingInvalidate =>
    simp only [processPending, op]
    exact .none rfl rfl

theorem processReply_queues (r : Reply) (homely : ∀ p ∈ s.pending n, p.op.isHome = true → n = b.wid) :
    s.Queues n (s.processReply b n client r) := by
  have found : ∀ {id : Nat} {p : Pending Node}, s.getPending n id = some p →
      p.op.isHome = true → n = b.wid := fun get => homely _ (List.mem_of_find?_eq_some get)
  cases r with
  | imm id =>
    simp only [processReply]
    split
    · exact .none rfl rfl
    · next get => exact processPending_queues _ _ (found get)
  | readReply id status =>
    simp only [processReply, processReadReply]
    repeat' split
    all_goals exact .none rfl rfl
  | writeReply id status counter =>
    simp only [processReply]
    split
    · exact .none rfl rfl
    · next p get =>
      split
      · simp only [failWriteReply, undoAccess, undoHome, undoInvalidateForward]
        repeat' split
        all_goals exact .none rfl rfl
      · split
        · exact processPending_queues _ _ fun home => found get home
        · exact .none rfl rfl

/-- The worker that processes an event. -/
def Event.actor : Event Node → Node
  | .request n _ _ | .unLock n _ | .evict n _ | .deliver _ n _ | .complete n | .takeLocal n
  | .serveRemote n _ => n

theorem step_queues (ev : Event Node) (goesOn : ∀ n, ev ≠ .takeLocal n)
    (homely : ∀ n, ∀ p ∈ s.pending n, p.op.isHome = true → n = b.wid) : s.Queues ev.actor (s.step b ev) := by
  cases ev with
  | request n rq fresh => exact localRequest_queues rq fresh
  | unLock n rq =>
    simp only [step, unLock]
    repeat' split
    all_goals exact .none rfl rfl
  | evict n newId =>
    simp only [step, evict]
    repeat' split
    all_goals exact .none rfl rfl
  | complete n =>
    simp only [step, complete, completionCheck]
    repeat' split
    all_goals exact .none rfl rfl
  | takeLocal n => exact absurd rfl (goesOn n)
  | serveRemote n newId => exact .none (serveRemote_toServeLocal newId) rfl
  | deliver src dst newId =>
    simp only [step, deliver]
    split
    · exact .none rfl rfl
    · next item rest front =>
      cases item with
      | mem d =>
        dsimp only
        split <;> exact .none rfl rfl
      | line ptr d =>
        dsimp only
        repeat' split
        all_goals exact .none rfl rfl
      | msg m =>
        cases m with
        | reply r => exact processReply_queues (s := s.setChan src dst rest) r (homely dst)
        | request r => exact .none (processRequest_toServeLocal (s := s.setChan src dst rest) _ _) rfl
        | command c => exact .none (processRequest_toServeLocal (s := s.setChan src dst rest) _ _) rfl

theorem processPending_toServe (p : Pending Node) (done : Bool) :
    (s.processPending b n client p done).1.toServe = s.toServe := by
  cases op : p.op with
  | access op' =>
    cases parent : p.parent <;> cases op' <;>
      simp only [processPending, op, parent, pendingReadCache, pendingWriteCache, finishAccess, undoAccess] <;>
      repeat' split
    all_goals rfl
  | _ =>
    cases parent : p.parent <;>
      simp only [processPending, op, parent, pendingReadHome, pendingWriteHome, pendingReadForward,
        pendingWriteForward, pendingInvalidateForward, pendingEvictDirty, finishHome, undoHome,
        undoInvalidateForward, grantOwnership] <;>
      repeat' split
    all_goals rfl

/-- Answers postpone nothing for other workers. -/
theorem processReply_toServe (r : Reply) : (s.processReply b n client r).1.toServe = s.toServe := by
  cases r with
  | imm id =>
    simp only [processReply]
    split
    · rfl
    · exact processPending_toServe _ _
  | readReply id status =>
    simp only [processReply, processReadReply]
    repeat' split
    all_goals rfl
  | writeReply id status counter =>
    simp only [processReply]
    split
    · rfl
    · split
      · simp only [failWriteReply, undoAccess, undoHome, undoInvalidateForward]
        repeat' split
        all_goals rfl
      · split
        · exact processPending_toServe _ _
        · rfl

theorem localRequest_toServe (rq : Req Node) (fresh : Fresh) : (s.localRequest b n rq fresh).1.toServe = s.toServe := by
  unfold localRequest
  cases rq.op <;>
    simp only [homeRead, homeWrite, homeRLock, homeWLock, fetchShared, fetchInvalidate, lockBusy,
      cacheRead, cacheWrite, cacheRLock, cacheWLock] <;>
    repeat' split
  all_goals rfl

/-- A caching worker never adds to the queue of another one. -/
theorem processRequest_toServe_of_ne {m : Node} (c : Command Node) (newId : Nat) (other : m ≠ n) :
    (s.processRequest b n client (.command c) newId).toServe m = s.toServe m := by
  cases op : c.op <;>
    simp only [processRequest, processRemoteReadCache, processRemoteWriteCache, surrender, refuseRead,
      refuseWrite, shareLine, op] <;>
    repeat' split
  all_goals first
    | rfl
    | simp [other]

end BlockState

end Gam
