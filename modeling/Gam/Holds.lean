import Gam.Booked
import Gam.Known
import Gam.Shapes

/-! The locks that are granted and not released, along the runs of the cluster: the tables of every block
agree with them. -/

namespace Gam
variable {Node : Type} [DecidableEq Node]

/-- The locks held, and those being released, after an output. -/
def Out.move (p : List (Hold Node) × List (Hold Node)) : Out Node → List (Hold Node) × List (Hold Node)
  | .granted rq => (rq.hold :: p.1, p.2)
  | .released rq => (p.1, dropHold rq.thread rq.addr p.2)
  | _ => p

def Out.released? : Out Node → Option (Req Node)
  | .released rq => some rq
  | _ => none

theorem Shape.released {outs : List (Out Node)} (shape : Shape outs) : outs.filterMap Out.released? = [] := by
  cases shape <;> rfl

namespace Sys
variable {s s' : Sys Node} {b : Block Node} {rq : Req Node} {task : Task Node}
  {act : Act Node}

/-- What a step on a block puts out. -/
def put (s : Sys Node) : Option (Block Node × BlockState.Event Node) → List (Out Node)
  | none => []
  | some (b, ev) => ((s.blk b).step b ev).2

def locks (s : Sys Node) : List (Hold Node) × List (Hold Node) := (s.held, s.releasing)

section locks

theorem emit_locks (o : Out Node) : (s.emit b o).1.locks = o.move s.locks := by
  cases o with
  | postponed rq =>
    simp only [emit]
    split <;> rfl
  | _ => rfl

theorem emitAll_locks (outs : List (Out Node)) : (s.emitAll b outs).1.locks = outs.foldl Out.move s.locks := by
  induction outs generalizing s with
  | nil => rfl
  | cons o outs ih =>
    rw [List.foldl_cons, ← emit_locks (b := b) o, ← ih]
    rfl

theorem block_locks (ev : BlockState.Event Node) :
    (s.block b ev).locks = (s.put (some (b, ev))).foldl Out.move s.locks := by
  have same := emitAll_locks (s := s.setBlk b ((s.blk b).step b ev).1) (b := b) ((s.blk b).step b ev).2
  exact same

theorem finish_locks : (s.finish rq).locks = s.locks := by
  simp only [finish]
  split <;> rfl

theorem notify_locks : (s.notify rq).locks = s.locks := by
  simp only [notify]
  repeat' split
  all_goals rfl

theorem enter_locks : (s.enter rq).locks = s.locks := by
  simp only [enter]
  repeat' split
  all_goals rfl

theorem fencedRound_locks (th : Thread Node) : (s.fencedRound th).locks = s.locks := by
  unfold fencedRound
  simp only []
  repeat' split
  all_goals rfl

theorem lockFence_locks (proceed : Sys Node) :
    (s.lockFence rq proceed).locks = if s.passes rq = true then proceed.locks else s.locks := by
  by_cases free : s.passes rq = true
  · rw [lockFence_of_passes free, if_pos free]
  · rw [if_neg free]
    have passes := free
    unfold Sys.passes at passes
    simp only [Bool.or_eq_true, Bool.and_eq_true, Bool.not_eq_true', decide_eq_true_eq, not_or, not_and] at passes
    unfold lockFence
    simp only [passes.1, Bool.false_eq_true, if_false]
    split
    · rfl
    · next free => simp [passes.2 (by simpa using free), locks, addToFence]

theorem processLocalRequest_locks :
    (s.processLocalRequest rq).locks = (s.put (s.unlocks rq)).foldl Out.move s.locks := by
  unfold processLocalRequest unlocks
  cases op : rq.op with
  | read =>
    simp only [reduceCtorEq, false_and, if_false, put, List.foldl_nil]
    split
    · rfl
    · exact enter_locks
  | write =>
    simp only [reduceCtorEq, false_and, if_false, put, List.foldl_nil]
    repeat' split
    · rfl
    · exact enter_locks (s := s.setFence _ _)
    · exact enter_locks
  | rlock | wlock =>
    simp only [reduceCtorEq, false_and, if_false, put, List.foldl_nil, lockFence_locks, enter_locks, ite_self]
  | unlock =>
    simp only [lockFence_locks, true_and]
    split
    · rw [block_locks]
      split <;> rfl
    · rfl
  | mfence | sfence =>
    simp only [reduceCtorEq, false_and, if_false, put, List.foldl_nil]
    repeat' split
    all_goals rfl

theorem blockRound_locks (i ptr : Nat) (data : Data) : (s.blockRound rq i ptr data).locks =
    (s.put (s.taskEvent ptr data (.block rq i))).foldl Out.move s.locks := by
  have next := block_locks (s := s.draw rq.thread.node 1) (b := ⟨rq.addr.wid, i⟩)
    (.request rq.thread.node rq ⟨s.psn rq.thread.node + 1, ptr, data⟩)
  unfold blockRound taskEvent
  cases op : rq.op with
  | read | write =>
    have same : touches rq i = decide (i * blockSize < rq.stop) := by simp [touches, op]
    simp only [same, decide_eq_true_eq]
    split
    · split
      · exact next
      · exact next
    · split
      · exact finish_locks
      · rfl
  | rlock | wlock =>
    have same : touches rq i = true := by simp [touches, op]
    simp only [same, if_true]
    split
    · exact finish_locks.trans next
    · exact next
  | unlock | mfence | sfence =>
    have same : touches rq i = false := by simp [touches, op]
    simp [same, put]

theorem perform_locks (ptr : Nat) (data : Data) (task : Task Node) : (s.perform ptr data task).locks =
    (s.put (s.taskEvent ptr data task)).foldl Out.move s.locks := by
  cases task with
  | start rq => exact processLocalRequest_locks
  | replay rq => exact processLocalRequest_locks (s := s.setWork rq.rid _)
  | block rq i => exact blockRound_locks i ptr data
  | leave rq =>
    simp only [perform]
    split <;> rfl
  | serveLocal b n => exact block_locks (s := s) (.takeLocal n)
  | serveRemote b n => exact block_locks (s := s.draw n _) _
  | notify rq => exact notify_locks
  | fenced th => exact fencedRound_locks th
  | popFenced th => rfl

/-- Apart from the requests to release one, locks change by what the blocks put out. -/
theorem step_locks {act : Act Node} (next : s.step act = some s') (other : ∀ rq, act ≠ .issue rq) :
    s'.locks = (s.put (s.event act)).foldl Out.move s.locks := by
  cases step_takes next with
  | issue => exact absurd rfl (other _)
  | block n k event => rw [event]; exact block_locks (s := s.draw n k) _
  | run todo event => rw [event]; exact perform_locks _ _ _

end locks

/-! ### Locks being released -/

def isUnlock (rq : Req Node) : Bool := decide (rq.op = .unlock)

theorem put_released {ev : BlockState.Event Node} (other : ∀ n rq, ev ≠ .unLock n rq) :
    (s.put (some (b, ev))).filterMap Out.released? = [] := by
  have shape : Shape (s.put (some (b, ev))) := BlockState.step_shape ev other
  exact shape.released

theorem Enters.begun_other (enters : Enters s rq s') (other : isUnlock rq = false) :
    s'.begun.filter isUnlock = s.begun.filter isUnlock := by
  cases enters with
  | passes quiet free =>
    rw [quiet.begun]
    simp only [begins]
    split
    · rfl
    · simp [other]
  | waits f result => rw [result]; rfl

/-- An `UNLOCK` that starts releases its lock. -/
theorem processLocalRequest_begun (fresh : isUnlock rq = true → (s.work rq.rid).toServe = false) :
    (s.processLocalRequest rq).begun.filter isUnlock =
      s.begun.filter isUnlock ++ (s.put (s.unlocks rq)).filterMap Out.released? := by
  by_cases unlock : rq.op = .unlock
  · have new := fresh (by simp [isUnlock, unlock])
    by_cases free : s.passes rq = true
    · have quiet : Quiet (s.record (.started rq)) (s.processLocalRequest rq) := by
        simp only [processLocalRequest, unlock, lockFence_of_passes free, new, Bool.false_eq_true, if_false]
        have fine : (Task.leave rq).Fine := trivial
        exact ((Quiet.refl _).pushOne fine).block _
      rw [quiet.begun, record_started_begun, List.filter_append]
      simp [unlocks, unlock, free, put, isUnlock, BlockState.step, Out.released?]
    · have held : (s.processLocalRequest rq).log = s.log := by
        have waits := free
        unfold Sys.passes at waits
        simp only [Bool.or_eq_true, Bool.and_eq_true, Bool.not_eq_true', decide_eq_true_eq, not_or, not_and] at waits
        simp only [processLocalRequest, unlock, lockFence, waits.1, Bool.false_eq_true, if_false]
        split
        · rfl
        · next lowered => simp [waits.2 (by simpa using lowered), addToFence]
      simp [unlocks, free, put, begun, held]
  · have enters : Enters s rq (s.processLocalRequest rq) := processLocalRequest_enters
    rw [enters.begun_other (by simp [isUnlock, unlock])]
    simp [unlocks, unlock, put]

theorem perform_begun (aims : task.Aims) (ptr : Nat) (data : Data)
    (queue : s.Queued)
    (fresh : ∀ rq, task = .start rq → isUnlock rq = true → (s.work rq.rid).toServe = false) :
    (s.perform ptr data task).begun.filter isUnlock =
      s.begun.filter isUnlock ++ (s.put (s.taskEvent ptr data task)).filterMap Out.released? := by
  cases task with
  | start rq => exact processLocalRequest_begun (fresh rq rfl)
  | replay rq =>
    have other : isUnlock rq = false := by
      have access : rq.Reads ∨ rq.Writes := aims
      rcases access with (op | op) | (op | op) <;> simp [isUnlock, op]
    exact processLocalRequest_begun (s := s.setWork rq.rid _) fun unlock => by rw [other] at unlock; cases unlock
  | block rq i =>
    have same : (s.perform ptr data (.block rq i)).begun = s.begun := (blockRound_quiet aims ptr data).begun
    rw [same]
    simp only [taskEvent]
    split
    · rw [put_released fun _ _ h => by cases h]
      simp
    · simp [put]
  | leave rq => simp [(leave_quiet ptr data).begun, taskEvent, put]
  | serveLocal b n =>
    rw [(serveLocal_quiet ptr data (queue b n)).begun, taskEvent, put_released fun _ _ h => by cases h]
    simp
  | serveRemote b n =>
    rw [(serveRemote_quiet ptr data n).begun, taskEvent, put_released fun _ _ h => by cases h]
    simp
  | notify rq =>
    have same : (s.perform ptr data (.notify rq)).begun = s.begun := by
      rcases notify_turn s rq with quiet | ⟨mid, quiet, -, result⟩
      · exact quiet.begun
      · simp only [perform, result]
        exact quiet.begun
    simp [same, taskEvent, put]
  | fenced th =>
    have same : (s.perform ptr data (.fenced th)).begun = s.begun := by
      simp only [perform, begun, fencedRound_log]
    simp [same, taskEvent, put]
  | popFenced th => simp [perform, begun, taskEvent, put]

/-- The `UNLOCK`s a step starts are those it releases a lock for. -/
theorem step_begun {act : Act Node} (fifo : Fifo isUnlock s) (aimed : s.Aimed)
    (queue : s.Queued) (next : s.step act = some s')
    (other : ∀ rq, act ≠ .issue rq) : s'.begun.filter isUnlock =
      s.begun.filter isUnlock ++ (s.put (s.event act)).filterMap Out.released? := by
  cases step_takes next with
  | issue => exact absurd rfl (other _)
  | block n k event locks =>
    rw [event, put_released locks, (((Quiet.refl s).draw n k).block _).begun]
    simp
  | @run ptr data task rest todo event =>
    rw [event]
    refine perform_begun (s := { s with todo := rest }) (aimed task (by rw [todo]; simp)) ptr data queue ?_
    rintro rq rfl unlock
    exact fifo.fresh rq.thread rq (Fifo.mem_ahead (by rw [todo]; simp)) unlock

/-! The locks being released are those of the `UNLOCK`s that have not started. -/

def isLock (th : Thread Node) (x : GAddr Node) (h : Hold Node) : Bool := decide (h.thread = th ∧ h.addr = x)

def Owed (s : Sys Node) : Prop := ∀ th x, s.releasing.countP (isLock th x) =
  ((s.ahead th).filter isUnlock).countP fun rq => decide (rq.addr = x)

theorem mem_of_isLock {th : Thread Node} {x : GAddr Node} {R : List (Hold Node)}
    (some_ : R.countP (isLock th x) ≠ 0) : ∃ h ∈ R, h.thread = th ∧ h.addr = x := by
  obtain ⟨h, member, mine⟩ := List.countP_pos_iff.mp (Nat.pos_of_ne_zero some_)
  exact ⟨h, member, by simpa [isLock] using mine⟩

theorem countP_dropHold {th : Thread Node} {x : GAddr Node} {R : List (Hold Node)}
    (held : ∃ h ∈ R, h.thread = th ∧ h.addr = x) (th' : Thread Node) (y : GAddr Node) : R.countP (isLock th' y) =
      (dropHold th x R).countP (isLock th' y) + if th' = th ∧ y = x then 1 else 0 := by
  obtain ⟨h, member, matches_⟩ := held
  obtain ⟨h', before, after, -, hit, split, erased⟩ := List.exists_of_eraseP member
    (p := fun h => decide (h.thread = th ∧ h.addr = x)) (by simpa using matches_)
  have hit : h'.thread = th ∧ h'.addr = x := by simpa using hit
  have dropped : dropHold th x R = before ++ after := erased
  have mine : isLock th' y h' = decide (th' = th ∧ y = x) := by
    simp [isLock, hit, eq_comm]
  rw [dropped, split, List.countP_append, List.countP_append, List.countP_cons, mine]
  simp only [decide_eq_true_eq]
  omega

/-- What is ahead of a fence changes with what is issued and what starts. -/
theorem Fifo.ahead_shift {keep : Req Node → Bool} (fifo : Fifo keep s) (fifo' : Fifo keep s')
    (new old : List (Req Node)) (issues : s'.issues = s.issues ++ new)
    (begun : s'.begun.filter keep = s.begun.filter keep ++ old) (th : Thread Node) :
    (s.ahead th).filter keep ++ new.filter (mine keep th) =
      old.filter (fun rq => decide (rq.thread = th)) ++ (s'.ahead th).filter keep := by
  have split : ∀ l : List (Req Node), l.filter (mine keep th) =
      (l.filter keep).filter fun rq => decide (rq.thread = th) := fun l => by
    rw [List.filter_filter]
    rfl
  have before := fifo.inOrder th
  have after := fifo'.inOrder th
  rw [issues, List.filter_append, before, split s'.begun, begun, List.filter_append, ← split,
    List.append_assoc, List.append_assoc] at after
  exact List.append_cancel_left after

theorem issue_locks (next : s.issue rq = some s') : (rq.op ≠ .unlock ∧ s'.locks = s.locks) ∨ (rq.op = .unlock ∧
      ∃ h ∈ s.held, h.thread = rq.thread ∧ h.addr = rq.addr ∧ s'.releasing = h :: s.releasing ∧
        s.held.Perm (h :: s'.held)) := by
  simp only [issue] at next
  split at next
  · split at next
    · next unlock =>
      split at next
      · cases next
      · next h found =>
        cases next
        have hit := List.find?_some found
        simp only [decide_eq_true_eq] at hit
        refine Or.inr ⟨unlock, h, List.mem_of_find?_eq_some found, hit.1, hit.2, rfl, ?_⟩
        obtain ⟨before, after, list, none_⟩ := (List.find?_eq_some_iff_append.mp found).2
        have erased : s.held.eraseP (fun hold => decide (hold.thread = rq.thread ∧ hold.addr = rq.addr)) =
            before ++ after := by
          rw [list, List.eraseP_append_right _ fun a member mine => ?_, List.eraseP_cons_of_pos (by simpa using hit)]
          have other := none_ a member
          rw [mine] at other
          cases other
        change s.held.Perm (h :: s.held.eraseP _)
        rw [erased, list]
        exact List.perm_middle
    · next other =>
      cases next
      exact Or.inl ⟨other, rfl⟩
  · cases next

/-- A step of the cluster puts out one of the known lists, or it is an `UNLOCK`. -/
theorem put_cases (s : Sys Node) (act : Act Node) : Shape (s.put (s.event act)) ∨
    ∃ n rq b, s.event act = some (b, .unLock n rq) ∧ s.put (s.event act) = [.released rq, .process n] := by
  cases found : s.event act with
  | none => exact Or.inl .nothing
  | some e =>
    obtain ⟨b, ev⟩ := e
    by_cases unlock : ∃ n rq, ev = .unLock n rq
    · obtain ⟨n, rq, rfl⟩ := unlock
      exact Or.inr ⟨n, rq, b, rfl, rfl⟩
    · exact Or.inl (BlockState.step_shape ev fun n rq h => unlock ⟨n, rq, h⟩)

/-- An `UNLOCK` that gets to its block is one that has not started before. -/
theorem unlock_ahead {n : Node} (aimed : s.Aimed) (found : s.event act = some (b, .unLock n rq)) :
    ∃ rest, s.todo = .start rq :: rest ∧ rq.op = .unlock ∧ b = rq.addr.toBlock ∧ n = rq.thread.node := by
  cases act with
  | run ptr data =>
    simp only [event] at found
    cases todo : s.todo with
    | nil => rw [todo] at found; cases found
    | cons task rest =>
      rw [todo] at found
      cases task with
      | start rq' =>
        simp only [taskEvent, unlocks] at found
        split at found
        · next unlock => cases found; exact ⟨rest, rfl, unlock.1, rfl, rfl⟩
        · cases found
      | replay rq' =>
        simp only [taskEvent, unlocks] at found
        split at found
        · next unlock =>
          have access : rq'.Reads ∨ rq'.Writes := aimed (.replay rq') (by rw [todo]; simp)
          rcases access with (op | op) | (op | op) <;> rw [op] at unlock <;> cases unlock.1
        · cases found
      | block rq' i => simp [taskEvent] at found
      | _ => cases found
  | _ => cases found

/-- Every lock an `UNLOCK` releases is held. -/
theorem Owed.held {n : Node} (owed : s.Owed) (aimed : s.Aimed) (found : s.event act = some (b, .unLock n rq)) :
    ∃ h ∈ s.releasing, h.thread = rq.thread ∧ h.addr = rq.addr := by
  obtain ⟨rest, todo, unlock, -, -⟩ := unlock_ahead aimed found
  refine mem_of_isLock ?_
  rw [owed]
  have member : rq ∈ (s.ahead rq.thread).filter isUnlock :=
    List.mem_filter.mpr ⟨Fifo.mem_ahead (by rw [todo]; simp), by simp [isUnlock, unlock]⟩
  exact Nat.pos_iff_ne_zero.mp (List.countP_pos_iff.mpr ⟨rq, member, by simp⟩)

theorem Owed.step (owed : s.Owed) (fifo : Fifo isUnlock s) (fifo' : Fifo isUnlock s') (aimed : s.Aimed)
    (queue : s.Queued) (next : s.step act = some s') : s'.Owed := by
  intro th x
  by_cases issue : ∃ rq, act = .issue rq
  · obtain ⟨rq, rfl⟩ := issue
    have issued := issue_issued next
    have shift := fifo.ahead_shift fifo' [rq] []
      (by simp [Sys.issues, issued.log, Entry.issued?])
      (by simp [Sys.begun, issued.log, Entry.started?, List.filterMap_cons]) th
    rw [List.filter_nil, List.nil_append] at shift
    rw [← shift, List.countP_append, ← owed th x]
    rcases issue_locks next with ⟨other, same⟩ | ⟨unlock, h, -, thread, addr, releasing, -⟩
    · have same : s'.releasing = s.releasing := congrArg Prod.snd same
      simp [same, mine, isUnlock, other]
    · rw [releasing, List.countP_cons]
      congr 1
      by_cases here : rq.thread = th
      · by_cases there : rq.addr = x
        · simp [mine, isUnlock, unlock, isLock, thread, addr, here, there]
        · simp [mine, isUnlock, unlock, isLock, thread, addr, here, there]
      · simp [mine, isUnlock, isLock, thread, here]
  · have other : ∀ rq, act ≠ .issue rq := fun rq h => issue ⟨rq, h⟩
    have shift := fifo.ahead_shift fifo' [] ((s.put (s.event act)).filterMap Out.released?)
      (by rw [(step_grows aimed queue next other).issues, List.append_nil]) (step_begun fifo aimed queue next other) th
    have moved : s'.releasing = ((s.put (s.event act)).foldl Out.move s.locks).2 :=
      congrArg Prod.snd (step_locks next other)
    rw [List.filter_nil, List.append_nil] at shift
    rcases put_cases s act with shape | ⟨n, rq, b, found, outs⟩
    · rw [shape.released, List.filter_nil, List.nil_append] at shift
      have same : s'.releasing = s.releasing := by
        rw [moved]
        generalize s.put (s.event act) = outs at shape
        cases shape <;> rfl
      rw [same, owed th x, shift]
    · have dropped : s'.releasing = dropHold rq.thread rq.addr s.releasing := by
        rw [moved, outs]
        rfl
      have count := countP_dropHold (owed.held aimed found) th x
      rw [owed th x, shift, List.countP_append, outs, ← dropped] at count
      have started : ((([.released rq, .process n] : List (Out Node)).filterMap Out.released?).filter
          fun rq => decide (rq.thread = th)).countP (fun rq => decide (rq.addr = x)) =
            if th = rq.thread ∧ x = rq.addr then 1 else 0 := by
        by_cases here : rq.thread = th
        · by_cases there : rq.addr = x
          · simp [Out.released?, List.filterMap_cons, here, there]
          · simp [Out.released?, List.filterMap_cons, here, there, Ne.symm there]
        · simp [Out.released?, List.filterMap_cons, here, Ne.symm here]
      omega

/-! ### The books -/

/-- The locks that were granted and are not released. -/
def ledger (s : Sys Node) : List (Hold Node) := s.releasing ++ s.held

end Sys

/-- A read lock is granted where the readers can still be counted. -/
def Out.Roomy (H : List (Hold Node)) : Out Node → Prop
  | .granted rq => rq.op = .rlock → (holdsAt H rq.thread.node rq.addr).length < 254
  | _ => True

instance (H : List (Hold Node)) (o : Out Node) : Decidable (o.Roomy H) := by
  cases o with
  | granted rq => exact inferInstanceAs (Decidable (_ → _))
  | _ => exact instDecidableTrue

namespace Sys
variable {s s' : Sys Node} {b : Block Node} {rq : Req Node} {act : Act Node}

/-- No read lock is granted to a worker that has 254 locks of the address already. -/
def Roomy (s : Sys Node) (act : Act Node) : Prop := ∀ o ∈ s.put (s.event act), o.Roomy s.ledger

instance (s : Sys Node) (act : Act Node) : Decidable (s.Roomy act) :=
  inferInstanceAs (Decidable (∀ o ∈ s.put (s.event act), o.Roomy s.ledger))

theorem put_booking (s : Sys Node) (act : Act Node) : (s.put (s.event act)).countP Out.isBooking ≤ 1 := by
  rcases put_cases s act with shape | ⟨n, rq, b, -, outs⟩
  · generalize s.put (s.event act) = outs at shape
    cases shape <;> simp [List.countP_cons, Out.isBooking]
  · rw [outs]
    simp [List.countP_cons, Out.isBooking]

/-- The ledger changes with the outputs. -/
theorem step_ledger (owed : s.Owed) (aimed : s.Aimed) (next : s.step act = some s')
    (other : ∀ rq, act ≠ .issue rq) : s'.ledger.Perm ((s.put (s.event act)).foldl Out.book s.ledger) := by
  have moved := step_locks next other
  have held : s'.held = ((s.put (s.event act)).foldl Out.move s.locks).1 := congrArg Prod.fst moved
  have releasing : s'.releasing = ((s.put (s.event act)).foldl Out.move s.locks).2 := congrArg Prod.snd moved
  rw [ledger, held, releasing]
  rcases put_cases s act with shape | ⟨n, rq, b, found, outs⟩
  · generalize s.put (s.event act) = outs at shape
    cases shape with
    | locked rq | rLockDone rq n | wLockDone rq n => exact List.perm_middle
    | _ => exact List.Perm.refl _
  · rw [outs]
    obtain ⟨h, member, thread, addr⟩ := owed.held aimed found
    change (dropHold rq.thread rq.addr s.releasing ++ s.held).Perm (dropHold rq.thread rq.addr s.ledger)
    have first : dropHold rq.thread rq.addr s.ledger = dropHold rq.thread rq.addr s.releasing ++ s.held :=
      List.eraseP_append_left (by simp [thread, addr]) _ member
    rw [first]

theorem issue_ledger (next : s.issue rq = some s') : s'.ledger.Perm s.ledger := by
  rcases issue_locks next with ⟨-, same⟩ | ⟨-, h, -, -, -, releasing, held⟩
  · have held : s'.held = s.held := congrArg Prod.fst same
    have releasing : s'.releasing = s.releasing := congrArg Prod.snd same
    rw [ledger, ledger, held, releasing]
  · rw [ledger, ledger, releasing, List.cons_append]
    exact (List.perm_middle.symm).trans (held.symm.append_left _)

end Sys

/-- The books of every block, along a run. -/
structure Books (s : Sys Node) (abs : Block Node → Abs Node) : Prop where
  fifo : Sys.Fifo Sys.isUnlock s
  owed : s.Owed
  booked : ∀ b, Booked b s.ledger (abs b)

theorem Terms.guard_mine (t : Terms Node) (b : Block Node) : ∀ n rq, (t.guard b).req n rq →
    rq.thread.node = n ∧ (rq.op = .rlock ∨ rq.op = .wlock ∨ rq.op = .unlock → rq.addr.toBlock = b) :=
  fun _ _ valid => ⟨valid.1, fun lock => (valid.2.2.lock lock).symm⟩

namespace Books
variable {t : Terms Node} {s s' : Sys Node} {abs abs' : Block Node → Abs Node} {act : Sys.Act Node}

theorem init (mem : Block Node → Data) : Books (Sys.init mem) fun b => Abs.init (mem b) where
  fifo := Sys.Fifo.init mem
  owed := fun th x => rfl
  booked := fun b => Booked.init b (mem b)

/-- No replay is an `UNLOCK`, so their order is kept. -/
theorem respects {ok : Sys Node → Sys.Act Node → Prop} {mem : Block Node → Data} (reach : Sys.Reach ok mem s) :
    Sys.Fifo.Respects Sys.isUnlock s := by
  obtain ⟨abs, known⟩ := reach.known
  have access : ∀ rq : Req Node, Sys.isUnlock rq = true → rq.op = .unlock := fun rq h => by
    simpa [Sys.isUnlock] using h
  refine ⟨fun rq keeps => ?_, fun rq keeps op => ?_, fun rq rest todo => ?_, fun rq rest todo keeps => ?_⟩
  · simp [access rq keeps]
  · rw [access rq keeps] at op; cases op
  · exact Sys.mem_issues_of_logged (known.within.todo (.replay rq) (by rw [todo]; simp) rq rfl)
  · have replays : rq.Reads ∨ rq.Writes := known.aimed (.replay rq) (by rw [todo]; simp)
    rcases replays with (op | op) | (op | op) <;> rw [access rq keeps] at op <;> cases op

/-- The block a lock was granted or released in is that of its address. -/
theorem booked_step (books : Books s abs) (d : Described t s abs) (roomy : s.Roomy act)
    (next : s.step act = some s') (other : ∀ rq, act ≠ .issue rq)
    (runs : ∀ b, Lts.Run (Abs.Step (t.guard b) b) (abs b) (s.outs act b) (abs' b)) (b : Block Node) :
    Booked b ((s.put (s.event act)).foldl Out.book s.ledger) (abs' b) := by
  have run := runs b
  -- nothing happens at this block
  have silent : s.outs act b = [] → Booked b s.ledger (abs' b) := fun none_ => by
    rw [none_] at run
    exact (books.booked b).run (d.consistent b) (d.carried b) (t.guard_mine b) run (by simp) (by simp)
  cases found : s.event act with
  | none => exact silent (by simp [Sys.outs, found])
  | some e =>
    obtain ⟨b', ev⟩ := e
    have put : s.put (s.event act) = ((s.blk b').step b' ev).2 := by rw [found]; rfl
    by_cases same : b' = b
    · subst same
      have outs : s.outs act b' = s.put (s.event act) := by rw [put]; simp [Sys.outs, found]
      rw [outs] at run
      rw [← found]
      refine (books.booked b').run (d.consistent b') (d.carried b') (t.guard_mine b') run
        (Sys.put_booking s act) fun o member => ?_
      rcases Sys.put_cases s act with shape | ⟨n, rq, b'', unlock, outs⟩
      · cases o with
        | granted rq => exact roomy _ member
        | released rq =>
          have found : rq ∈ (s.put (s.event act)).filterMap Out.released? :=
            List.mem_filterMap.mpr ⟨_, member, rfl⟩
          rw [shape.released] at found
          cases found
        | _ => trivial
      · rw [outs] at member
        obtain ⟨h, held, mine⟩ := books.owed.held d.aimed unlock
        rcases List.mem_cons.mp member with rfl | last
        · exact ⟨h, List.mem_append_left _ held, mine⟩
        · rw [List.mem_singleton.mp last]
          trivial
    · have here := silent (by simp [Sys.outs, found, same])
      have labels := ((d.carried b').run (d.consistent b') (runs b')).2
      have outs : s.outs act b' = s.put (s.event act) := by rw [put]; simp [Sys.outs, found]
      rw [outs] at labels
      rw [← found]
      rcases Sys.put_cases s act with shape | ⟨n, rq, b'', unlock, outs⟩
      · have elsewhere : ∀ rq, .granted rq ∈ s.put (s.event act) → Booked b (rq.hold :: s.ledger) (abs' b) := by
          intro rq member
          obtain ⟨fits, valid⟩ := labels _ member
          obtain ⟨n, valid⟩ := valid rq rfl
          refine here.grant_elsewhere fun inside => same ?_
          have lock : rq.op = .rlock ∨ rq.op = .wlock ∨ rq.op = .unlock := Or.elim fits Or.inl fun h => Or.inr (Or.inl h)
          exact (valid.2.2.lock lock).trans inside
        generalize s.put (s.event act) = outs at shape elsewhere
        cases shape with
        | locked rq | rLockDone rq n | wLockDone rq n => exact elsewhere rq List.mem_cons_self
        | _ => exact here
      · rw [outs]
        obtain ⟨rest, -, -, block, -⟩ := Sys.unlock_ahead d.aimed unlock
        rw [found] at unlock
        cases unlock
        exact here.release_elsewhere fun inside => same (block.trans inside)

end Books

section sim
variable {t : Terms Node} {ok : Sys Node → Sys.Act Node → Prop} {mem : Block Node → Data} {s : Sys Node}
  {abs : Block Node → Abs Node}

/-- In every run in which the readers can be counted the tables are right. -/
theorem Sim.books (sim : Sim t ok mem s abs) (roomy : ∀ s act, ok s act → s.Roomy act) : Books s abs := by
  induction sim with
  | init => exact Books.init mem
  | @step s s' abs abs' act sim d allowed next runs d' ih =>
    have queue : s.Queued :=
      fun b n rq member => (d.queue b n rq member).2
    have fifo := ih.fifo.step d.aimed (Books.respects sim.reach) queue next
    refine ⟨fifo, ih.owed.step ih.fifo fifo d.aimed queue next, fun b => ?_⟩
    by_cases issue : ∃ rq, act = .issue rq
    · obtain ⟨rq, rfl⟩ := issue
      have run := runs b
      have silent : s.outs (.issue rq) b = [] := rfl
      rw [silent] at run
      have moved := (ih.booked b).run (d.consistent b) (d.carried b) (t.guard_mine b) run (by simp) (by simp)
      exact moved.perm (Sys.issue_ledger next).symm
    · have other : ∀ rq, act ≠ .issue rq := fun rq h => issue ⟨rq, h⟩
      exact (ih.booked_step d (roomy _ _ allowed) next other runs b).perm
        (Sys.step_ledger ih.owed d.aimed next other).symm

end sim

end Gam
