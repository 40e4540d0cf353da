import Gam.Cluster

/-! Runs of the cluster. Along every run each block is described by a run of the abstract protocol,
with the labels the code puts out. -/

namespace Gam
variable {Node : Type} [DecidableEq Node]

namespace Sys

/-- A run from the initial state whose steps all meet `ok`. -/
inductive Reach (ok : Sys Node → Act Node → Prop) (mem : Block Node → Data) : Sys Node → Prop
  | init : Reach ok mem (Sys.init mem)
  | step {s s' : Sys Node} {act : Act Node} (reach : Reach ok mem s) (allowed : ok s act)
    (next : s.step act = some s') : Reach ok mem s'

/-- Does a lock operation get past the fence? -/
def passes (s : Sys Node) (rq : Req Node) : Bool :=
  (s.work rq.rid).fence ||
    (!(s.fence rq.thread).isFenced (s.work rq.rid) && decide ((s.fence rq.thread).pendingWrites = 0))

/-- The step an `UNLOCK` takes on its block, if it gets there. -/
def unlocks (s : Sys Node) (rq : Req Node) : Option (Block Node × BlockState.Event Node) :=
  if rq.op = .unlock ∧ s.passes rq = true then
    some (rq.addr.toBlock, .unLock rq.thread.node rq)
  else none

/-- Does round `i` of the loop over the blocks of a request touch a block? -/
def touches (rq : Req Node) (i : Nat) : Bool :=
  match rq.op with
  | .read | .write => decide (i * blockSize < rq.stop)
  | .rlock | .wlock => true
  | .unlock | .mfence | .sfence => false

/-- The step a task takes on a block, if it takes one. -/
def taskEvent (s : Sys Node) (ptr : Nat) (data : Data) : Task Node → Option (Block Node × BlockState.Event Node)
  | .start rq => s.unlocks rq
  | .replay rq => (s.setWork rq.rid { s.work rq.rid with toServe := true }).unlocks rq
  | .block rq i =>
    if touches rq i then
      some (⟨rq.addr.wid, i⟩, .request rq.thread.node rq ⟨s.psn rq.thread.node + 1, ptr, data⟩)
    else none
  | .serveLocal b n => some (b, .takeLocal n)
  | .serveRemote b n => some (b, .serveRemote n (s.psn n + 1))
  | .leave _ | .notify _ | .fenced _ | .popFenced _ => none

/-- The step of the cluster on a block, if it takes one. -/
def event (s : Sys Node) : Act Node → Option (Block Node × BlockState.Event Node)
  | .issue _ => none
  | .deliver b src dst => some (b, .deliver src dst (s.psn dst + 1))
  | .complete b n => some (b, .complete n)
  | .evict b n => some (b, .evict n (s.psn n + 1))
  | .run ptr data =>
    match s.todo with
    | [] => none
    | task :: _ => s.taskEvent ptr data task

/-- The blocks after such a step. -/
def after (s : Sys Node) : Option (Block Node × BlockState.Event Node) → Block Node → BlockState Node
  | none => s.blk
  | some (b, ev) => Function.update s.blk b ((s.blk b).step b ev).1

/-- What a step of the cluster puts out for block `b`. -/
def outs (s : Sys Node) (act : Act Node) (b : Block Node) : List (Out Node) :=
  match s.event act with
  | none => []
  | some (b', ev) => if b' = b then ((s.blk b).step b ev).2 else []

section blocks
variable {s s' : Sys Node} {rq : Req Node}

@[simp] theorem addToFence_blk : (s.addToFence rq).blk = s.blk := rfl

@[simp] theorem finish_blk : (s.finish rq).blk = s.blk := by
  simp only [finish]
  split <;> rfl

@[simp] theorem notify_blk : (s.notify rq).blk = s.blk := by
  simp only [notify]
  repeat' split
  all_goals rfl

@[simp] theorem enter_blk : (s.enter rq).blk = s.blk := by
  simp only [enter]
  repeat' split
  all_goals rfl

@[simp] theorem fencedRound_blk (th : Thread Node) : (s.fencedRound th).blk = s.blk := by
  unfold fencedRound
  simp only []
  repeat' split
  all_goals rfl

theorem lockFence_eq (proceed : Sys Node) :
    (s.lockFence rq proceed).blk = if s.passes rq = true then proceed.blk else s.blk := by
  unfold lockFence passes
  by_cases fenced : (s.work rq.rid).fence = true
  · simp [fenced]
  · by_cases waits : (s.fence rq.thread).isFenced (s.work rq.rid) = true
    · simp [fenced, waits]
    · by_cases writes : (s.fence rq.thread).pendingWrites = 0
      · simp [fenced, waits, writes]
      · simp [fenced, waits, writes]

theorem processLocalRequest_blk : (s.processLocalRequest rq).blk = s.after (s.unlocks rq) := by
  unfold processLocalRequest unlocks
  cases op : rq.op with
  | read =>
    simp only [reduceCtorEq, false_and, if_false, after]
    split <;> simp
  | write =>
    simp only [reduceCtorEq, false_and, if_false, after]
    repeat' split
    all_goals simp
  | rlock => simp [lockFence_eq, after]
  | wlock => simp [lockFence_eq, after]
  | unlock =>
    simp only [lockFence_eq, true_and]
    by_cases passes : s.passes rq = true
    · simp only [if_pos passes, after]
      split <;> simp
    · simp [passes, after]
  | mfence | sfence =>
    simp only [reduceCtorEq, false_and, if_false, after]
    repeat' split
    all_goals simp

theorem blockRound_blk (i ptr : Nat) (data : Data) :
    (s.blockRound rq i ptr data).blk = s.after (s.taskEvent ptr data (.block rq i)) := by
  unfold blockRound taskEvent
  cases op : rq.op with
  | read | write =>
    have same : touches rq i = decide (i * blockSize < rq.stop) := by simp [touches, op]
    by_cases more : i * blockSize < rq.stop
    · simp only [same, more, decide_true, if_true, after]
      split <;> simp
    · simp only [same, more, decide_false, Bool.false_eq_true, if_false, after]
      split <;> simp
  | rlock | wlock =>
    have same : touches rq i = true := by simp [touches, op]
    simp only [same, if_true, after]
    split <;> simp
  | unlock | mfence | sfence =>
    have same : touches rq i = false := by simp [touches, op]
    simp [same, after]

theorem perform_blk (ptr : Nat) (data : Data) (task : Task Node) :
    (s.perform ptr data task).blk = s.after (s.taskEvent ptr data task) := by
  cases task with
  | start rq => exact processLocalRequest_blk
  | replay rq => exact processLocalRequest_blk
  | block rq i => exact blockRound_blk i ptr data
  | leave rq =>
    simp only [perform]
    split <;> rfl
  | serveLocal b n => simp [perform, taskEvent, after]
  | serveRemote b n => simp [perform, taskEvent, after]
  | notify rq => exact notify_blk
  | fenced th => exact fencedRound_blk th
  | popFenced th => rfl

/-- What a step does: a request is issued, a block takes a step of its own, or the first task is performed. -/
inductive Takes (s : Sys Node) : Act Node → Sys Node → Prop
  | issue {rq : Req Node} {s' : Sys Node} (issued : s.issue rq = some s') : Takes s (.issue rq) s'
  | block {act : Act Node} {b : Block Node} {ev : BlockState.Event Node} (n : Node) (k : Nat)
    (event : s.event act = some (b, ev)) (locks : ∀ m rq, ev ≠ .unLock m rq)
    (idle : s.todo = [] ∨ ∃ m id, ev = .evict m id) : Takes s act ((s.draw n k).block b ev)
  | run {ptr : Nat} {data : Data} {task : Task Node} {rest : List (Task Node)} (todo : s.todo = task :: rest)
    (event : s.event (.run ptr data) = taskEvent { s with todo := rest } ptr data task) :
    Takes s (.run ptr data) (perform { s with todo := rest } ptr data task)

theorem draw_zero (n : Node) : s.draw n 0 = s := by
  simp [draw]

theorem step_takes {act : Act Node} (next : s.step act = some s') : s.Takes act s' := by
  cases act with
  | issue rq => exact .issue next
  | deliver b src dst =>
    simp only [step] at next
    split at next
    · next empty =>
      cases next
      exact .block dst 1 rfl nofun (Or.inl (List.isEmpty_iff.mp empty))
    · cases next
  | complete b n =>
    simp only [step] at next
    split at next
    · next empty =>
      cases next
      have taken : s.Takes (.complete b n) ((s.draw n 0).block b (.complete n)) :=
        .block n 0 rfl nofun (Or.inl (List.isEmpty_iff.mp empty))
      rwa [draw_zero] at taken
    · cases next
  | evict b n =>
    cases next
    exact .block n 1 rfl nofun (Or.inr ⟨_, _, rfl⟩)
  | run ptr data =>
    simp only [step] at next
    cases todo : s.todo with
    | nil => rw [todo] at next; cases next
    | cons task rest =>
      rw [todo] at next
      cases next
      refine .run todo ?_
      simp only [event, todo]
      cases task <;> rfl

/-- A step of the cluster is a step of at most one block. -/
theorem step_blk {act : Act Node} (next : s.step act = some s') : s'.blk = s.after (s.event act) := by
  cases step_takes next with
  | issue issued =>
    simp only [issue] at issued
    split at issued
    · split at issued
      · split at issued
        · cases issued
        · cases issued; rfl
      · cases issued; rfl
    · cases issued
  | block n k event => rw [event]; simp [after]
  | run todo event => rw [perform_blk, event]; rfl

end blocks

end Sys

end Gam
