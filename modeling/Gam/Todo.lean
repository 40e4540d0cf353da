import Gam.Runs

/-! What the steps of the cluster do to the tasks of the running handler and to the requests that wait
behind a fence. -/

namespace Gam
variable {Node : Type} [DecidableEq Node]

namespace Sys
variable {s s' : Sys Node} {b : Block Node} {rq : Req Node}
variable {task : Task Node} {ev : BlockState.Event Node} {proceed : Sys Node} {th : Thread Node} {n : Node}

/-- Every request in a task or behind a fence has property `P`. -/
structure Within (P : Req Node → Prop) (s : Sys Node) : Prop where
  todo : ∀ task ∈ s.todo, ∀ rq, task.req? = some rq → P rq
  fence : ∀ th, ∀ rq ∈ (s.fence th).pendingWorks, P rq

namespace Within
variable {P : Req Node → Prop}

section
variable (within : Within P s)
include within

theorem congr (s' : Sys Node) (todo : s'.todo = s.todo) (fence : s'.fence = s.fence) : Within P s' := by
  constructor
  · rw [todo]; exact within.todo
  · rw [fence]; exact within.fence

theorem push {tasks : List (Task Node)}
    (fresh : ∀ task ∈ tasks, ∀ rq, task.req? = some rq → P rq) : Within P (s.push tasks) := by
  refine ⟨fun task member => ?_, within.fence⟩
  rcases List.mem_append.mp member with new | old
  · exact fresh task new
  · exact within.todo task old

theorem setFence {f : Fence Node} (fresh : ∀ rq ∈ f.pendingWorks, P rq) : Within P (s.setFence th f) := by
  refine ⟨within.todo, fun th' rq member => ?_⟩
  by_cases same : th' = th
  · subst th'
    exact fresh rq (by simpa using member)
  · exact within.fence th' rq (by simpa [same] using member)

/-- Only the flags and the counter of a fence change. -/
theorem setFlags {f : Fence Node} (same : f.pendingWorks = (s.fence th).pendingWorks) : Within P (s.setFence th f) :=
  within.setFence (by rw [same]; exact within.fence th)

theorem addToFence (valid : P rq) : Within P (s.addToFence rq) := by
  refine (within.congr (s.setWork rq.rid _) rfl rfl).setFence fun rq' member => ?_
  rcases List.mem_append.mp member with old | new
  · exact within.fence rq.thread rq' old
  · rw [List.mem_singleton.mp new]; exact valid

theorem pushOne (fresh : ∀ rq, task.req? = some rq → P rq) : Within P (s.push [task]) :=
  within.push fun task' member => by
    rw [List.mem_singleton.mp member]
    exact fresh

theorem finish (valid : P rq) : Within P (s.finish rq) := by
  simp only [Sys.finish]
  split
  · exact within.pushOne fun rq' h => by cases h; exact valid
  · exact within.congr _ rfl rfl

theorem notify : Within P (s.notify rq) := by
  have recorded : Within P (s.record (.notified rq)) := within.congr _ rfl rfl
  have drained : ∀ f : Fence Node, f.pendingWorks = (s.fence rq.thread).pendingWorks →
      Within P (((s.record (.notified rq)).setFence rq.thread f).push [.fenced rq.thread]) :=
    fun f same => (recorded.setFlags same).pushOne fun _ h => by cases h
  simp only [Sys.notify]
  repeat' split
  · exact drained _ rfl
  · exact recorded.setFlags rfl
  · exact drained _ rfl
  · exact recorded.setFlags rfl
  · exact within.congr _ rfl rfl

theorem enter (valid : P rq) : Within P (s.enter rq) := by
  simp only [Sys.enter]
  repeat' split
  all_goals
    refine pushOne ?_ fun rq' h => by cases h; exact valid
    exact within.congr _ rfl rfl

theorem block (labels : ∀ o ∈ ((s.blk b).step b ev).2, ∀ rq, o.req? = some rq → P rq) : Within P (s.block b ev) := by
  refine ⟨fun task member rq about => ?_, fun th rq member => ?_⟩
  · rw [block_todo] at member
    rcases List.mem_append.mp member with new | old
    · obtain ⟨o, listed, same⟩ := emitAll_tasks new about
      exact labels o listed rq same
    · exact within.todo task old rq about
  · rw [block_fence] at member
    exact within.fence th rq member

theorem lockFence (valid : P rq) (next : Within P proceed) : Within P (s.lockFence rq proceed) := by
  simp only [Sys.lockFence]
  repeat' split
  · exact next
  · exact within.addToFence valid
  · refine addToFence ?_ valid
    exact within.setFlags rfl
  · exact next

theorem processLocalRequest (valid : P rq) : Within P (s.processLocalRequest rq) := by
  have left : Within P (s.push [.leave rq]) := within.pushOne fun rq' h => by cases h; exact valid
  unfold Sys.processLocalRequest
  cases op : rq.op with
  | read =>
    simp only
    split
    · exact within.addToFence valid
    · exact within.enter valid
  | write =>
    simp only
    repeat' split
    · exact within.addToFence valid
    · refine enter ?_ valid
      exact within.setFlags rfl
    · exact within.enter valid
  | rlock | wlock => exact within.lockFence valid (within.enter valid)
  | unlock =>
    refine within.lockFence valid (block ?_ fun o member rq' about => ?_)
    · split
      · exact left
      · exact left.congr _ rfl rfl
    · rcases List.mem_cons.mp member with rfl | last
      · cases about; exact valid
      · rw [List.mem_singleton.mp last] at about
        cases about
  | mfence | sfence =>
    simp only
    repeat' split
    · exact within.addToFence valid
    · exact (left.congr ((s.record _).push _) rfl rfl).setFlags rfl
    · exact left.congr _ rfl rfl

theorem fencedRound (th : Thread Node) : Within P (s.fencedRound th) := by
  have works := within.fence th
  unfold Sys.fencedRound
  simp only []
  split
  · exact within.setFence fun rq member => by rename_i empty; rw [empty] at member; cases member
  · next lwr rest list =>
    have first : P lwr := works lwr (by rw [list]; simp)
    have others : ∀ rq ∈ rest, P rq := fun rq member => works rq (by rw [list]; simp [member])
    have again : Within P (s.push [.start lwr, .popFenced th]) := by
      refine within.push fun task member rq about => ?_
      rcases List.mem_cons.mp member with rfl | last
      · cases about; exact first
      · rw [List.mem_singleton.mp last] at about
        cases about
    split
    · split
      · exact within.setFence others
      · exact (within.setFence others).pushOne fun _ h => by cases h
    · split
      · exact within.setFence others
      · exact (within.setFence others).pushOne fun _ h => by cases h
    all_goals first
      | exact again
      | (split
         · exact within.setFlags rfl
         · exact again)

theorem perform (ptr : Nat) (data : Data) (valid : ∀ rq, task.req? = some rq → P rq)
    (queue : ∀ b n, ∀ rq ∈ (s.blk b).toServeLocal n, P rq) (labels : ∀ b ev, s.taskEvent ptr data task = some (b, ev) →
      ∀ o ∈ ((s.blk b).step b ev).2, ∀ rq, o.req? = some rq → P rq) : Within P (s.perform ptr data task) := by
  cases task with
  | start rq => exact within.processLocalRequest (valid rq rfl)
  | replay rq =>
    exact (within.congr (s.setWork rq.rid _) rfl rfl).processLocalRequest (valid rq rfl)
  | leave rq =>
    simp only [Sys.perform]
    split
    · exact within.pushOne fun rq' h => by cases h; exact valid rq rfl
    · exact within.congr _ rfl rfl
  | notify rq => exact within.notify
  | fenced th => exact within.fencedRound th
  | popFenced th =>
    refine pushOne (within.setFence fun rq member => ?_) fun _ h => by cases h
    exact within.fence th rq (List.mem_of_mem_tail member)
  | serveLocal b n =>
    refine push (within.block (labels b _ rfl)) fun task member rq about => ?_
    obtain ⟨rq', listed, rfl⟩ := List.mem_map.mp member
    cases about
    exact queue b n rq listed
  | serveRemote b n =>
    exact (within.congr (s.draw n _) rfl rfl).block (labels b _ rfl)
  | block rq i =>
    have mine := valid rq rfl
    have drawn : Within P (s.draw rq.thread.node 1) := within.congr _ rfl rfl
    have next : touches rq i = true →
        Within P ((s.draw rq.thread.node 1).block ⟨rq.addr.wid, i⟩
          (.request rq.thread.node rq ⟨s.psn rq.thread.node + 1, ptr, data⟩)) :=
      fun touched => drawn.block (labels _ _ (by simp [taskEvent, touched]))
    simp only [Sys.perform, blockRound]
    cases op : rq.op with
    | read | write =>
      simp only
      split
      · next more =>
        have base := next (by simpa [touches, op] using more)
        split
        · exact base
        · exact base.pushOne fun rq' h => by cases h; exact mine
      · split
        · exact within.finish mine
        · exact within
    | rlock | wlock =>
      have base := next (by simp [touches, op])
      simp only
      split
      · exact base.finish mine
      · exact base
    | unlock | mfence | sfence => exact within

end

end Within

/-- Tasks stay until they are performed. -/
theorem block_keeps (member : task ∈ s.todo) : task ∈ (s.block b ev).todo := by
  rw [block_todo]
  exact List.mem_append_right _ member

theorem push_keeps {tasks : List (Task Node)} (member : task ∈ s.todo) : task ∈ (s.push tasks).todo :=
  List.mem_append_right _ member

theorem finish_keeps (member : task ∈ s.todo) : task ∈ (s.finish rq).todo := by
  simp only [finish]
  split
  · exact push_keeps member
  · exact member

theorem notify_keeps (member : task ∈ s.todo) : task ∈ (s.notify rq).todo := by
  simp only [notify]
  repeat' split
  all_goals first
    | exact push_keeps (s := Sys.setFence _ _ _) member
    | exact member

theorem enter_keeps (member : task ∈ s.todo) : task ∈ (s.enter rq).todo := by
  simp only [enter]
  repeat' split
  all_goals exact List.mem_append_right _ member

theorem lockFence_keeps (member : task ∈ s.todo)
    (next : task ∈ proceed.todo) : task ∈ (s.lockFence rq proceed).todo := by
  simp only [lockFence]
  repeat' split
  all_goals first
    | exact next
    | exact member

theorem processLocalRequest_keeps (member : task ∈ s.todo) : task ∈ (s.processLocalRequest rq).todo := by
  unfold processLocalRequest
  cases op : rq.op with
  | read =>
    simp only
    split
    · exact member
    · exact enter_keeps member
  | write =>
    simp only
    repeat' split
    · exact member
    · exact enter_keeps (s := s.setFence _ _) member
    · exact enter_keeps member
  | rlock | wlock => exact lockFence_keeps member (enter_keeps member)
  | unlock =>
    refine lockFence_keeps member (block_keeps ?_)
    split <;> exact List.mem_append_right _ member
  | mfence | sfence =>
    simp only
    repeat' split
    all_goals first
      | exact member
      | exact List.mem_append_right _ member

theorem fencedRound_keeps (member : task ∈ s.todo) : task ∈ (s.fencedRound th).todo := by
  unfold fencedRound
  simp only []
  repeat' split
  all_goals first
    | exact member
    | exact List.mem_append_right _ member

theorem perform_keeps (ptr : Nat) (data : Data) {task task' : Task Node} (member : task ∈ s.todo) :
    task ∈ (s.perform ptr data task').todo := by
  cases task' with
  | start rq => exact processLocalRequest_keeps member
  | replay rq => exact processLocalRequest_keeps (s := s.setWork _ _) member
  | leave rq =>
    simp only [perform]
    split
    · exact push_keeps member
    · exact member
  | notify rq => exact notify_keeps member
  | fenced th => exact fencedRound_keeps member
  | popFenced th => exact push_keeps (s := s.setFence _ _) member
  | serveLocal b n => exact push_keeps (block_keeps member)
  | serveRemote b n => exact block_keeps (s := s.draw _ _) member
  | block rq i =>
    simp only [perform, blockRound]
    cases rq.op with
    | read | write =>
      simp only
      split
      · split
        · exact block_keeps (s := s.draw _ _) member
        · exact push_keeps (block_keeps (s := s.draw _ _) member)
      · split
        · exact finish_keeps member
        · exact member
    | rlock | wlock =>
      simp only
      split
      · exact finish_keeps (block_keeps (s := s.draw _ _) member)
      · exact block_keeps (s := s.draw _ _) member
    | unlock | mfence | sfence => exact member

/-! ### What a handler leaves to be served -/

/-- Both halves of `ProcessToServeRequest` are about to run. -/
def Serves (s : Sys Node) (b : Block Node) (n : Node) : Prop :=
  .serveLocal b n ∈ s.todo ∧ .serveRemote b n ∈ s.todo

theorem block_serves (member : .process n ∈ ((s.blk b).step b ev).2) : (s.block b ev).Serves b n := by
  rw [Serves, block_todo]
  obtain ⟨remote, local_⟩ := process_tasks (s := s.setBlk b ((s.blk b).step b ev).1) (b := b) member
  exact ⟨List.mem_append_left _ local_, List.mem_append_left _ remote⟩

theorem lockFence_of_passes (passes : s.passes rq = true) : s.lockFence rq proceed = proceed := by
  unfold lockFence
  unfold Sys.passes at passes
  by_cases fenced : (s.work rq.rid).fence = true
  · simp [fenced]
  · have free : (s.fence rq.thread).isFenced (s.work rq.rid) = false ∧
        (s.fence rq.thread).pendingWrites = 0 := by
      simpa [fenced] using passes
    simp [fenced, free.1, free.2]

theorem processLocalRequest_serves
    (found : s.unlocks rq = some (b, ev)) (member : .process n ∈ ((s.blk b).step b ev).2) :
    (s.processLocalRequest rq).Serves b n := by
  unfold unlocks at found
  split at found
  · next unlock =>
    cases found
    simp only [processLocalRequest, unlock.1, lockFence_of_passes unlock.2]
    refine block_serves ?_
    split <;> exact member
  · cases found

theorem perform_serves (ptr : Nat) (data : Data)
    (found : s.taskEvent ptr data task = some (b, ev)) (member : .process n ∈ ((s.blk b).step b ev).2) :
    (s.perform ptr data task).Serves b n := by
  cases task with
  | start rq => exact processLocalRequest_serves found member
  | replay rq => exact processLocalRequest_serves (s := s.setWork rq.rid _) found member
  | leave rq | notify rq | fenced th | popFenced th => cases found
  | serveLocal b' n' =>
    cases found
    cases member
  | serveRemote b' n' =>
    cases found
    cases member
  | block rq i =>
    simp only [taskEvent] at found
    split at found
    · next touched =>
      cases found
      have base := block_serves (s := s.draw rq.thread.node 1) member
      simp only [perform, blockRound]
      cases op : rq.op with
      | read | write =>
        have more : i * blockSize < rq.stop := by simpa [touches, op] using touched
        simp only [if_pos more]
        split
        · exact base
        · exact ⟨push_keeps base.1, push_keeps base.2⟩
      | rlock | wlock =>
        simp only
        split
        · exact ⟨finish_keeps base.1, finish_keeps base.2⟩
        · exact base
      | unlock | mfence | sfence => simp [touches, op] at touched
    · cases found

/-- Whatever a step of the cluster puts out about `ProcessToServeRequest` is a task then. -/
theorem step_serves {act : Act Node} (next : s.step act = some s')
    (member : .process n ∈ s.outs act b) : s'.Serves b n := by
  unfold outs at member
  cases found : s.event act with
  | none => rw [found] at member; cases member
  | some e =>
    obtain ⟨b', ev⟩ := e
    rw [found] at member
    simp only at member
    split at member
    · next same =>
      subst same
      cases step_takes next with
      | issue => cases found
      | block n k event =>
        rw [event] at found
        cases found
        exact block_serves (s := s.draw _ _) member
      | run todo event => exact perform_serves _ _ (event ▸ found) member
    · cases member

end Sys

end Gam
