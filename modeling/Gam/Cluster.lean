import Gam.Labels
import Gam.Queues
import Gam.Refinement
import Gam.System

/-! Steps of the cluster, one block at a time: which block a step touches, and what it leaves alone. -/

namespace Gam
variable {Node : Type} [DecidableEq Node]

/-- The application request a task is about. -/
def Task.req? : Task Node → Option (Req Node)
  | .start rq | .replay rq | .block rq _ | .leave rq | .notify rq => some rq
  | .serveLocal _ _ | .serveRemote _ _ | .fenced _ | .popFenced _ => none

namespace Sys
variable {s s' : Sys Node} {b : Block Node}

section emit
variable (s b) (o : Out Node) (outs : List (Out Node))

@[simp] theorem emit_blk : (s.emit b o).1.blk = s.blk := by
  cases o <;> simp only [emit] <;> first | rfl | (split <;> rfl)

@[simp] theorem emit_fence : (s.emit b o).1.fence = s.fence := by
  cases o <;> simp only [emit] <;> first | rfl | (split <;> rfl)

@[simp] theorem emit_todo : (s.emit b o).1.todo = s.todo := by
  cases o <;> simp only [emit] <;> first | rfl | (split <;> rfl)

@[simp] theorem emitAll_blk : (s.emitAll b outs).1.blk = s.blk := by
  induction outs generalizing s with
  | nil => rfl
  | cons o outs ih => simp [emitAll, ih]

@[simp] theorem emitAll_fence : (s.emitAll b outs).1.fence = s.fence := by
  induction outs generalizing s with
  | nil => rfl
  | cons o outs ih => simp [emitAll, ih]

@[simp] theorem emitAll_todo : (s.emitAll b outs).1.todo = s.todo := by
  induction outs generalizing s with
  | nil => rfl
  | cons o outs ih => simp [emitAll, ih]

end emit

/-- Every task that follows from an output is about the request of that output. -/
theorem emitAll_tasks {outs : List (Out Node)} {task : Task Node} (member : task ∈ (s.emitAll b outs).2)
    {rq : Req Node} (about : task.req? = some rq) : ∃ o ∈ outs, o.req? = some rq := by
  induction outs generalizing s with
  | nil => cases member
  | cons o outs ih =>
    rcases List.mem_append.mp member with mine | later
    · refine ⟨o, by simp, ?_⟩
      cases o <;> simp only [emit] at mine
      case replied rq' =>
        split at mine
        · obtain rfl := List.mem_singleton.mp mine
          exact about
        · cases mine
      case notify rq' =>
        obtain rfl := List.mem_singleton.mp mine
        exact about
      case process n =>
        rcases List.mem_cons.mp mine with rfl | last
        · cases about
        · obtain rfl := List.mem_singleton.mp last
          cases about
      all_goals cases mine
    · obtain ⟨o', listed, same⟩ := ih later
      exact ⟨o', by simp [listed], same⟩

/-- `ProcessToServeRequest` becomes two tasks. -/
theorem process_tasks {outs : List (Out Node)} {n : Node} (member : .process n ∈ outs) :
    .serveRemote b n ∈ (s.emitAll b outs).2 ∧ .serveLocal b n ∈ (s.emitAll b outs).2 := by
  induction outs generalizing s with
  | nil => cases member
  | cons o outs ih =>
    rcases List.mem_cons.mp member with rfl | later
    · simp [emitAll, emit]
    · obtain ⟨remote, local_⟩ := ih (s := (s.emit b o).1) later
      exact ⟨List.mem_append_right _ remote, List.mem_append_right _ local_⟩

@[simp] theorem block_blk (ev : BlockState.Event Node) :
    (s.block b ev).blk = Function.update s.blk b ((s.blk b).step b ev).1 := by
  simp [block]

@[simp] theorem block_fence (ev : BlockState.Event Node) : (s.block b ev).fence = s.fence := by
  simp [block]

theorem block_todo (ev : BlockState.Event Node) : (s.block b ev).todo =
      ((s.setBlk b ((s.blk b).step b ev).1).emitAll b ((s.blk b).step b ev).2).2 ++ s.todo := by
  simp [block]

end Sys

end Gam
