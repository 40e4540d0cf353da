import Gam.Runs

/-! What one task of a handler does to the other tasks, to the fences and to the history. Most of it is
*quiet*: it neither starts a request nor touches what waits behind a fence. -/

namespace Gam
variable {Node : Type} [DecidableEq Node]
variable {f : Fence Node} {task : Task Node}

/-- The loop over the blocks of a request begins with the first one, and a lock concerns only that one.
Only reads, writes and lock operations are replayed. -/
def Task.Aims : Task Node → Prop
  | .block rq i =>
    rq.addr.toBlock.idx ≤ i ∧ (rq.op = .rlock ∨ rq.op = .wlock → i = rq.addr.toBlock.idx)
  | .replay rq => rq.Reads ∨ rq.Writes
  | _ => True

/-- Such a task, when no fence is involved. -/
def Task.Fine : Task Node → Prop
  | .start _ | .fenced _ | .popFenced _ => False
  | task => task.Aims

theorem Task.Fine.aims (fine : task.Fine) : task.Aims := by
  cases task <;> first | exact fine | trivial

/-- An entry that does not say that a request was issued or started. -/
def Entry.Plain : Entry Node → Prop
  | .issued _ | .started _ => False
  | .served _ _ _ | .applied _ _ | .granted _ | .refused _ | .released _ | .returned _ | .notified _ => True

/-- Does the fence hold requests back? -/
def Fence.Raised (f : Fence Node) : Prop := f.mfenced = true ∨ f.sfenced = true

/-- The fence once a finished write is no longer counted. -/
def Fence.afterNotify (f : Fence Node) (rq : Req Node) : Fence Node :=
  if rq.op = .write then { f with pendingWrites := f.pendingWrites - 1 } else f

namespace Sys

/-- Nothing starts, and nothing moves behind the fences. -/
structure Quiet (s s' : Sys Node) : Prop where
  todo : ∃ tasks, s'.todo = tasks ++ s.todo ∧ ∀ task ∈ tasks, task.Fine
  log : ∃ entries, s'.log = entries ++ s.log ∧ ∀ e ∈ entries, e.Plain
  works : ∀ th, (s'.fence th).pendingWorks = (s.fence th).pendingWorks
  inProcess : ∀ th, (s'.fence th).inProcess = (s.fence th).inProcess
  raised : ∀ th, (s.fence th).Raised → (s'.fence th).Raised
  flags : ∀ rid, (s'.work rid).toServe = (s.work rid).toServe ∧ (s'.work rid).fence = (s.work rid).fence

namespace Quiet
variable {s s' s'' : Sys Node} {b : Block Node} {rq : Req Node}

/-- Only blocks, counters, sequence numbers, locks and the threads that wait have changed. -/
theorem congr (todo : s'.todo = s.todo) (log : s'.log = s.log) (fence : s'.fence = s.fence)
    (flags : ∀ rid, (s'.work rid).toServe = (s.work rid).toServe ∧ (s'.work rid).fence = (s.work rid).fence) :
    Quiet s s' where
  todo := ⟨[], by simpa using todo, by simp⟩
  log := ⟨[], by simpa using log, by simp⟩
  works := fun th => by rw [fence]
  inProcess := fun th => by rw [fence]
  raised := fun th h => by rw [fence]; exact h
  flags := flags

theorem refl (s : Sys Node) : Quiet s s := congr rfl rfl rfl fun _ => ⟨rfl, rfl⟩

theorem trans (first : Quiet s s') (second : Quiet s' s'') : Quiet s s'' where
  todo := by
    obtain ⟨tasks, todo, fine⟩ := first.todo
    obtain ⟨tasks', todo', fine'⟩ := second.todo
    refine ⟨tasks' ++ tasks, by rw [todo', todo, List.append_assoc], fun task member => ?_⟩
    rcases List.mem_append.mp member with new | old
    · exact fine' task new
    · exact fine task old
  log := by
    obtain ⟨entries, log, plain⟩ := first.log
    obtain ⟨entries', log', plain'⟩ := second.log
    refine ⟨entries' ++ entries, by rw [log', log, List.append_assoc], fun e member => ?_⟩
    rcases List.mem_append.mp member with new | old
    · exact plain' e new
    · exact plain e old
  works := fun th => (second.works th).trans (first.works th)
  inProcess := fun th => (second.inProcess th).trans (first.inProcess th)
  raised := fun th h => second.raised th (first.raised th h)
  flags := fun rid =>
    ⟨(second.flags rid).1.trans (first.flags rid).1, (second.flags rid).2.trans (first.flags rid).2⟩

theorem push (quiet : Quiet s s') {tasks : List (Task Node)} (fine : ∀ task ∈ tasks, task.Fine) :
    Quiet s (s'.push tasks) := by
  refine quiet.trans ?_
  exact ⟨⟨tasks, rfl, fine⟩, ⟨[], rfl, by simp⟩, fun _ => rfl, fun _ => rfl, fun _ h => h,
    fun _ => ⟨rfl, rfl⟩⟩

theorem pushOne (quiet : Quiet s s') (fine : task.Fine) : Quiet s (s'.push [task]) :=
  quiet.push fun task' member => by rw [List.mem_singleton.mp member]; exact fine

theorem record (quiet : Quiet s s') {e : Entry Node} (plain : e.Plain) : Quiet s (s'.record e) := by
  refine quiet.trans ?_
  refine ⟨⟨[], rfl, by simp⟩, ⟨[e], rfl, fun e' member => ?_⟩, fun _ => rfl, fun _ => rfl, fun _ h => h,
    fun _ => ⟨rfl, rfl⟩⟩
  rw [List.mem_singleton.mp member]
  exact plain

theorem addCounter (quiet : Quiet s s') (rid : Nat) (k : Int) : Quiet s (s'.addCounter rid k) := by
  refine quiet.trans (congr rfl rfl rfl fun rid' => ?_)
  by_cases same : rid' = rid
  · subst rid'
    simp [Sys.addCounter]
  · simp [Sys.addCounter, same]

/-- The counter of a fence changes, or the fence is raised. -/
theorem setFence (quiet : Quiet s s') {th : Thread Node}
    (works : f.pendingWorks = (s'.fence th).pendingWorks) (inProcess : f.inProcess = (s'.fence th).inProcess)
    (raised : (s'.fence th).Raised → f.Raised) : Quiet s (s'.setFence th f) := by
  refine quiet.trans ⟨⟨[], rfl, by simp⟩, ⟨[], rfl, by simp⟩, fun th' => ?_, fun th' => ?_, fun th' => ?_,
    fun _ => ⟨rfl, rfl⟩⟩
  all_goals
    by_cases same : th' = th
    · subst th'
      simpa
    · simp [same]

theorem emit (quiet : Quiet s s') (o : Out Node) : Quiet s (s'.emit b o).1 := by
  cases o with
  | served rq d => exact quiet.record trivial
  | applied rq => exact quiet.record trivial
  | refused rq => exact quiet.record trivial
  | granted rq =>
    exact (quiet.record (e := .granted rq) trivial).trans (congr rfl rfl rfl fun _ => ⟨rfl, rfl⟩)
  | released rq =>
    exact (quiet.record (e := .released rq) trivial).trans (congr rfl rfl rfl fun _ => ⟨rfl, rfl⟩)
  | sent rq | decremented rq | replied rq => exact quiet.addCounter _ _
  | postponed rq =>
    simp only [Sys.emit]
    split
    · exact quiet.addCounter _ _
    · exact quiet
  | notify rq => exact quiet
  | process n => exact quiet

theorem emit_fine (o : Out Node) : ∀ task ∈ (s.emit b o).2, task.Fine := by
  intro task member
  cases o with
  | replied rq =>
    simp only [Sys.emit] at member
    split at member
    · rw [List.mem_singleton.mp member]; trivial
    · cases member
  | notify rq => rw [List.mem_singleton.mp member]; trivial
  | process n =>
    rcases List.mem_cons.mp member with rfl | last
    · trivial
    · rw [List.mem_singleton.mp last]; trivial
  | _ => cases member

theorem emitAll (quiet : Quiet s s') (outs : List (Out Node)) :
    Quiet s (s'.emitAll b outs).1 ∧ ∀ task ∈ (s'.emitAll b outs).2, task.Fine := by
  induction outs generalizing s' with
  | nil => exact ⟨quiet, fun _ member => by cases member⟩
  | cons o outs ih =>
    obtain ⟨next, fine⟩ := ih (quiet.emit (b := b) o)
    refine ⟨next, fun task member => ?_⟩
    rcases List.mem_append.mp member with mine | later
    · exact emit_fine o task mine
    · exact fine task later

theorem block (quiet : Quiet s s') (ev : BlockState.Event Node) : Quiet s (s'.block b ev) := by
  have set : Quiet s (s'.setBlk b ((s'.blk b).step b ev).1) :=
    quiet.trans (congr rfl rfl rfl fun _ => ⟨rfl, rfl⟩)
  obtain ⟨next, fine⟩ := set.emitAll (b := b) ((s'.blk b).step b ev).2
  exact next.push fine

theorem draw (quiet : Quiet s s') (n : Node) (k : Nat) : Quiet s (s'.draw n k) :=
  quiet.trans (congr rfl rfl rfl fun _ => ⟨rfl, rfl⟩)

theorem finish (quiet : Quiet s s') : Quiet s (s'.finish rq) := by
  simp only [Sys.finish]
  split
  · exact quiet.pushOne trivial
  · exact (quiet.record (e := .returned rq) trivial).trans (congr rfl rfl rfl fun _ => ⟨rfl, rfl⟩)

end Quiet

variable {s s' : Sys Node} {b : Block Node} {rq : Req Node}

/-- The request is past its fence. One from a local queue has been there before. -/
def begins (s : Sys Node) (rq : Req Node) : Sys Node :=
  if (s.work rq.rid).toServe = true ∧ rq.op ≠ .mfence ∧ rq.op ≠ .sfence then s
  else s.record (.started rq)

theorem begins_of_toServe (again : (s.work rq.rid).toServe = true) (access : rq.op ≠ .mfence ∧ rq.op ≠ .sfence) :
    s.begins rq = s := by
  simp [begins, again, access]

theorem begins_of_fresh (fresh : (s.work rq.rid).toServe = false) : s.begins rq = s.record (.started rq) := by
  simp [begins, fresh]

theorem begins_of_fence (fence : rq.op = .mfence ∨ rq.op = .sfence) : s.begins rq = s.record (.started rq) := by
  rcases fence with op | op <;> simp [begins, op]

/-- `ProcessLocalRequest` lets a request pass, or puts it behind the fence. -/
inductive Enters (s : Sys Node) (rq : Req Node) (s' : Sys Node) : Prop
  | passes (quiet : Quiet (s.begins rq) s')
    (free : (s.work rq.rid).fence = true ∨ (s.work rq.rid).toServe = true ∨ ¬ (s.fence rq.thread).Raised ∨
      (rq.op = .read ∧ (s.fence rq.thread).mfenced = false))
  | waits (f : Fence Node) (result : s' = (s.setFence rq.thread f).addToFence rq)
    (works : f.pendingWorks = (s.fence rq.thread).pendingWorks)
    (inProcess : f.inProcess = (s.fence rq.thread).inProcess) (raised : f.Raised)
    (fresh : (s.work rq.rid).fence = false)
    (again : (s.work rq.rid).toServe = true →
      (rq.op = .rlock ∨ rq.op = .wlock ∨ rq.op = .unlock) ∧ (s.fence rq.thread).pendingWrites ≠ 0)

theorem setFence_self (th : Thread Node) : s.setFence th (s.fence th) = s := by
  simp [setFence]

theorem Fence.raised_of_isFenced {w : Work} (fenced : f.isFenced w = true) :
    f.Raised ∧ w.toServe = false ∧ w.fence = false := by
  simpa [Fence.isFenced, Fence.Raised, and_assoc] using fenced

theorem Fence.free_of_not_isFenced {w : Work} (free : ¬ f.isFenced w = true) :
    w.fence = true ∨ w.toServe = true ∨ ¬ f.Raised := by
  by_cases fence : w.fence = true
  · exact Or.inl fence
  · by_cases again : w.toServe = true
    · exact Or.inr (Or.inl again)
    · refine Or.inr (Or.inr fun raised => free ?_)
      rcases raised with raised | raised <;> simp [Fence.isFenced, raised, fence, again]

theorem Enters.fenced (fenced : (s.fence rq.thread).isFenced (s.work rq.rid) = true) :
    Enters s rq (s.addToFence rq) := by
  obtain ⟨raised, again, fresh⟩ := Fence.raised_of_isFenced fenced
  exact .waits (s.fence rq.thread) (by rw [setFence_self]) rfl rfl raised fresh
    fun h => by rw [again] at h; cases h

theorem Enters.quiet (quiet : Quiet (s.begins rq) s') (free : ¬ (s.fence rq.thread).isFenced (s.work rq.rid) = true) :
    Enters s rq s' :=
  .passes quiet ((Fence.free_of_not_isFenced free).imp_right fun h => h.imp_right Or.inl)

theorem Enters.lockFence (lock : rq.op = .rlock ∨ rq.op = .wlock ∨ rq.op = .unlock) {proceed : Sys Node}
    (quiet : Quiet (s.begins rq) proceed) : Enters s rq (s.lockFence rq proceed) := by
  simp only [Sys.lockFence]
  split
  · next fence => exact .passes quiet (Or.inl fence)
  · next fence =>
    split
    · next fenced => exact .fenced fenced
    · next free =>
      split
      · next writes =>
        exact .waits _ rfl rfl rfl (Or.inl rfl) (by simpa using fence) fun _ => ⟨lock, writes⟩
      · exact .quiet quiet free

theorem enter_quiet (access : rq.op ≠ .mfence ∧ rq.op ≠ .sfence) : Quiet (s.begins rq) (s.enter rq) := by
  have fine : (Task.block rq rq.addr.toBlock.idx).Fine := ⟨Nat.le_refl _, fun _ => rfl⟩
  simp only [enter]
  by_cases again : (s.work rq.rid).toServe = true
  · rw [begins_of_toServe again access]
    simp only [again, if_true, and_true]
    split
    · exact ((Quiet.refl s).addCounter _ _).pushOne fine
    · exact (Quiet.refl s).pushOne fine
  · rw [begins_of_fresh (by simpa using again)]
    simp only [again, Bool.false_eq_true, and_false, if_false]
    exact (Quiet.refl _).pushOne fine

/-- A pending write is counted before the loop over its blocks begins. -/
theorem enter_write_quiet (op : rq.op = .write) (works : f.pendingWorks = (s.fence rq.thread).pendingWorks)
    (inProcess : f.inProcess = (s.fence rq.thread).inProcess) (raised : (s.fence rq.thread).Raised → f.Raised) :
    Quiet (s.begins rq) ((s.setFence rq.thread f).enter rq) := by
  have access : rq.op ≠ .mfence ∧ rq.op ≠ .sfence := by simp [op]
  refine Quiet.trans ?_ (enter_quiet access)
  by_cases again : (s.work rq.rid).toServe = true
  · rw [begins_of_toServe again access, begins_of_toServe (s := s.setFence _ _) again access]
    exact (Quiet.refl s).setFence works inProcess raised
  · rw [begins_of_fresh (by simpa using again), begins_of_fresh (s := s.setFence _ _) (by simpa using again)]
    exact (Quiet.refl (s.record _)).setFence (f := f) works inProcess raised

theorem processLocalRequest_enters : Enters s rq (s.processLocalRequest rq) := by
  unfold processLocalRequest
  cases op : rq.op with
  | read =>
    simp only
    split
    · next fenced =>
      refine .fenced ?_
      simp only [Fence.isMFenced, Fence.isFenced, Bool.and_eq_true, Bool.or_eq_true] at fenced ⊢
      exact ⟨⟨Or.inl fenced.1.1, fenced.1.2⟩, fenced.2⟩
    · next free =>
      refine .passes (enter_quiet (by simp [op])) ?_
      by_cases fence : (s.work rq.rid).fence = true
      · exact Or.inl fence
      · by_cases again : (s.work rq.rid).toServe = true
        · exact Or.inr (Or.inl again)
        · exact Or.inr (Or.inr (Or.inr ⟨op, by simpa [Fence.isMFenced, fence, again] using free⟩))
  | write =>
    simp only
    split
    · next fenced => exact .fenced fenced
    · next free =>
      split
      · exact .quiet (enter_write_quiet op rfl rfl fun h => h) free
      · exact .quiet (enter_quiet (by simp [op])) free
  | rlock => exact .lockFence (Or.inl op) (enter_quiet (by simp [op]))
  | wlock => exact .lockFence (Or.inr (Or.inl op)) (enter_quiet (by simp [op]))
  | unlock =>
    refine .lockFence (Or.inr (Or.inr op)) ?_
    have started : s.begins rq = if (s.work rq.rid).toServe = true then s else s.record (.started rq) := by
      simp [begins, op]
    have fine : (Task.leave rq).Fine := trivial
    rw [started]
    exact ((Quiet.refl _).pushOne fine).block _
  | mfence | sfence =>
    have started : s.begins rq = s.record (.started rq) := by simp [begins, op]
    simp only
    split
    · next fenced => exact .fenced fenced
    · next free =>
      refine .quiet ?_ free
      rw [started]
      have left : Quiet (s.record (.started rq)) ((s.record (.started rq)).push [.leave rq]) :=
        (Quiet.refl _).pushOne trivial
      split
      · exact left.setFence rfl rfl fun _ => by first | exact Or.inl rfl | exact Or.inr rfl
      · exact left

theorem blockRound_quiet {i : Nat} (fine : (Task.block rq i).Fine) (ptr : Nat) (data : Data) :
    Quiet s (s.blockRound rq i ptr data) := by
  have drawn := (Quiet.refl s).draw rq.thread.node 1
  have next := drawn.block (b := ⟨rq.addr.wid, i⟩)
    (.request rq.thread.node rq ⟨s.psn rq.thread.node + 1, ptr, data⟩)
  simp only [blockRound]
  cases op : rq.op with
  | read | write =>
    have more : (Task.block rq (i + 1)).Fine := ⟨Nat.le_succ_of_le fine.1, by simp [op]⟩
    simp only
    split
    · split
      · exact next
      · exact next.pushOne more
    · split
      · exact (Quiet.refl s).finish
      · exact Quiet.refl s
  | rlock | wlock =>
    simp only
    split
    · exact next.finish
    · exact next
  | unlock | mfence | sfence => exact Quiet.refl s

theorem leave_quiet (ptr : Nat) (data : Data) : Quiet s (s.perform ptr data (.leave rq)) := by
  have fine : (Task.notify rq).Fine := trivial
  simp only [perform]
  split
  · exact (Quiet.refl s).pushOne fine
  · exact (Quiet.refl s).record trivial

theorem serveLocal_quiet (ptr : Nat) (data : Data) {n : Node}
    (queue : ∀ rq ∈ (s.blk b).toServeLocal n, rq.Reads ∨ rq.Writes) :
    Quiet s (s.perform ptr data (.serveLocal b n)) := by
  refine ((Quiet.refl s).block _).push fun task member => ?_
  obtain ⟨rq, listed, rfl⟩ := List.mem_map.mp member
  exact queue rq listed

theorem serveRemote_quiet (ptr : Nat) (data : Data) (n : Node) : Quiet s (s.perform ptr data (.serveRemote b n)) := by
  have drawn := (Quiet.refl s).draw n ((s.blk b).toServe n).length
  exact drawn.block (b := b) (.serveRemote n (s.psn n + 1))

theorem notify_async (async : rq.async = true) : s.notify rq = let f := (s.fence rq.thread).afterNotify rq
    if !f.inProcess && decide (f.pendingWrites = 0) && (f.mfenced || f.sfenced) then
      ((s.record (.notified rq)).setFence rq.thread { f with inProcess := true }).push [.fenced rq.thread]
    else (s.record (.notified rq)).setFence rq.thread f := by
  simp only [notify, async, if_true]
  rfl

/-- `Notify` may be the one that lets the requests behind a fence go on. -/
theorem notify_turn (s : Sys Node) (rq : Req Node) : Quiet s (s.notify rq) ∨
    ∃ mid, Quiet s mid ∧ (mid.fence rq.thread).inProcess = false ∧
      s.notify rq = (mid.setFence rq.thread { mid.fence rq.thread with inProcess := true }).push
        [.fenced rq.thread] := by
  have recorded : Quiet s (s.record (.notified rq)) := (Quiet.refl s).record trivial
  by_cases async : rq.async = true
  · have counted : Quiet s
        ((s.record (.notified rq)).setFence rq.thread ((s.fence rq.thread).afterNotify rq)) := by
      refine recorded.setFence ?_ ?_ ?_
      all_goals
        simp only [Fence.afterNotify]
        split
      all_goals first | rfl | exact fun h => h
    rw [notify_async async]
    dsimp only
    split
    · next opened =>
      refine Or.inr ⟨_, counted, ?_, ?_⟩
      · simp only [Bool.and_eq_true, Bool.not_eq_true'] at opened
        simpa using opened.1.1
      · simp [setFence]
    · exact Or.inl counted
  · left
    simp only [notify, async]
    exact recorded.trans (Quiet.congr rfl rfl rfl fun _ => ⟨rfl, rfl⟩)

/-- What `SendRequest` checks, and what it does about the control of the cluster. -/
structure Issued (s : Sys Node) (rq : Req Node) (s' : Sys Node) : Prop where
  idle : s.todo = []
  free : s.waiting rq.thread = none
  formed : wellFormed rq = true
  unique : s.isIssued rq.rid = false
  todo : s'.todo = [.start rq]
  log : s'.log = .issued rq :: s.log
  fence : s'.fence = s.fence
  work : s'.work = Function.update s.work rq.rid ⟨0, false, false⟩
  waiting : s'.waiting = Function.update s.waiting rq.thread (if rq.async then none else some rq.rid)

theorem issue_issued (next : s.issue rq = some s') : Issued s rq s' := by
  simp only [issue] at next
  split at next
  · next checked =>
    simp only [Bool.and_eq_true, Bool.not_eq_true', List.isEmpty_iff, Option.isNone_iff_eq_none] at checked
    obtain ⟨⟨⟨idle, free⟩, formed⟩, unique⟩ := checked
    split at next
    · split at next
      · cases next
      · cases next
        exact ⟨idle, free, formed, unique, rfl, rfl, rfl, rfl, rfl⟩
    · cases next
      exact ⟨idle, free, formed, unique, rfl, rfl, rfl, rfl, rfl⟩
  · cases next

/-- Only reads and writes wait in the local queues. -/
def Queued (s : Sys Node) : Prop := ∀ b n, ∀ rq ∈ (s.blk b).toServeLocal n, rq.Reads ∨ rq.Writes

/-- Every task is one the handlers get to. -/
def Aimed (s : Sys Node) : Prop := ∀ task ∈ s.todo, task.Aims

theorem Aimed.of_todo (aimed : s.Aimed) {tasks : List (Task Node)} (todo : s'.todo = tasks ++ s.todo)
    (aims : ∀ task ∈ tasks, task.Aims) : s'.Aimed := by
  intro task member
  rw [todo] at member
  rcases List.mem_append.mp member with new | old
  · exact aims task new
  · exact aimed task old

theorem Quiet.aimed (quiet : Quiet s s') (aimed : s.Aimed) : s'.Aimed := by
  obtain ⟨tasks, todo, fine⟩ := quiet.todo
  exact aimed.of_todo todo fun task member => (fine task member).aims

theorem Enters.aimed (enters : Enters s rq s') (aimed : s.Aimed) : s'.Aimed := by
  cases enters with
  | passes quiet free =>
    refine quiet.aimed ?_
    simp only [begins]
    split
    · exact aimed
    · exact aimed
  | waits f result => rw [result]; exact aimed

theorem fencedRound_aimed (aimed : s.Aimed) (th : Thread Node) : (s.fencedRound th).Aimed := by
  have again : ∀ (f : Fence Node), ((s.setFence th f).push [.fenced th]).Aimed := fun f =>
    aimed.of_todo rfl fun task member => by rw [List.mem_singleton.mp member]; trivial
  have begins : ∀ lwr : Req Node, (s.push [.start lwr, .popFenced th]).Aimed := fun lwr => by
    refine aimed.of_todo rfl fun task member => ?_
    rcases List.mem_cons.mp member with rfl | last
    · trivial
    · rw [List.mem_singleton.mp last]; trivial
  unfold fencedRound
  simp only []
  repeat' split
  all_goals first
    | exact aimed
    | exact again _
    | exact begins _

theorem perform_aimed (aimed : s.Aimed) (ptr : Nat) (data : Data) (aims : task.Aims)
    (queue : s.Queued) : (s.perform ptr data task).Aimed := by
  cases task with
  | start rq => exact processLocalRequest_enters.aimed aimed
  | replay rq => exact processLocalRequest_enters.aimed (s := s.setWork rq.rid _) aimed
  | block rq i => exact (blockRound_quiet aims ptr data).aimed aimed
  | leave rq => exact (leave_quiet ptr data).aimed aimed
  | serveLocal b n => exact (serveLocal_quiet ptr data (queue b n)).aimed aimed
  | serveRemote b n => exact (serveRemote_quiet ptr data n).aimed aimed
  | notify rq =>
    rcases notify_turn s rq with quiet | ⟨mid, quiet, -, result⟩
    · exact quiet.aimed aimed
    · simp only [perform, result]
      exact (quiet.aimed aimed).of_todo rfl fun task member => by rw [List.mem_singleton.mp member]; trivial
  | fenced th => exact fencedRound_aimed aimed th
  | popFenced th => exact aimed.of_todo rfl fun task member => by rw [List.mem_singleton.mp member]; trivial

theorem Aimed.step {act : Act Node} (aimed : s.Aimed) (queue : s.Queued) (next : s.step act = some s') : s'.Aimed := by
  cases step_takes next with
  | issue issued =>
    intro task member
    rw [(issue_issued issued).todo] at member
    rw [List.mem_singleton.mp member]
    trivial
  | block n k => exact (((Quiet.refl s).draw n k).block _).aimed aimed
  | @run ptr data task rest todo =>
    have popped : Aimed { s with todo := rest } := fun task member =>
      aimed task (by rw [todo]; exact List.mem_cons_of_mem _ member)
    exact perform_aimed popped ptr data (aimed task (by rw [todo]; exact List.mem_cons_self)) queue

end Sys

end Gam
