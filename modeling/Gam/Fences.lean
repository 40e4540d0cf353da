import Gam.Turns

/-! The requests of a thread get past its fence in the order in which they were issued. -/

namespace Gam

open Function
variable {Node : Type} [DecidableEq Node]

namespace Task

/-- The request a task starts, if it is one of thread `th`. -/
def starts? (th : Thread Node) : Task Node → Option (Req Node)
  | .start rq => if rq.thread = th then some rq else none
  | _ => none

/-- Is the task part of `ProcessFenced` for thread `th`? -/
def drains (th : Thread Node) : Task Node → Bool
  | .fenced th' | .popFenced th' => decide (th' = th)
  | _ => false

/-- Has the first request behind the fence of `th` been started already? -/
def pops (th : Thread Node) : Task Node → Bool
  | .popFenced th' => decide (th' = th)
  | _ => false

variable {task : Task Node}

theorem Fine.starts? (fine : task.Fine) (th : Thread Node) : task.starts? th = none := by
  cases task <;> first | rfl | exact fine.elim

theorem Fine.drains (fine : task.Fine) (th : Thread Node) : task.drains th = false := by
  cases task <;> first | rfl | exact fine.elim

theorem Fine.pops (fine : task.Fine) (th : Thread Node) : task.pops th = false := by
  cases task <;> first | rfl | exact fine.elim

end Task

def Entry.issued? : Entry Node → Option (Req Node)
  | .issued rq => some rq
  | _ => none

def Entry.started? : Entry Node → Option (Req Node)
  | .started rq => some rq
  | _ => none

namespace Sys

/-- The requests issued and started so far, oldest first. -/
def issues (s : Sys Node) : List (Req Node) := (s.log.filterMap Entry.issued?).reverse
def begun (s : Sys Node) : List (Req Node) := (s.log.filterMap Entry.started?).reverse

def starting (s : Sys Node) (th : Thread Node) : List (Req Node) := s.todo.filterMap (Task.starts? th)
def draining (s : Sys Node) (th : Thread Node) : Nat := s.todo.countP (Task.drains th)
def popping (s : Sys Node) (th : Thread Node) : Bool := s.todo.any (Task.pops th)

/-- The requests of a thread that have not started: `ProcessFenced` starts the first one before it
removes it, a new one comes last. -/
def ahead (s : Sys Node) (th : Thread Node) : List (Req Node) :=
  if s.popping th then s.starting th ++ (s.fence th).pendingWorks.tail
  else (s.fence th).pendingWorks ++ s.starting th

/-- The requests of a thread that `keep` selects. -/
def mine (keep : Req Node → Bool) (th : Thread Node) (rq : Req Node) : Bool :=
  decide (rq.thread = th) && keep rq

/-- A request about to start is new, or the first one behind its fence. -/
inductive Starts (s : Sys Node) (rq : Req Node) : Prop
  | fresh (only : s.todo = [.start rq]) (fence : (s.work rq.rid).fence = false)
    (toServe : (s.work rq.rid).toServe = false)
  | first (above below : List (Task Node))
    (placed : s.todo = above ++ .start rq :: .popFenced rq.thread :: below) (rest : List (Req Node))
    (works : (s.fence rq.thread).pendingWorks = rq :: rest)

/-- The requests `keep` selects start in the order in which they were issued. -/
structure Fifo (keep : Req Node → Bool) (s : Sys Node) : Prop where
  inOrder : ∀ th, s.issues.filter (mine keep th) = s.begun.filter (mine keep th) ++ (s.ahead th).filter keep
  drains : ∀ th, s.draining th = if (s.fence th).inProcess then 1 else 0
  works : ∀ th, ∀ rq ∈ (s.fence th).pendingWorks,
    rq.thread = th ∧ (s.work rq.rid).fence = true ∧ rq ∈ s.issues
  fresh : ∀ th, ∀ rq ∈ s.ahead th, keep rq = true → (s.work rq.rid).toServe = false
  raised : ∀ th, (s.fence th).inProcess = false → (s.fence th).pendingWorks ≠ [] → (s.fence th).Raised
  start : ∀ rq, .start rq ∈ s.todo → s.Starts rq ∧ s.starting rq.thread = [rq] ∧ rq ∈ s.issues
  /-- Identities are used once. -/
  unique : (s.issues.map Req.rid).Nodup

variable {s s' : Sys Node} {rq : Req Node} {keep : Req Node → Bool} {task : Task Node}
  {rest : List (Task Node)} {th : Thread Node}

/-! ### The lists under quiet steps -/

section quiet
variable {tasks : List (Task Node)}

theorem starts?_of_fine (fine : ∀ task ∈ tasks, task.Fine) : tasks.filterMap (Task.starts? th) = [] :=
  List.filterMap_eq_nil_iff.mpr fun task member => (fine task member).starts? th

theorem drains_of_fine (fine : ∀ task ∈ tasks, task.Fine) : tasks.countP (Task.drains th) = 0 :=
  List.countP_eq_zero.mpr fun task member => by simp [(fine task member).drains th]

theorem pops_of_fine (fine : ∀ task ∈ tasks, task.Fine) : tasks.any (Task.pops th) = false :=
  List.any_eq_false.mpr fun task member => by simp [(fine task member).pops th]

theorem Quiet.issues (quiet : Quiet s s') : s'.issues = s.issues := by
  obtain ⟨entries, log, plain⟩ := quiet.log
  have none_ : entries.filterMap Entry.issued? = [] := by
    refine List.filterMap_eq_nil_iff.mpr fun e member => ?_
    have := plain e member
    cases e <;> first | rfl | exact this.elim
  simp [Sys.issues, log, none_]

theorem Quiet.begun (quiet : Quiet s s') : s'.begun = s.begun := by
  obtain ⟨entries, log, plain⟩ := quiet.log
  have none_ : entries.filterMap Entry.started? = [] := by
    refine List.filterMap_eq_nil_iff.mpr fun e member => ?_
    have := plain e member
    cases e <;> first | rfl | exact this.elim
  simp [Sys.begun, log, none_]

theorem Quiet.starting (quiet : Quiet s s') (th : Thread Node) : s'.starting th = s.starting th := by
  obtain ⟨tasks, todo, fine⟩ := quiet.todo
  simp [Sys.starting, todo, starts?_of_fine fine]

theorem Quiet.draining (quiet : Quiet s s') (th : Thread Node) : s'.draining th = s.draining th := by
  obtain ⟨tasks, todo, fine⟩ := quiet.todo
  simp [Sys.draining, todo, drains_of_fine fine]

theorem Quiet.popping (quiet : Quiet s s') (th : Thread Node) : s'.popping th = s.popping th := by
  obtain ⟨tasks, todo, fine⟩ := quiet.todo
  simp only [Sys.popping, todo, List.any_append, pops_of_fine fine, Bool.false_or]

theorem Quiet.ahead (quiet : Quiet s s') (th : Thread Node) : s'.ahead th = s.ahead th := by
  simp only [Sys.ahead, quiet.popping, quiet.starting, quiet.works]

theorem Quiet.start_mem (quiet : Quiet s s') (member : .start rq ∈ s'.todo) : .start rq ∈ s.todo := by
  obtain ⟨tasks, todo, fine⟩ := quiet.todo
  rw [todo] at member
  rcases List.mem_append.mp member with new | old
  · exact (fine _ new).elim
  · exact old

end quiet

/-- No new request is about to start. -/
def Settled (s : Sys Node) : Prop := ∀ rq, s.todo ≠ [.start rq]

theorem Quiet.settled (quiet : Quiet s s') (settled : s.Settled) : s'.Settled := by
  obtain ⟨tasks, todo, fine⟩ := quiet.todo
  intro rq only
  rw [todo] at only
  cases tasks with
  | nil => exact settled rq only
  | cons task tasks =>
    have first := fine task List.mem_cons_self
    rw [List.cons_append, List.cons.injEq] at only
    rw [only.1] at first
    exact first.elim

namespace Fifo

theorem init (mem : Block Node → Data) : Fifo keep (Sys.init mem) where
  inOrder := fun th => rfl
  drains := fun th => rfl
  works := fun th rq member => by cases member
  fresh := fun th rq member => by cases member
  raised := fun th _ some_ => absurd rfl some_
  start := fun rq member => by cases member
  unique := List.nodup_nil

/-- What a fence holds back and what starts is as before. -/
theorem quiet (fifo : Fifo keep s) (quiet : Quiet s s') (settled : s.Settled ∨ s'.todo = s.todo) : Fifo keep s' where
  inOrder := fun th => by rw [quiet.issues, quiet.begun, quiet.ahead]; exact fifo.inOrder th
  drains := fun th => by rw [quiet.draining, quiet.inProcess]; exact fifo.drains th
  works := fun th rq member => by
    rw [quiet.works] at member
    rw [(quiet.flags rq.rid).2, quiet.issues]
    exact fifo.works th rq member
  fresh := fun th rq member keeps => by
    rw [quiet.ahead] at member
    rw [(quiet.flags rq.rid).1]
    exact fifo.fresh th rq member keeps
  raised := fun th idle some_ => by
    rw [quiet.inProcess] at idle
    rw [quiet.works] at some_
    exact quiet.raised th (fifo.raised th idle some_)
  start := fun rq member => by
    obtain ⟨starts, starting, issued⟩ := fifo.start rq (quiet.start_mem member)
    refine ⟨?_, by rw [quiet.starting]; exact starting, by rw [quiet.issues]; exact issued⟩
    cases starts with
    | fresh only fence toServe =>
      rcases settled with settled | same
      · exact absurd only (settled rq)
      · exact .fresh (same.trans only) (by rw [(quiet.flags _).2]; exact fence)
          (by rw [(quiet.flags _).1]; exact toServe)
    | first above below placed rest works =>
      obtain ⟨tasks, todo, -⟩ := quiet.todo
      exact .first (tasks ++ above) below (by rw [todo, placed, List.append_assoc]) rest
        (by rw [quiet.works]; exact works)
  unique := by rw [quiet.issues]; exact fifo.unique

/-- The rest of a handler run starts no new request. -/
theorem settled (fifo : Fifo keep s) (todo : s.todo = task :: rest) : Settled { s with todo := rest } := by
  intro rq only
  have only : rest = [.start rq] := only
  rw [only] at todo
  obtain ⟨starts, -⟩ := fifo.start rq (by rw [todo]; simp)
  cases starts with
  | fresh alone => simp [alone] at todo
  | first above below placed =>
    rw [todo] at placed
    cases above with
    | nil => simp at placed
    | cons _ above =>
      have length := congrArg List.length placed
      simp at length
      omega

end Fifo

theorem Starts.pop (starts : s.Starts rq) (todo : s.todo = task :: rest) (other : task ≠ .start rq) :
    Starts { s with todo := rest } rq := by
  cases starts with
  | fresh only =>
    rw [todo, List.cons.injEq] at only
    exact absurd only.1 other
  | first above below placed works h =>
    rw [todo] at placed
    cases above with
    | nil =>
      rw [List.nil_append, List.cons.injEq] at placed
      exact absurd placed.1 other
    | cons first above =>
      rw [List.cons_append, List.cons.injEq] at placed
      exact .first above below placed.2 works h

namespace Fifo

/-- A task that no fence is involved in is taken up. -/
theorem pop (fifo : Fifo keep s) (todo : s.todo = task :: rest) (fine : task.Fine) :
    Fifo keep { s with todo := rest } := by
  have starting : ∀ th, Sys.starting { s with todo := rest } th = s.starting th := fun th => by
    simp [Sys.starting, todo, fine.starts? th]
  have popping : ∀ th, Sys.popping { s with todo := rest } th = s.popping th := fun th => by
    simp [Sys.popping, todo, fine.pops th]
  have draining : ∀ th, Sys.draining { s with todo := rest } th = s.draining th := fun th => by
    simp [Sys.draining, todo, fine.drains th]
  have ahead : ∀ th, Sys.ahead { s with todo := rest } th = s.ahead th := fun th => by
    simp only [Sys.ahead, starting, popping]
  refine ⟨fun th => ?_, fun th => ?_, fifo.works, fun th rq member => ?_, fifo.raised, fun rq member => ?_, fifo.unique⟩
  · rw [ahead]
    exact fifo.inOrder th
  · rw [draining]
    exact fifo.drains th
  · rw [ahead] at member
    exact fifo.fresh th rq member
  · obtain ⟨starts, alone, issued⟩ := fifo.start rq (by rw [todo]; exact List.mem_cons_of_mem _ member)
    refine ⟨starts.pop todo ?_, by rw [starting]; exact alone, issued⟩
    rintro rfl
    exact fine

attribute [local simp] Task.drains Task.pops Task.starts?

/-- The lists once `.start rq` has been taken up. -/
theorem starting_pop (fifo : Fifo keep s) (todo : s.todo = .start rq :: rest) (th : Thread Node) :
    Sys.starting { s with todo := rest } th = if rq.thread = th then [] else s.starting th := by
  have alone := (fifo.start rq (by rw [todo]; simp)).2.1
  by_cases same : rq.thread = th
  · subst same
    simpa [Sys.starting, todo] using alone
  · simp [Sys.starting, todo, same]

theorem popping_pop (todo : s.todo = .start rq :: rest) (th : Thread Node) :
    Sys.popping { s with todo := rest } th = s.popping th := by
  simp [Sys.popping, todo]

theorem draining_pop (todo : s.todo = .start rq :: rest) (th : Thread Node) :
    Sys.draining { s with todo := rest } th = s.draining th := by
  simp [Sys.draining, todo]

/-- No other start is affected. -/
theorem starts_pop (fifo : Fifo keep s) (todo : s.todo = .start rq :: rest) {rq' : Req Node}
    (member : .start rq' ∈ rest) : Starts { s with todo := rest } rq' ∧ rq'.thread ≠ rq.thread ∧
      Sys.starting { s with todo := rest } rq'.thread = [rq'] ∧ rq' ∈ s.issues := by
  obtain ⟨starts, alone, issued⟩ := fifo.start rq' (by rw [todo]; exact List.mem_cons_of_mem _ member)
  have other : rq'.thread ≠ rq.thread := by
    intro same
    have twice : s.starting rq'.thread = rq :: rest.filterMap (Task.starts? rq'.thread) := by
      simp [Sys.starting, todo, same]
    have found : rq' ∈ rest.filterMap (Task.starts? rq'.thread) :=
      List.mem_filterMap.mpr ⟨_, member, by simp⟩
    rw [alone, List.cons.injEq] at twice
    rw [← twice.2] at found
    cases found
  refine ⟨starts.pop todo ?_, other, ?_, issued⟩
  · intro same
    cases same
    exact other rfl
  · rw [fifo.starting_pop todo, if_neg (Ne.symm other)]
    exact alone

/-- What is ahead of the fence loses its first request. -/
theorem ahead_pop (fifo : Fifo keep s) (todo : s.todo = .start rq :: rest)
    (free : (s.work rq.rid).fence = true ∨ (s.work rq.rid).toServe = true ∨ ¬ (s.fence rq.thread).Raised)
    (th : Thread Node) :
    s.ahead th = (if rq.thread = th then [rq] else []) ++ Sys.ahead { s with todo := rest } th := by
  obtain ⟨starts, alone, -⟩ := fifo.start rq (by rw [todo]; simp)
  by_cases same : rq.thread = th
  · subst same
    simp only [Sys.ahead, popping_pop todo, fifo.starting_pop todo, if_true, alone]
    cases starts with
    | fresh only fence toServe =>
      have idle : (s.fence rq.thread).inProcess = false := by
        have none_ := fifo.drains rq.thread
        simpa [Sys.draining, only] using none_
      have open_ : ¬ (s.fence rq.thread).Raised := by simpa [fence, toServe] using free
      have empty : (s.fence rq.thread).pendingWorks = [] := by
        by_contra some_
        exact open_ (fifo.raised rq.thread idle some_)
      simp [Sys.popping, only, empty]
    | first above below placed works h =>
      have popping : s.popping rq.thread = true := by simp [Sys.popping, placed]
      simp [popping]
  · simp [Sys.ahead, popping_pop todo, fifo.starting_pop todo, same]

theorem mem_ahead_pop (fifo : Fifo keep s) (todo : s.todo = .start rq :: rest) {rq' : Req Node}
    (member : rq' ∈ Sys.ahead { s with todo := rest } th) : rq' ∈ s.ahead th := by
  simp only [Sys.ahead, popping_pop todo, fifo.starting_pop todo] at member ⊢
  by_cases same : rq.thread = th
  · simp only [same, if_true, List.nil_append, List.append_nil] at member
    split at member
    · next popping => simp [popping, member]
    · next popping => simp [popping, member]
  · simpa only [same, if_false] using member

theorem mem_ahead (member : .start rq ∈ s.todo) : rq ∈ s.ahead rq.thread := by
  have found : rq ∈ s.starting rq.thread := List.mem_filterMap.mpr ⟨_, member, by simp⟩
  simp only [Sys.ahead]
  split <;> simp [found]

theorem ahead_pop_other (fifo : Fifo keep s) (todo : s.todo = .start rq :: rest) (other : keep rq = false)
    (th : Thread Node) : (s.ahead th).filter keep = (Sys.ahead { s with todo := rest } th).filter keep := by
  obtain ⟨-, alone, -⟩ := fifo.start rq (by rw [todo]; simp)
  simp only [Sys.ahead, popping_pop todo, fifo.starting_pop todo]
  by_cases same : rq.thread = th
  · subst same
    split <;> simp [alone, other]
  · simp [same]

end Fifo

section record
variable (s rq)

@[simp] theorem record_started_begun : (s.record (.started rq)).begun = s.begun ++ [rq] := by
  simp [begun, Entry.started?, List.filterMap_cons]

@[simp] theorem record_started_issues : (s.record (.started rq)).issues = s.issues := by
  simp [issues, Entry.issued?, List.filterMap_cons]

@[simp] theorem record_ahead (e : Entry Node) (th : Thread Node) : (s.record e).ahead th = s.ahead th := rfl

theorem begins_issues : (s.begins rq).issues = s.issues := by
  simp only [begins]
  split <;> simp

end record

namespace Fifo

attribute [local simp] Task.drains Task.pops Task.starts? addToFence

/-- A start has been taken up, and the lists are in order again. -/
theorem took (fifo : Fifo keep s) (todo : s.todo = .start rq :: rest) (s' : Sys Node) (todo' : s'.todo = rest)
    (fence : s'.fence = s.fence) (work : s'.work = s.work) (issues : s'.issues = s.issues)
    (order : ∀ th, s.issues.filter (mine keep th) =
      s'.begun.filter (mine keep th) ++ (Sys.ahead { s with todo := rest } th).filter keep) :
    Fifo keep s' ∧ s'.Settled := by
  have same : ∀ th, s'.ahead th = Sys.ahead { s with todo := rest } th := fun th => by
    unfold Sys.ahead Sys.popping Sys.starting
    rw [todo', fence]
  refine ⟨⟨fun th => ?_, fun th => ?_, ?_, fun th rq' member => ?_, ?_, fun rq' member => ?_, ?_⟩, fun rq' only => ?_⟩
  · rw [issues, same]
    exact order th
  · have drains := fifo.drains th
    rw [← draining_pop todo] at drains
    rw [fence]
    simpa only [Sys.draining, todo'] using drains
  · rw [fence, work, issues]; exact fifo.works
  · rw [same] at member
    rw [work]
    exact fifo.fresh th rq' (fifo.mem_ahead_pop todo member)
  · rw [fence]; exact fifo.raised
  · rw [todo'] at member
    obtain ⟨others, -, alone, issued⟩ := fifo.starts_pop todo member
    refine ⟨?_, by simpa only [Sys.starting, todo'] using alone, by rw [issues]; exact issued⟩
    cases others with
    | fresh only => exact absurd only (fifo.settled todo rq')
    | first above below placed works h =>
      exact .first above below (todo'.trans placed) works (by rw [fence]; exact h)
  · rw [issues]; exact fifo.unique
  · exact fifo.settled todo rq' (todo'.symm.trans only)

/-- A request starts. -/
theorem starts (fifo : Fifo keep s) (todo : s.todo = .start rq :: rest)
    (quiet : Quiet (({ s with todo := rest } : Sys Node).begins rq) s')
    (free : (s.work rq.rid).fence = true ∨ (s.work rq.rid).toServe = true ∨ ¬ (s.fence rq.thread).Raised ∨
      (rq.op = .read ∧ (s.fence rq.thread).mfenced = false))
    (reads : keep rq = true → rq.op = .read → (s.fence rq.thread).sfenced = false) : Fifo keep s' := by
  have order : ∀ th, s.issues.filter (mine keep th) =
      (({ s with todo := rest } : Sys Node).begins rq).begun.filter (mine keep th) ++
        (Sys.ahead { s with todo := rest } th).filter keep := by
    intro th
    rw [fifo.inOrder th]
    by_cases keeps : keep rq = true
    · have fresh := fifo.fresh rq.thread rq (mem_ahead (by rw [todo]; simp)) keeps
      rw [begins_of_fresh (s := { s with todo := rest }) fresh, record_started_begun, List.filter_append,
        fifo.ahead_pop todo ?_ th, List.filter_append, ← List.append_assoc]
      · congr 2
        by_cases same : rq.thread = th
        · simp [mine, same, keeps]
        · simp [mine, same]
      · refine free.imp_right fun h => h.imp_right fun h => ?_
        rcases h with lowered | ⟨op, mfenced⟩
        · exact lowered
        · simp [Fence.Raised, mfenced, reads keeps op]
    · rw [fifo.ahead_pop_other todo (by simpa using keeps) th]
      congr 1
      simp only [begins]
      split
      · rfl
      · simp [mine, keeps]
        rfl
  obtain ⟨taken, settled⟩ := fifo.took todo (({ s with todo := rest } : Sys Node).begins rq)
    (by simp only [begins]; split <;> rfl) (by simp only [begins]; split <;> rfl)
    (by simp only [begins]; split <;> rfl) (begins_issues _ _) order
  exact taken.quiet quiet (Or.inl settled)

/-- A request joins those behind the fence. -/
theorem works_addToFence (works : ∀ th, ∀ rq ∈ (s.fence th).pendingWorks,
      rq.thread = th ∧ (s.work rq.rid).fence = true ∧ rq ∈ s.issues)
    {f : Fence Node} (same : f.pendingWorks = (s.fence rq.thread).pendingWorks) (issued : rq ∈ s.issues) :
    ∀ th, ∀ rq' ∈ (((s.setFence rq.thread f).addToFence rq).fence th).pendingWorks, rq'.thread = th ∧
      (((s.setFence rq.thread f).addToFence rq).work rq'.rid).fence = true ∧ rq' ∈ s.issues := by
  have flags : ∀ rid, (s.work rid).fence = true ∨ rid = rq.rid →
      (((s.setFence rq.thread f).addToFence rq).work rid).fence = true := by
    intro rid fenced
    by_cases here : rid = rq.rid
    · subst here; simp
    · simpa [here] using fenced
  intro th rq' member
  have origin : rq' ∈ (s.fence th).pendingWorks ∨ (rq' = rq ∧ th = rq.thread) := by
    by_cases here : th = rq.thread
    · subst here
      simpa [same] using member
    · exact Or.inl (by simpa [here] using member)
  rcases origin with old | ⟨rfl, rfl⟩
  · obtain ⟨thread, fenced, issued'⟩ := works th rq' old
    exact ⟨thread, flags _ (Or.inl fenced), issued'⟩
  · exact ⟨rfl, flags _ (Or.inr rfl), issued⟩

theorem toServe_addToFence (f : Fence Node) (rid : Nat) :
    (((s.setFence rq.thread f).addToFence rq).work rid).toServe = (s.work rid).toServe := by
  by_cases here : rid = rq.rid
  · subst here; simp
  · simp [here]

theorem raised_addToFence (raised : ∀ th, (s.fence th).inProcess = false → (s.fence th).pendingWorks ≠ [] →
      (s.fence th).Raised) {f : Fence Node} (up : f.Raised) :
    ∀ th, (((s.setFence rq.thread f).addToFence rq).fence th).inProcess = false →
      (((s.setFence rq.thread f).addToFence rq).fence th).pendingWorks ≠ [] →
      (((s.setFence rq.thread f).addToFence rq).fence th).Raised := by
  intro th
  by_cases here : th = rq.thread
  · subst here
    intro _ _
    simpa [Fence.Raised] using up
  · simpa [here] using raised th

section
variable (fifo : Fifo keep s)
include fifo

/-- A new request has to wait. -/
theorem waits (todo : s.todo = .start rq :: rest) {f : Fence Node}
    (works : f.pendingWorks = (s.fence rq.thread).pendingWorks)
    (inProcess : f.inProcess = (s.fence rq.thread).inProcess) (raised : f.Raised)
    (fresh : (s.work rq.rid).fence = false) :
    Fifo keep ((({ s with todo := rest } : Sys Node).setFence rq.thread f).addToFence rq) := by
  have member : .start rq ∈ s.todo := by rw [todo]; simp
  obtain ⟨starts, alone, issued⟩ := fifo.start rq member
  have only : s.todo = [.start rq] := by
    cases starts with
    | fresh only => exact only
    | first above below placed others h =>
      have fenced := (fifo.works rq.thread rq (by rw [h]; exact List.mem_cons_self)).2.1
      rw [fresh] at fenced
      cases fenced
  obtain rfl : rest = [] := by
    rw [todo, List.cons.injEq] at only
    exact only.2
  have ahead : ∀ th, Sys.ahead ((({ s with todo := [] } : Sys Node).setFence rq.thread f).addToFence rq) th =
      s.ahead th := by
    intro th
    by_cases here : th = rq.thread
    · subst here
      simp [Sys.ahead, Sys.popping, Sys.starting, only, works]
    · simp [Sys.ahead, Sys.popping, Sys.starting, only, here, Ne.symm here]
  refine ⟨fun th => ?_, fun th => ?_, ?_, fun th rq' h => ?_, ?_, fun rq' h => (by cases h), fifo.unique⟩
  · rw [ahead]
    exact fifo.inOrder th
  · have none_ : (s.fence th).inProcess = false := by
      have drains := fifo.drains th
      simpa [Sys.draining, only] using drains
    by_cases here : th = rq.thread
    · subst here
      simp [Sys.draining, inProcess, none_]
    · simp [Sys.draining, here, none_]
  · exact works_addToFence (s := { s with todo := [] }) fifo.works works issued
  · rw [ahead] at h
    rw [toServe_addToFence (s := { s with todo := [] })]
    exact fifo.fresh th rq' h
  · exact raised_addToFence (s := { s with todo := [] }) fifo.raised raised

/-- What has begun is no longer ahead. -/
theorem begun_not_ahead (begun : rq ∈ s.begun) (keeps : keep rq = true) (ahead : rq ∈ s.ahead rq.thread) : False := by
  have nodup : (s.issues.filter (mine keep rq.thread)).Nodup :=
    (List.Nodup.of_map _ fifo.unique).filter _
  rw [fifo.inOrder] at nodup
  refine (List.nodup_append.mp nodup).2.2 rq ?_ rq ?_ rfl
  · exact List.mem_filter.mpr ⟨begun, by simp [mine, keeps]⟩
  · exact List.mem_filter.mpr ⟨ahead, keeps⟩

theorem record_other (other : keep rq = false) : Fifo keep (s.record (.started rq)) where
  inOrder := fun th => by
    rw [record_started_begun, record_started_issues, List.filter_append]
    simpa [mine, other] using fifo.inOrder th
  drains := fifo.drains
  works := fun th rq' member => by rw [record_started_issues]; exact fifo.works th rq' member
  fresh := fifo.fresh
  raised := fifo.raised
  start := fun rq' member => by
    obtain ⟨starts, alone, issued⟩ := fifo.start rq' member
    refine ⟨?_, alone, by rw [record_started_issues]; exact issued⟩
    cases starts with
    | fresh only fence toServe => exact .fresh only fence toServe
    | first above below placed works h => exact .first above below placed works h
  unique := by rw [record_started_issues]; exact fifo.unique

theorem mem_issues (ahead : rq ∈ s.ahead th) (keeps : keep rq = true) : rq ∈ s.issues ∧ rq.thread = th := by
  have member : rq ∈ s.issues.filter (mine keep th) := by
    rw [fifo.inOrder]
    exact List.mem_append_right _ (List.mem_filter.mpr ⟨ahead, keeps⟩)
  have found := List.mem_filter.mp member
  exact ⟨found.1, by simpa [mine, keeps] using found.2⟩

/-- The flag `TO_SERVE` is set for a request from a local queue. -/
theorem setToServe (settled : s.Settled) (issued : rq ∈ s.issues) (begun : keep rq = true → rq ∈ s.begun) :
    Fifo keep (s.setWork rq.rid { s.work rq.rid with toServe := true }) := by
  have fence : ∀ rid, ((s.setWork rq.rid { s.work rq.rid with toServe := true }).work rid).fence =
      (s.work rid).fence := by
    intro rid
    by_cases here : rid = rq.rid
    · subst here; simp
    · simp [here]
  refine ⟨fifo.inOrder, fifo.drains, fun th rq' member => ?_, fun th rq' member keeps => ?_, fifo.raised,
    fun rq' member => ?_, fifo.unique⟩
  · rw [fence]
    exact fifo.works th rq' member
  · have member : rq' ∈ s.ahead th := member
    have known := fifo.mem_issues member keeps
    have other : rq'.rid ≠ rq.rid := by
      intro same
      obtain rfl := List.inj_on_of_nodup_map fifo.unique known.1 issued same
      obtain rfl := known.2
      exact fifo.begun_not_ahead (begun keeps) keeps member
    simpa [other] using fifo.fresh th rq' member keeps
  · obtain ⟨starts, alone, known⟩ := fifo.start rq' member
    refine ⟨?_, alone, known⟩
    cases starts with
    | fresh only => exact absurd only (settled rq')
    | first above below placed works h => exact .first above below placed works h

/-- A request the order is not about joins those behind the fence. -/
theorem joins (settled : s.Settled) (issued : rq ∈ s.issues) (other : keep rq = false)
    {f : Fence Node} (works : f.pendingWorks = (s.fence rq.thread).pendingWorks)
    (inProcess : f.inProcess = (s.fence rq.thread).inProcess) (raised : f.Raised) :
    Fifo keep ((s.setFence rq.thread f).addToFence rq) := by
  have filtered : ∀ th, (Sys.ahead ((s.setFence rq.thread f).addToFence rq) th).filter keep =
      (s.ahead th).filter keep := by
    intro th
    by_cases here : th = rq.thread
    · subst here
      have queue : (((s.setFence rq.thread f).addToFence rq).fence rq.thread).pendingWorks =
          (s.fence rq.thread).pendingWorks ++ [rq] := by
        simp [works]
      have popping : Sys.popping ((s.setFence rq.thread f).addToFence rq) rq.thread =
        s.popping rq.thread := rfl
      have starting : Sys.starting ((s.setFence rq.thread f).addToFence rq) rq.thread =
        s.starting rq.thread := rfl
      simp only [Sys.ahead, queue, popping, starting]
      cases (s.fence rq.thread).pendingWorks with
      | nil => split <;> simp [other]
      | cons first others => split <;> simp [other, List.filter_cons]
    · simp [Sys.ahead, Sys.popping, Sys.starting, here]
  refine ⟨fun th => ?_, fun th => ?_, ?_, fun th rq' member keeps => ?_, ?_, fun rq' member => ?_, fifo.unique⟩
  · rw [filtered]
    exact fifo.inOrder th
  · have drains := fifo.drains th
    by_cases here : th = rq.thread
    · subst here
      simpa [Sys.draining, inProcess] using drains
    · simpa [Sys.draining, here] using drains
  · exact works_addToFence fifo.works works issued
  · rw [toServe_addToFence]
    refine fifo.fresh th rq' ?_ keeps
    have kept : rq' ∈ (s.ahead th).filter keep := by
      rw [← filtered]
      exact List.mem_filter.mpr ⟨member, keeps⟩
    exact (List.mem_filter.mp kept).1
  · exact raised_addToFence fifo.raised raised
  · obtain ⟨starts, alone, known⟩ := fifo.start rq' member
    refine ⟨?_, alone, known⟩
    cases starts with
    | fresh only => exact absurd only (settled rq')
    | first above below placed others h =>
      by_cases here : rq'.thread = rq.thread
      · refine .first above below placed (others ++ [rq]) ?_
        rw [here] at h ⊢
        simp [works, h]
      · exact .first above below placed others (by simpa [here] using h)

/-- A request from a local queue is taken up again. Those the order is about are not held back. -/
theorem replays (todo : s.todo = .replay rq :: rest) (fine : (Task.replay rq).Fine) (issued : rq ∈ s.issues)
    (again : keep rq = true → rq ∈ s.begun ∧ rq.op ≠ .mfence ∧ rq.op ≠ .sfence ∧
      (rq.op = .rlock ∨ rq.op = .wlock ∨ rq.op = .unlock → (s.fence rq.thread).pendingWrites = 0))
    (enters : Enters (({ s with todo := rest } : Sys Node).setWork rq.rid
      { s.work rq.rid with toServe := true }) rq s') : Fifo keep s' := by
  have settled := fifo.settled todo
  have served := (fifo.pop todo fine).setToServe settled issued fun keeps => (again keeps).1
  have settled' : Settled (({ s with todo := rest } : Sys Node).setWork rq.rid
      { s.work rq.rid with toServe := true }) := settled
  cases enters with
  | passes quiet free =>
    by_cases fence : rq.op = .mfence ∨ rq.op = .sfence
    · have other : keep rq = false := by
        by_contra keeps
        have access := (again (by simpa using keeps)).2
        exact fence.elim access.1 access.2.1
      rw [begins_of_fence fence] at quiet
      exact (served.record_other other).quiet quiet (Or.inl settled')
    · rw [begins_of_toServe (by simp) (not_or.mp fence)] at quiet
      exact served.quiet quiet (Or.inl settled')
  | waits f result works inProcess raised fresh held =>
    obtain ⟨lock, writes⟩ := held (by simp)
    have other : keep rq = false := by
      by_contra keeps
      exact writes ((again (by simpa using keeps)).2.2.2 lock)
    rw [result]
    exact served.joins settled' issued other works inProcess raised

/-- `ProcessFenced` begins. -/
theorem drainsNow (settled : s.Settled) (idle : (s.fence th).inProcess = false) :
    Fifo keep ((s.setFence th { s.fence th with inProcess := true }).push [.fenced th]) := by
  have works : ∀ th', (((s.setFence th { s.fence th with inProcess := true }).push [.fenced th]).fence
      th').pendingWorks = (s.fence th').pendingWorks := by
    intro th'
    by_cases here : th' = th
    · subst here; simp
    · simp [here]
  have ahead : ∀ th', Sys.ahead ((s.setFence th { s.fence th with inProcess := true }).push [.fenced th]) th' =
      s.ahead th' := by
    intro th'
    simp only [Sys.ahead, works]
    rfl
  refine ⟨fun th' => ?_, fun th' => ?_, fun th' rq member => ?_, fun th' rq member => ?_,
    fun th' notNow some_ => ?_, fun rq member => ?_, fifo.unique⟩
  · rw [ahead]
    exact fifo.inOrder th'
  · have drains := fifo.drains th'
    by_cases here : th' = th
    · subst here
      simp only [idle, Bool.false_eq_true, if_false] at drains
      simpa [Sys.draining] using drains
    · simpa [Sys.draining, here, Ne.symm here] using drains
  · rw [works] at member
    exact fifo.works th' rq member
  · rw [ahead] at member
    exact fifo.fresh th' rq member
  · by_cases here : th' = th
    · subst here
      simp at notNow
    · rw [works] at some_
      simp only [push_fence, setFence_fence, update_of_ne here] at notNow ⊢
      exact fifo.raised th' notNow some_
  · have old : .start rq ∈ s.todo := by simpa using member
    obtain ⟨starts, alone, known⟩ := fifo.start rq old
    refine ⟨?_, alone, known⟩
    cases starts with
    | fresh only => exact absurd only (settled rq)
    | first above below placed others h =>
      exact .first (.fenced th :: above) below (by simp [placed]) others (by rw [works]; exact h)

/-- `ProcessFenced` runs once for each thread, and nothing of that thread is about to start. -/
theorem drain_head (todo : s.todo = task :: rest) (drain : task.drains th = true) :
    (s.fence th).inProcess = true ∧ rest.countP (Task.drains th) = 0 ∧
      rest.filterMap (Task.starts? th) = [] ∧ rest.any (Task.pops th) = false := by
  have drains := fifo.drains th
  simp only [Sys.draining, todo, List.countP_cons, drain, if_true] at drains
  have alone : rest.countP (Task.drains th) = 0 := by
    split at drains <;> omega
  refine ⟨by by_contra idle; simp [idle] at drains, alone, ?_, ?_⟩
  · refine List.filterMap_eq_nil_iff.mpr fun task' member => ?_
    by_contra some_
    obtain ⟨rq, found⟩ := Option.ne_none_iff_exists'.mp some_
    cases task' with
    | start rq' =>
      simp only [Task.starts?, Option.ite_none_right_eq_some, Option.some.injEq] at found
      obtain ⟨rfl, rfl⟩ := found
      obtain ⟨starts, -⟩ := fifo.start rq' (by rw [todo]; exact List.mem_cons_of_mem _ member)
      have other : task ≠ .start rq' := by rintro rfl; cases drain
      cases starts.pop todo other with
      | fresh only => exact fifo.settled todo rq' only
      | first above below placed =>
        have placed : rest = above ++ .start rq' :: .popFenced rq'.thread :: below := placed
        simp [placed, List.countP_cons] at alone
    | _ => cases found
  · refine List.any_eq_false.mpr fun task' member pops => ?_
    refine List.countP_eq_zero.mp alone task' member ?_
    cases task' with
    | popFenced th' => exact pops
    | _ => cases pops

/-- One round of `ProcessFenced`: its task is replaced, and the fence of its thread changes. -/
theorem round (todo : s.todo = task :: rest) (drain : task.drains th = true) (f : Fence Node) (tasks : List (Task Node))
    (others : ∀ th', th' ≠ th → tasks.filterMap (Task.starts? th') = [] ∧
      tasks.countP (Task.drains th') = 0 ∧ tasks.any (Task.pops th') = false)
    (only : ∀ rq ∈ f.pendingWorks, rq ∈ (s.fence th).pendingWorks)
    (order : (Sys.ahead ((({ s with todo := rest } : Sys Node).setFence th f).push tasks) th).filter keep =
      (s.ahead th).filter keep)
    (count : tasks.countP (Task.drains th) = if f.inProcess then 1 else 0)
    (raised : f.inProcess = false → f.pendingWorks ≠ [] → f.Raised)
    (start : ∀ rq, .start rq ∈ tasks → rq ∈ (s.fence th).pendingWorks ∧
      tasks = [.start rq, .popFenced th] ∧ ∃ rest, f.pendingWorks = rq :: rest) :
    Fifo keep ((({ s with todo := rest } : Sys Node).setFence th f).push tasks) := by
  obtain ⟨-, alone, noStart, noPop⟩ := fifo.drain_head todo drain
  have elsewhere : ∀ th', th' ≠ th → task.starts? th' = none ∧ task.drains th' = false ∧ task.pops th' = false := by
    intro th' other
    cases task with
    | fenced th'' | popFenced th'' =>
      have same : th'' = th := by simpa using drain
      subst same
      simp [Ne.symm other]
    | _ => cases drain
  have ahead : ∀ th', th' ≠ th →
      Sys.ahead ((({ s with todo := rest } : Sys Node).setFence th f).push tasks) th' = s.ahead th' := by
    intro th' other
    simp only [Sys.ahead, Sys.popping, Sys.starting, push_todo, push_fence, setFence_fence, setFence_todo,
      update_of_ne other, List.any_append, List.filterMap_append, (others th' other).1,
      (others th' other).2.2, todo, List.any_cons, List.filterMap_cons, (elsewhere th' other).1,
      (elsewhere th' other).2.2, Bool.false_or, List.nil_append]
  refine ⟨fun th' => ?_, fun th' => ?_, fun th' rq member => ?_, fun th' rq member keeps => ?_,
    fun th' idle some_ => ?_, fun rq member => ?_, fifo.unique⟩
  · by_cases here : th' = th
    · subst here
      rw [order]
      exact fifo.inOrder th'
    · rw [ahead th' here]
      exact fifo.inOrder th'
  · by_cases here : th' = th
    · subst here
      simpa [Sys.draining, alone] using count
    · have drains := fifo.drains th'
      simpa [-Task.drains, Sys.draining, here, (others th' here).2.1, todo, List.countP_cons, (elsewhere th' here).2.1]
        using drains
  · by_cases here : th' = th
    · subst here
      exact fifo.works th' rq (only rq (by simpa using member))
    · exact fifo.works th' rq (by simpa [here] using member)
  · refine fifo.fresh th' rq ?_ keeps
    by_cases here : th' = th
    · subst here
      have kept : rq ∈ (s.ahead th').filter keep := by
        rw [← order]
        exact List.mem_filter.mpr ⟨member, keeps⟩
      exact (List.mem_filter.mp kept).1
    · rw [ahead th' here] at member
      exact member
  · by_cases here : th' = th
    · subst here
      simp only [push_fence, setFence_fence, update_self] at idle some_ ⊢
      exact raised idle some_
    · simp only [push_fence, setFence_fence, update_of_ne here] at idle some_ ⊢
      exact fifo.raised th' idle some_
  · rcases List.mem_append.mp member with new | old
    · obtain ⟨queued, shape, tail, works⟩ := start rq new
      obtain ⟨rfl, -, issued⟩ := fifo.works th rq queued
      refine ⟨.first [] rest (by simp [shape]) tail (by simpa using works), ?_, issued⟩
      have mine : ([.start rq, .popFenced rq.thread] : List (Task Node)).filterMap (Task.starts? rq.thread) =
          [rq] := by
        simp
      simp only [Sys.starting, push_todo, setFence_todo, shape, List.filterMap_append, noStart, mine, List.append_nil]
    · have old : .start rq ∈ rest := old
      obtain ⟨starts, known, issued⟩ := fifo.start rq (by rw [todo]; exact List.mem_cons_of_mem _ old)
      have other : task ≠ .start rq := by rintro rfl; cases drain
      have away : rq.thread ≠ th := by
        intro same
        have found : rq ∈ rest.filterMap (Task.starts? th) :=
          List.mem_filterMap.mpr ⟨_, old, by simp [same]⟩
        rw [noStart] at found
        cases found
      refine ⟨?_, ?_, issued⟩
      · cases starts.pop todo other with
        | fresh alone => exact absurd alone (fifo.settled todo rq)
        | first above below placed others h =>
          have placed : rest = above ++ .start rq :: .popFenced rq.thread :: below := placed
          exact .first (tasks ++ above) below (by simp [placed]) others (by simpa [away] using h)
      · simpa [-Task.starts?, Sys.starting, (others _ away).1, todo, (elsewhere _ away).1] using known

/-- What is ahead of thread `th` after such a round. -/
theorem ahead_round (todo : s.todo = task :: rest) (drain : task.drains th = true)
    (f : Fence Node) (tasks : List (Task Node)) :
    Sys.ahead ((({ s with todo := rest } : Sys Node).setFence th f).push tasks) th =
      if tasks.any (Task.pops th) then tasks.filterMap (Task.starts? th) ++ f.pendingWorks.tail
      else f.pendingWorks ++ tasks.filterMap (Task.starts? th) := by
  obtain ⟨-, -, noStart, noPop⟩ := fifo.drain_head todo drain
  simp only [Sys.ahead, Sys.popping, Sys.starting, push_todo, push_fence, setFence_fence, setFence_todo,
    update_self, List.any_append, List.filterMap_append, noStart, noPop, Bool.or_false,
    List.append_nil]

theorem ahead_fenced (todo : s.todo = .fenced th :: rest) : s.ahead th = (s.fence th).pendingWorks := by
  have drain : (Task.fenced th).drains th = true := by simp
  obtain ⟨-, -, noStart, noPop⟩ := fifo.drain_head todo drain
  have popping : s.popping th = false := by simpa [Sys.popping, todo] using noPop
  have starting : s.starting th = [] := by
    simp only [Sys.starting, todo, List.filterMap_cons, noStart, Task.starts?]
  simp [Sys.ahead, popping, starting]

/-- One round of the loop of `ProcessFenced`. -/
theorem fencedRound (todo : s.todo = .fenced th :: rest)
    (access : ∀ rq, keep rq = true → rq.op ≠ .mfence ∧ rq.op ≠ .sfence) :
    Fifo keep (({ s with todo := rest } : Sys Node).fencedRound th) := by
  have drain : (Task.fenced th).drains th = true := by simp
  obtain ⟨inProcess, -, -, -⟩ := fifo.drain_head todo drain
  have ahead := fifo.ahead_fenced todo
  -- the loop ends or stops
  have stops : ∀ f : Fence Node, f.inProcess = false →
      (∀ rq ∈ f.pendingWorks, rq ∈ (s.fence th).pendingWorks) →
      f.pendingWorks.filter keep = (s.fence th).pendingWorks.filter keep →
      (f.pendingWorks ≠ [] → f.Raised) → Fifo keep (({ s with todo := rest } : Sys Node).setFence th f) := by
    intro f done only same raised
    refine fifo.round todo drain f [] (fun _ _ => ⟨rfl, rfl, rfl⟩) only ?_ (by simp [done])
      (fun _ => raised) (fun _ member => by cases member)
    rw [fifo.ahead_round todo drain, ahead]
    simpa using same
  -- the first request is a fence that holds nothing back
  have drops : ∀ works : List (Req Node), (∀ rq ∈ works, rq ∈ (s.fence th).pendingWorks) →
      works.filter keep = (s.fence th).pendingWorks.filter keep →
      Fifo keep ((({ s with todo := rest } : Sys Node).setFence th
        { s.fence th with pendingWorks := works }).push [.fenced th]) := by
    intro works only same
    refine fifo.round todo drain _ _ (fun th' other => ?_) only ?_ ?_ (fun idle => ?_) (fun rq member => ?_)
    · simp [Ne.symm other]
    · rw [fifo.ahead_round todo drain, ahead]
      simpa [List.filterMap_cons] using same
    · simp [inProcess]
    · simp [inProcess] at idle
    · simp at member
  unfold Sys.fencedRound
  simp only []
  split
  · next empty =>
    exact stops _ rfl (fun rq member => member) rfl fun some_ => absurd empty some_
  · next lwr others list =>
    have member : ∀ rq ∈ others, rq ∈ (s.fence th).pendingWorks := fun rq member => by
      rw [list]; exact List.mem_cons_of_mem _ member
    have fence : lwr.op = .mfence ∨ lwr.op = .sfence →
        others.filter keep = (s.fence th).pendingWorks.filter keep := by
      intro op
      have skipped : keep lwr = false := by
        by_contra keeps
        have kept := access lwr (by simpa using keeps)
        exact op.elim kept.1 kept.2
      rw [list, List.filter_cons, skipped]
      rfl
    have begins : Fifo keep (({ s with todo := rest } : Sys Node).push [.start lwr, .popFenced th]) := by
      have mine : lwr.thread = th := (fifo.works th lwr (by rw [list]; exact List.mem_cons_self)).1
      rw [← setFence_self (s := { s with todo := rest }) th]
      refine fifo.round todo drain _ _ (fun th' other => ?_) (fun rq h => h) ?_ ?_ (fun idle => ?_)
        (fun rq h => ?_)
      · simp [Ne.symm other, mine]
      · rw [fifo.ahead_round todo drain, ahead]
        simp [List.filterMap_cons, mine, list]
      · simp [inProcess]
      · simp [inProcess] at idle
      · obtain rfl : rq = lwr := by simpa using h
        exact ⟨by rw [list]; exact List.mem_cons_self, rfl, others, list⟩
    cases op : lwr.op with
    | mfence =>
      simp only
      split
      · exact stops _ rfl member (fence (Or.inl op)) fun _ => Or.inl rfl
      · exact drops others member (fence (Or.inl op))
    | sfence =>
      simp only
      split
      · exact stops _ rfl member (fence (Or.inr op)) fun _ => Or.inr rfl
      · exact drops others member (fence (Or.inr op))
    | rlock | wlock | unlock =>
      simp only
      split
      · exact stops _ rfl (fun rq h => h) rfl fun _ => Or.inl rfl
      · exact begins
    | read | write => exact begins

/-- A request from behind the fence has started and is removed there. -/
theorem popFenced (todo : s.todo = .popFenced th :: rest) : Fifo keep ((({ s with todo := rest } : Sys Node).setFence th
      { s.fence th with pendingWorks := (s.fence th).pendingWorks.tail }).push [.fenced th]) := by
  have drain : (Task.popFenced th).drains th = true := by simp
  obtain ⟨inProcess, -, noStart, -⟩ := fifo.drain_head todo drain
  have ahead : s.ahead th = (s.fence th).pendingWorks.tail := by
    have popping : s.popping th = true := by simp [Sys.popping, todo]
    have starting : s.starting th = [] := by
      simp only [Sys.starting, todo, List.filterMap_cons, noStart, Task.starts?]
    simp [Sys.ahead, popping, starting]
  refine fifo.round todo drain _ _ (fun th' other => ?_) (fun rq h => List.mem_of_mem_tail h) ?_ ?_
    (fun idle => ?_) (fun rq h => ?_)
  · simp [Ne.symm other]
  · rw [fifo.ahead_round todo drain, ahead]
    simp [List.filterMap_cons]
  · simp [inProcess]
  · simp [inProcess] at idle
  · simp at h

/-- A request is issued. -/
theorem issue (issued : Issued s rq s') : Fifo keep s' := by
  have issues : s'.issues = s.issues ++ [rq] := by simp [Sys.issues, issued.log, Entry.issued?]
  have begun : s'.begun = s.begun := by simp [Sys.begun, issued.log, Entry.started?, List.filterMap_cons]
  have unique : ∀ rq' ∈ s.issues, rq'.rid ≠ rq.rid := by
    intro rq' member same
    have logged : .issued rq' ∈ s.log := by
      obtain ⟨e, listed, about⟩ := List.mem_filterMap.mp (List.mem_reverse.mp member)
      cases e with
      | issued rq'' => cases about; exact listed
      | _ => cases about
    have found : s.isIssued rq.rid = true :=
      List.any_eq_true.mpr ⟨_, logged, by simpa using same⟩
    rw [issued.unique] at found
    cases found
  have works : ∀ rq' ∈ s.issues, s'.work rq'.rid = s.work rq'.rid := fun rq' member => by
    rw [issued.work, update_of_ne (unique rq' member)]
  have before : ∀ th, s.ahead th = (s.fence th).pendingWorks := fun th => by
    simp [Sys.ahead, Sys.popping, Sys.starting, issued.idle]
  have ahead : ∀ th, s'.ahead th = s.ahead th ++ if rq.thread = th then [rq] else [] := by
    intro th
    rw [before]
    by_cases here : rq.thread = th
    · simp [Sys.ahead, Sys.popping, Sys.starting, issued.todo, issued.fence, here]
    · simp [Sys.ahead, Sys.popping, Sys.starting, issued.todo, issued.fence, here]
  refine ⟨fun th => ?_, fun th => ?_, fun th rq' member => ?_, fun th rq' member keeps => ?_, ?_,
    fun rq' member => ?_, ?_⟩
  · rw [issues, begun, ahead, List.filter_append, List.filter_append, fifo.inOrder, List.append_assoc]
    congr 2
    by_cases here : rq.thread = th
    · simp [mine, here, List.filter_cons]
    · simp [mine, here]
  · have drains := fifo.drains th
    rw [issued.fence]
    simpa [Sys.draining, issued.idle, issued.todo] using drains
  · rw [issued.fence] at member
    obtain ⟨thread, fenced, known⟩ := fifo.works th rq' member
    rw [works rq' known, issues]
    exact ⟨thread, fenced, List.mem_append_left _ known⟩
  · rw [ahead] at member
    rcases List.mem_append.mp member with old | new
    · rw [works rq' (fifo.mem_issues old keeps).1]
      exact fifo.fresh th rq' old keeps
    · obtain rfl : rq' = rq := by
        split at new
        · exact List.mem_singleton.mp new
        · cases new
      rw [issued.work, update_self]
  · rw [issued.fence]
    exact fifo.raised
  · rw [issued.todo] at member
    obtain rfl : rq' = rq := by simpa using member
    refine ⟨.fresh issued.todo ?_ ?_, ?_, ?_⟩
    · rw [issued.work, update_self]
    · rw [issued.work, update_self]
    · simp [Sys.starting, issued.todo]
    · rw [issues]; simp
  · rw [issues, List.map_append, List.nodup_append]
    refine ⟨fifo.unique, List.nodup_singleton _, ?_⟩
    intro rid listed rid' new
    obtain ⟨rq', member, rfl⟩ := List.mem_map.mp listed
    rw [List.mem_singleton.mp new]
    exact unique rq' member

end

/-- What a step must respect for the order to be kept: a request that `keep` selects and that comes from
a local queue has begun and is not held back again. -/
structure Respects (keep : Req Node → Bool) (s : Sys Node) : Prop where
  access : ∀ rq, keep rq = true → rq.op ≠ .mfence ∧ rq.op ≠ .sfence
  reads : ∀ rq, keep rq = true → rq.op = .read → ∀ th, (s.fence th).sfenced = false
  issued : ∀ rq rest, s.todo = .replay rq :: rest → rq ∈ s.issues
  again : ∀ rq rest, s.todo = .replay rq :: rest → keep rq = true → rq ∈ s.begun ∧
    (rq.op = .rlock ∨ rq.op = .wlock ∨ rq.op = .unlock → (s.fence rq.thread).pendingWrites = 0)

theorem run (fifo : Fifo keep s) (aimed : s.Aimed) (respects : Respects keep s) (todo : s.todo = task :: rest)
    (queue : s.Queued) (ptr : Nat) (data : Data) : Fifo keep (({ s with todo := rest } : Sys Node).perform ptr data task) := by
  have settled := fifo.settled todo
  -- everything but the fences themselves
  have ordinary : task.Fine → ∀ {s'}, Quiet { s with todo := rest } s' → Fifo keep s' :=
    fun fine _ next => (fifo.pop todo fine).quiet next (Or.inl settled)
  cases task with
  | start rq =>
    have enters : Enters { s with todo := rest } rq _ := processLocalRequest_enters
    cases enters with
    | passes next free =>
      exact fifo.starts todo next free fun keeps op => respects.reads rq keeps op rq.thread
    | waits f result works inProcess raised fresh again =>
      simp only [perform, result]
      exact fifo.waits todo works inProcess raised fresh
  | replay rq =>
    have fine : (Task.replay rq).Fine := aimed (.replay rq) (by rw [todo]; simp)
    refine fifo.replays todo fine (respects.issued rq rest todo) (fun keeps => ?_) processLocalRequest_enters
    obtain ⟨begun, writes⟩ := respects.again rq rest todo keeps
    exact ⟨begun, (respects.access rq keeps).1, (respects.access rq keeps).2, writes⟩
  | block rq i =>
    have fine : (Task.block rq i).Fine := aimed (.block rq i) (by rw [todo]; simp)
    exact ordinary fine (blockRound_quiet fine ptr data)
  | leave rq => exact ordinary trivial (leave_quiet ptr data)
  | serveLocal b n => exact ordinary trivial (serveLocal_quiet ptr data (queue b n))
  | serveRemote b n => exact ordinary trivial (serveRemote_quiet ptr data n)
  | notify rq =>
    rcases notify_turn { s with todo := rest } rq with next | ⟨mid, next, idle, result⟩
    · exact ordinary trivial next
    · simp only [perform, result]
      exact (ordinary trivial next).drainsNow (next.settled settled) idle
  | fenced th => exact fifo.fencedRound todo respects.access
  | popFenced th => exact fifo.popFenced todo

theorem step {act : Act Node} (fifo : Fifo keep s) (aimed : s.Aimed) (respects : Respects keep s)
    (queue : s.Queued)
    (next : s.step act = some s') : Fifo keep s' := by
  have idle : s.todo = [] → s.Settled := fun empty rq only => by rw [empty] at only; cases only
  cases step_takes next with
  | issue issued => exact fifo.issue (issue_issued issued)
  | block n k _ _ when =>
    refine fifo.quiet (((Quiet.refl s).draw n k).block _) ?_
    rcases when with empty | ⟨m, id, rfl⟩
    · exact Or.inl (idle empty)
    · exact Or.inr (block_todo _)
  | run todo => exact fifo.run aimed respects todo queue _ _

end Fifo

end Sys

end Gam
