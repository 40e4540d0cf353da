import Gam.Todo
import Gam.Turns

/-! Every state of a run is described by one abstract state for each block. -/

namespace Gam

open Function
variable {Node : Type} [DecidableEq Node]
variable {ev : BlockState.Event Node} {b : Block Node}

/-! ### The queue of the home -/

section calm
variable {g : Guard Node} {b : Block Node} {s s' : BlockState Node} {a a' : Abs Node}
  {outs : List (Out Node)}

theorem Abs.run_settles (run : Lts.Run (Abs.Step g b) a outs a') (moving : ¬ a.home.Settled)
    (settled : a'.home.Settled) : .process b.wid ∈ outs := by
  induction run with
  | refl => exact absurd settled moving
  | @tail t t' xs ys _ last ih =>
    by_cases before : t.home.Settled
    · exact List.mem_append_left _ (ih before)
    · exact List.mem_append_right _ (last.settles before settled)

theorem Rel.settled_iff (rel : Rel b s a) : a.home.Settled ↔ s.dirState.inTransition ≠ true := by
  rw [rel.dirState]
  cases a.home <;> simp [Home.Settled, Home.dirState, DirState.inTransition]

/-- A home that leaves its queue alone stays calm until it serves the queue. -/
theorem Calm.next (calm : Calm b s) (rel : Rel b s a) (rel' : Rel b s' a')
    (run : Lts.Run (Abs.Step g b) a outs a') (same : s'.toServe b.wid = s.toServe b.wid) :
    Calm b s' ∨ .process b.wid ∈ outs := by
  rcases calm with moving | accesses
  · by_cases settled : s'.dirState.inTransition = true
    · exact Or.inl (Or.inl settled)
    · refine Or.inr (Abs.run_settles run ?_ (rel'.settled_iff.mpr settled))
      exact fun before => rel.settled_iff.mp before moving
  · exact Or.inl (Or.inr (by rw [same]; exact accesses))

theorem Rel.requests_queued (rel : Rel b s a) {e : Node × Msg Node} (member : e ∈ s.toServe b.wid) :
    ∃ r, e.2 = .request r := by
  have stray := congrArg Mail.stray (rel.node e.1 (rel.home.clients e member)).mail
  have none_ : strayRequests e.1 (s.toServe b.wid) = 0 := by
    simp only [BlockState.side, BlockState.mail, Phase.mail] at stray
    omega
  have good := List.countP_eq_zero.mp none_ e member
  cases kind : e.2 with
  | request r => exact ⟨r, rfl⟩
  | command c => simp [kind] at good
  | reply r => simp [kind] at good

theorem Calm.serve (q : List (Node × Msg Node)) (newId : Nat) (calm : Calm b s)
    (requests : ∀ e ∈ q, ∃ r, e.2 = .request r) :
    Calm b (q.foldl (fun acc entry => (acc.1.processRequest b b.wid entry.1 entry.2 acc.2, acc.2 + 1))
      (s, newId)).1 := by
  induction q generalizing s newId with
  | nil => exact calm
  | cons e q ih =>
    obtain ⟨r, request⟩ := requests e (by simp)
    refine ih (newId + 1) ?_ fun e' member => requests e' (by simp [member])
    rw [request]
    exact calm.processRequest r newId

/-- `ProcessToServeRequest` leaves a calm home behind. -/
theorem Rel.calm_serveRemote (rel : Rel b s a) (newId : Nat) : Calm b (s.serveRemote b b.wid newId) := by
  refine Calm.serve _ _ (Or.inr (by simp)) fun e member => rel.requests_queued member

theorem Rel.toServe_worker (rel : Rel b s a) {n : Node} (away : n ≠ b.wid) (newId : Nat) :
    (s.serveRemote b n newId).toServe b.wid = s.toServe b.wid := by
  have whole : Rel b ((s.clearToServe n).extend n (s.toServe n)) a := by
    rw [BlockState.clearToServe_extend]
    exact rel
  unfold BlockState.serveRemote
  cases queue : s.toServe n with
  | nil => simp [Ne.symm away]
  | cons e q =>
    rw [queue] at whole
    obtain rfl := whole.only_entry away
    obtain ⟨c, rfl⟩ := whole.is_command away
    simp only [List.foldl_cons, List.foldl_nil]
    rw [BlockState.processRequest_toServe_of_ne _ _ (Ne.symm away)]
    simp [Ne.symm away]

/-- Messages change the queue of the home only there, and only requests do. -/
theorem Rel.toServe_deliver (rel : Rel b s a) (src dst : Node) (newId : Nat) :
    (s.deliver b src dst newId).1.toServe b.wid = s.toServe b.wid ∨ ∃ r rest, dst = b.wid ∧
        (s.deliver b src dst newId).1 = (s.setChan src dst rest).processRequest b b.wid src (.request r) newId := by
  unfold BlockState.deliver
  cases front : s.chan src dst with
  | nil => exact Or.inl rfl
  | cons item rest =>
    cases item with
    | mem d =>
      left
      dsimp only
      split <;> rfl
    | line ptr d =>
      left
      dsimp only
      repeat' split
      all_goals rfl
    | msg m =>
      cases m with
      | reply r =>
        left
        dsimp only
        rw [BlockState.processReply_toServe]
        rfl
      | request r =>
        by_cases atHome : dst = b.wid
        · subst atHome
          exact Or.inr ⟨r, rest, rfl, rfl⟩
        · obtain ⟨c, same⟩ := (rel.arrive front rfl).is_command atHome
          cases same
      | command c =>
        by_cases atHome : dst = b.wid
        · subst atHome
          obtain ⟨r, same⟩ := (rel.arrive front rfl).is_request
          cases same
        · left
          dsimp only
          rw [BlockState.processRequest_toServe_of_ne _ _ (Ne.symm atHome)]
          rfl

theorem Calm.step (calm : Calm b s) (rel : Rel b s a)
    (rel' : Rel b (s.step b ev).1 a') (run : Lts.Run (Abs.Step g b) a (s.step b ev).2 a') :
    Calm b (s.step b ev).1 ∨ .process b.wid ∈ (s.step b ev).2 := by
  cases ev with
  | request n rq fresh =>
    exact calm.next rel rel' run (congrFun (BlockState.localRequest_toServe rq fresh) b.wid)
  | unLock n rq =>
    refine calm.next rel rel' run ?_
    simp only [BlockState.step, BlockState.unLock]
    repeat' split
    all_goals rfl
  | evict n newId =>
    refine calm.next rel rel' run ?_
    simp only [BlockState.step, BlockState.evict]
    repeat' split
    all_goals rfl
  | complete n =>
    refine calm.next rel rel' run ?_
    simp only [BlockState.step, BlockState.complete, BlockState.completionCheck]
    repeat' split
    all_goals rfl
  | takeLocal n => exact calm.next rel rel' run rfl
  | serveRemote n newId =>
    by_cases isHome : n = b.wid
    · subst isHome
      exact Or.inl (rel.calm_serveRemote newId)
    · exact calm.next rel rel' run (rel.toServe_worker isHome newId)
  | deliver src dst newId =>
    rcases rel.toServe_deliver src dst newId with same | ⟨r, rest, -, request⟩
    · exact calm.next rel rel' run same
    · refine Or.inl ?_
      simp only [BlockState.step, request]
      have popped : Calm b (s.setChan src dst rest) := calm
      exact popped.processRequest r newId

end calm

/-! ### Descriptions -/

/-- What a result assumes about the runs it speaks of: which requests are issued, and for each block
when the branches a `Guard` names may be taken. -/
structure Terms (Node : Type) where
  req : Req Node → Prop
  hit : Block Node → Abs Node → Node → Req Node → Prop
  undo : Block Node → Abs Node → Node → Prop
  ack : Block Node → Abs Node → Node → Prop

/-- Is the block one of those the request is about? A lock is about the first one only. -/
structure Req.Aims (rq : Req Node) (b : Block Node) : Prop where
  wid : b.wid = rq.addr.wid
  first : rq.addr.toBlock.idx ≤ b.idx
  last : rq.op = .read ∨ rq.op = .write → b.idx * blockSize < rq.stop
  lock : rq.op = .rlock ∨ rq.op = .wlock ∨ rq.op = .unlock → b = rq.addr.toBlock

def Terms.guard (t : Terms Node) (b : Block Node) : Guard Node where
  req n rq := rq.thread.node = n ∧ t.req rq ∧ rq.Aims b
  hit := t.hit b
  undo := t.undo b
  ack := t.ack b

/-- The request an event is made for, and the worker that makes it. -/
def BlockState.Event.asks : BlockState.Event Node → Option (Node × Req Node)
  | .request n rq _ | .unLock n rq => some (n, rq)
  | .evict _ _ | .deliver _ _ _ | .complete _ | .takeLocal _ | .serveRemote _ _ => none

/-- A step within the assumptions. -/
structure Terms.Meets (t : Terms Node) (s : Sys Node) (act : Sys.Act Node) : Prop where
  issue : ∀ rq, act = .issue rq → t.req rq
  event : ∀ b ev, s.event act = some (b, ev) → ∀ a, Rel b (s.blk b) a →
    (∀ n rq, ev.asks = some (n, rq) → (t.guard b).req n rq) → Permits (t.guard b) b (s.blk b) a ev

/-- Every block of `s` is as `abs` has it, and only requests within the assumptions are on their way. -/
structure Described (t : Terms Node) (s : Sys Node) (abs : Block Node → Abs Node) : Prop where
  rel : ∀ b, Rel b (s.blk b) (abs b)
  consistent : ∀ b, Consistent b (abs b)
  carried : ∀ b, Carried (t.guard b) b (abs b)
  calm : ∀ b, Calm b (s.blk b) ∨ .serveRemote b b.wid ∈ s.todo
  within : s.Within t.req
  aimed : s.Aimed
  queue : ∀ b n, ∀ rq ∈ (s.blk b).toServeLocal n, t.req rq ∧ (rq.Reads ∨ rq.Writes)

namespace Sys
variable {s s' : Sys Node} {act : Act Node}

/-- A task stays until it is performed. -/
theorem step_keeps (next : s.step act = some s') {task : Task Node} (member : task ∈ s.todo) :
    task ∈ s'.todo ∨ ∃ ptr data rest, act = .run ptr data ∧ s.todo = task :: rest := by
  have busy : s.todo.isEmpty = false := by
    cases todo : s.todo with
    | nil => rw [todo] at member; cases member
    | cons => rfl
  cases act with
  | issue rq => simp [step, issue, busy] at next
  | deliver b src dst => simp [step, busy] at next
  | complete b n => simp [step, busy] at next
  | evict b n =>
    cases next
    exact Or.inl (block_keeps (s := s.draw _ _) member)
  | run ptr data =>
    simp only [step] at next
    cases todo : s.todo with
    | nil => rw [todo] at member; cases member
    | cons first rest =>
      rw [todo] at next member
      cases next
      rcases List.mem_cons.mp member with rfl | later
      · exact Or.inr ⟨ptr, data, rest, rfl, rfl⟩
      · exact Or.inl (perform_keeps (s := { s with todo := rest }) ptr data later)

theorem Within.step {P : Req Node → Prop} (within : Within P s) (next : s.step act = some s')
    (issue : ∀ rq, act = .issue rq → P rq) (queue : ∀ b n, ∀ rq ∈ (s.blk b).toServeLocal n, P rq)
    (labels : ∀ b, ∀ o ∈ s.outs act b, ∀ rq, o.req? = some rq → P rq) : Within P s' := by
  have labels' : ∀ b ev, s.event act = some (b, ev) →
      ∀ o ∈ ((s.blk b).step b ev).2, ∀ rq, o.req? = some rq → P rq := by
    intro b ev found o member
    refine labels b o ?_
    simpa [outs, found] using member
  cases step_takes next with
  | @issue rq _ issued =>
    have started : ∀ task ∈ [Task.start rq], ∀ rq', task.req? = some rq' → P rq' := by
      intro task member rq' about
      rw [List.mem_singleton.mp member] at about
      cases about
      exact issue rq rfl
    simp only [Sys.issue] at issued
    split at issued
    · split at issued
      · split at issued
        · cases issued
        · cases issued; exact ⟨started, within.fence⟩
      · cases issued; exact ⟨started, within.fence⟩
    · cases issued
  | block n k event => exact (within.congr (s.draw n k) rfl rfl).block (labels' _ _ event)
  | @run ptr data task rest todo event =>
    have rested : Within P { s with todo := rest } :=
      ⟨fun task' member => within.todo task' (by rw [todo]; simp [member]), within.fence⟩
    exact rested.perform ptr data (within.todo task (by rw [todo]; simp)) queue fun b ev found =>
      labels' b ev (event.trans found)

end Sys

theorem Carried.run {g : Guard Node} {a a' : Abs Node} {outs : List (Out Node)}
    (carried : Carried g b a) (inv : Consistent b a) (run : Lts.Run (Abs.Step g b) a outs a') :
    Carried g b a' ∧ ∀ o ∈ outs, o.Fits ∧ ∀ rq, o.req? = some rq → ∃ n, g.req n rq := by
  induction run with
  | refl => exact ⟨carried, fun o member => by cases member⟩
  | tail before last ih =>
    refine ⟨ih.1.step last, fun o member => ?_⟩
    rcases List.mem_append.mp member with old | new
    · exact ih.2 o old
    · exact ⟨ih.1.fits (inv.run before) last o new, ih.1.label last o new⟩

/-- Only the home waits for a fetched or an invalidated block. -/
theorem Rel.homely {s : BlockState Node} {a : Abs Node} (rel : Rel b s a) (n : Node) :
    ∀ p ∈ s.pending n, p.op.isHome = true → n = b.wid := by
  intro p member isHome
  by_contra away
  have pending : s.pending n = (a.phase n).pending := (rel.node n away).pending
  rw [pending] at member
  cases phase : a.phase n with
  | evicting ptr id | evicted ptr id =>
    simp only [phase, Phase.pending, List.mem_singleton] at member
    rw [member] at isHome
    cases isHome
  | leaving ptr id flag =>
    simp only [phase, Phase.pending, List.mem_singleton] at member
    rw [member] at isHome
    cases isHome
  | miss op ptr id flag rq stage =>
    simp only [phase, Phase.pending, List.mem_singleton] at member
    rw [member] at isHome
    cases isHome
  | _ => simp [phase] at member

namespace Described
variable {t : Terms Node} {s s' : Sys Node} {abs : Block Node → Abs Node} {act : Sys.Act Node}

theorem init (t : Terms Node) (mem : Block Node → Data) : Described t (Sys.init mem) fun b => Abs.init (mem b) where
  rel := fun b => Rel.init b (mem b)
  consistent := fun b => Consistent.init b (mem b)
  carried := fun b => Carried.init (mem b)
  calm := fun b => Or.inl (Or.inr fun e member => by cases member)
  within := ⟨fun task member => (by cases member), fun th rq member => (by cases member)⟩
  aimed := fun task member => by cases member
  queue := fun b n rq member => by cases member

/-- The requests an event is made for are within the assumptions. -/
theorem asks (d : Described t s abs)
    (found : s.event act = some (b, ev)) {n : Node} {rq : Req Node} (asks : ev.asks = some (n, rq)) :
    (t.guard b).req n rq := by
  cases act with
  | issue rq' => cases found
  | deliver b' src dst => cases found; cases asks
  | complete b' m => cases found; cases asks
  | evict b' m => cases found; cases asks
  | run ptr data =>
    simp only [Sys.event] at found
    cases todo : s.todo with
    | nil => rw [todo] at found; cases found
    | cons task rest =>
      rw [todo] at found
      have valid := d.within.todo task (by rw [todo]; simp)
      have unlocked : ∀ {s : Sys Node} {rq' : Req Node}, s.unlocks rq' = some (b, ev) →
          rq' = rq ∧ rq.thread.node = n ∧ rq.Aims b := by
        intro s rq' h
        unfold Sys.unlocks at h
        split at h
        · next unlock =>
          cases h; cases asks
          exact ⟨rfl, rfl, rfl, Nat.le_refl _, by simp [unlock.1], fun _ => rfl⟩
        · cases h
      cases task with
      | start rq' =>
        obtain ⟨rfl, mine, aims⟩ := unlocked found
        exact ⟨mine, valid rq' rfl, aims⟩
      | replay rq' =>
        obtain ⟨rfl, mine, aims⟩ := unlocked found
        exact ⟨mine, valid rq' rfl, aims⟩
      | block rq' i =>
        simp only [Sys.taskEvent] at found
        split at found
        · next touched =>
          cases found; cases asks
          have fine := d.aimed (.block rq i) (by rw [todo]; simp)
          refine ⟨rfl, valid rq rfl, rfl, fine.1, fun access => ?_, fun lock => ?_⟩
          · rcases access with op | op <;> simpa [Sys.touches, op] using touched
          · have first : i = rq.addr.toBlock.idx := by
              rcases lock with op | op | op
              · exact fine.2 (Or.inl op)
              · exact fine.2 (Or.inr op)
              · simp [Sys.touches, op] at touched
            rw [first]; rfl
        · cases found
      | serveLocal b' m => cases found; cases asks
      | serveRemote b' m => cases found; cases asks
      | _ => cases found

/-- A step that touches no block. -/
theorem idle (d : Described t s abs) (meets : t.Meets s act) (next : s.step act = some s')
    (found : s.event act = none) : Described t s' abs := by
  have blk : s'.blk = s.blk := by rw [Sys.step_blk next, found]; rfl
  have silent : ∀ b, s.outs act b = [] := fun b => by simp [Sys.outs, found]
  refine ⟨?_, d.consistent, d.carried, fun b => ?_, ?_, d.aimed.step (fun b n rq member => (d.queue b n rq member).2) next, ?_⟩
  · rw [blk]; exact d.rel
  · rw [blk]
    refine (d.calm b).imp_right fun due => ?_
    rcases Sys.step_keeps next due with kept | ⟨ptr, data, rest, rfl, todo⟩
    · exact kept
    · simp [Sys.event, todo, Sys.taskEvent] at found
  · refine d.within.step next meets.issue (fun b n rq member => (d.queue b n rq member).1) fun b o member => ?_
    rw [silent b] at member
    cases member
  · rw [blk]; exact d.queue

/-- A handler starts with nothing left to do. -/
theorem ready (d : Described t s abs) (next : s.step act = some s')
    (found : s.event act = some (b, ev)) : Ready b (s.blk b) ev := by
  cases ev with
  | deliver src dst newId =>
    intro atHome
    have idle : s.todo = [] := by
      cases act with
      | deliver b' src' dst' =>
        simp only [Sys.step] at next
        split at next
        · next empty => exact List.isEmpty_iff.mp empty
        · cases next
      | run ptr data =>
        simp only [Sys.event] at found
        cases todo : s.todo with
        | nil => rfl
        | cons task rest =>
          rw [todo] at found
          cases task <;> simp [Sys.taskEvent, Sys.unlocks] at found
      | _ => cases found
    rcases d.calm b with calm | due
    · exact calm
    · rw [idle] at due
      cases due
  | unLock n rq =>
    cases act with
    | run ptr data =>
      simp only [Sys.event] at found
      cases todo : s.todo with
      | nil => rw [todo] at found; cases found
      | cons task rest =>
        rw [todo] at found
        cases task with
        | block rq' i => simp [Sys.taskEvent] at found
        | start rq' | replay rq' =>
          simp only [Sys.taskEvent, Sys.unlocks] at found
          split at found
          · next unlock => cases found; exact unlock.1
          · cases found
        | _ => cases found
    | _ => cases found
  | _ => trivial

/-- A step on block `b`. -/
theorem touch (d : Described t s abs) (meets : t.Meets s act) (next : s.step act = some s')
    (found : s.event act = some (b, ev)) :
    ∃ a', Lts.Run (Abs.Step (t.guard b) b) (abs b) ((s.blk b).step b ev).2 a' ∧ Described t s' (update abs b a') := by
  have blk : s'.blk = update s.blk b ((s.blk b).step b ev).1 := by
    rw [Sys.step_blk next, found]; rfl
  have permits := meets.event b ev found (abs b) (d.rel b) fun n rq asks => d.asks found asks
  obtain ⟨a', run, rel'⟩ := (d.rel b).step (d.consistent b) ev permits (d.ready next found)
  have labels := (d.carried b).run (d.consistent b) run
  refine ⟨a', run, fun b' => ?_, fun b' => ?_, fun b' => ?_, fun b' => ?_, ?_, d.aimed.step (fun b n rq member => (d.queue b n rq member).2) next,
    fun b' n rq member => ?_⟩
  · rw [blk]
    by_cases same : b' = b
    · subst b'; simpa using rel'
    · simpa [same] using d.rel b'
  · by_cases same : b' = b
    · subst b'; simpa using (d.consistent _).run run
    · simpa [same] using d.consistent b'
  · by_cases same : b' = b
    · subst b'; simpa using labels.1
    · simpa [same] using d.carried b'
  · rw [blk]
    by_cases same : b' = b
    · subst b'
      simp only [update_self]
      rcases d.calm b with calm | due
      · refine (calm.step (d.rel b) rel' run).imp_right fun member => ?_
        exact (Sys.step_serves next (by simpa [Sys.outs, found] using member)).2
      · rcases Sys.step_keeps next due with kept | ⟨ptr, data, rest, rfl, todo⟩
        · exact Or.inr kept
        · simp only [Sys.event, todo, Sys.taskEvent, Option.some.injEq, Prod.mk.injEq, true_and] at found
          subst found
          exact Or.inl ((d.rel b).calm_serveRemote _)
    · simp only [update_of_ne same]
      refine (d.calm b').imp_right fun due => ?_
      rcases Sys.step_keeps next due with kept | ⟨ptr, data, rest, rfl, todo⟩
      · exact kept
      · simp only [Sys.event, todo, Sys.taskEvent, Option.some.injEq, Prod.mk.injEq] at found
        exact absurd found.1 same
  · refine d.within.step next meets.issue (fun b n rq member => (d.queue b n rq member).1)
      fun b' o member rq about => ?_
    simp only [Sys.outs, found] at member
    split at member
    · next same =>
      subst same
      obtain ⟨n, valid⟩ := (labels.2 o member).2 rq about
      exact valid.2.1
    · cases member
  · rw [blk] at member
    by_cases same : b' = b
    · subst b'
      simp only [update_self] at member
      by_cases take : ∃ m, ev = .takeLocal m
      · obtain ⟨m, rfl⟩ := take
        refine d.queue b n rq ?_
        by_cases here : n = m
        · subst n
          simp [BlockState.step, BlockState.takeLocal] at member
        · simpa [BlockState.step, BlockState.takeLocal, here] using member
      · have queues := BlockState.step_queues (s := s.blk b) ev (fun m h => take ⟨m, h⟩) (d.rel b).homely
        rw [queues] at member
        by_cases here : n = ev.actor
        · rw [here, update_self] at member
          rcases List.mem_append.mp member with old | new
          · exact d.queue b _ rq old
          · obtain ⟨o, listed, about⟩ := List.mem_filterMap.mp new
            have label : o.req? = some rq := by
              cases o with
              | postponed rq' => exact about
              | _ => cases about
            obtain ⟨fits, valid⟩ := labels.2 o listed
            obtain ⟨m, valid⟩ := valid rq label
            refine ⟨valid.2.1, ?_⟩
            cases o with
            | postponed rq' => cases label; exact fits
            | _ => cases about
        · rw [update_of_ne here] at member
          exact d.queue b n rq member
    · exact d.queue b' n rq (by simpa [same] using member)

/-- Every step keeps the description up to date. -/
theorem step (d : Described t s abs) (meets : t.Meets s act) (next : s.step act = some s') :
    ∃ abs', (∀ b, Lts.Run (Abs.Step (t.guard b) b) (abs b) (s.outs act b) (abs' b)) ∧ Described t s' abs' := by
  cases found : s.event act with
  | none =>
    refine ⟨abs, fun b => ?_, d.idle meets next found⟩
    simp only [Sys.outs, found]
    exact .refl
  | some e =>
    obtain ⟨b, ev⟩ := e
    obtain ⟨a', run, d'⟩ := d.touch meets next found
    refine ⟨_, fun b' => ?_, d'⟩
    simp only [Sys.outs, found]
    by_cases same : b = b'
    · subst same; simpa using run
    · simp only [if_neg same, update_of_ne (Ne.symm same)]
      exact .refl

end Described

/-- The runs of the cluster, together with the runs of the abstract protocol they follow. -/
inductive Sim (t : Terms Node) (ok : Sys Node → Sys.Act Node → Prop) (mem : Block Node → Data) :
    Sys Node → (Block Node → Abs Node) → Prop
  | init : Sim t ok mem (Sys.init mem) fun b => Abs.init (mem b)
  | step {s s' : Sys Node} {abs abs' : Block Node → Abs Node} {act : Sys.Act Node}
    (sim : Sim t ok mem s abs) (described : Described t s abs) (allowed : ok s act)
    (next : s.step act = some s')
    (runs : ∀ b, Lts.Run (Abs.Step (t.guard b) b) (abs b) (s.outs act b) (abs' b))
    (described' : Described t s' abs') : Sim t ok mem s' abs'

section sim
variable {t : Terms Node} {ok : Sys Node → Sys.Act Node → Prop} {mem : Block Node → Data} {s : Sys Node}
  {abs : Block Node → Abs Node}

theorem Sim.described (sim : Sim t ok mem s abs) : Described t s abs := by
  cases sim with
  | init => exact Described.init t mem
  | step _ _ _ _ _ described' => exact described'

/-- The abstract protocol follows every run within the assumptions. -/
theorem Sys.Reach.sim (meets : ∀ s act, ok s act → t.Meets s act) (reach : Reach ok mem s) :
    ∃ abs, Sim t ok mem s abs := by
  induction reach with
  | init => exact ⟨_, .init⟩
  | step _ allowed next ih =>
    obtain ⟨abs, sim⟩ := ih
    obtain ⟨abs', runs, described'⟩ := sim.described.step (meets _ _ allowed) next
    exact ⟨abs', sim.step sim.described allowed next runs described'⟩

end sim

/-- No assumptions at all. -/
def Terms.any : Terms Node := ⟨fun _ => True, fun _ _ _ _ => True, fun _ _ _ => True, fun _ _ _ => True⟩

theorem Terms.any_meets (s : Sys Node) (act : Sys.Act Node) : (Terms.any : Terms Node).Meets s act where
  issue := fun _ _ => trivial
  event := fun b ev _ a _ asks => by
    cases ev with
    | request n rq fresh => exact ⟨asks n rq rfl, fun _ _ _ => trivial⟩
    | unLock n rq => exact asks n rq rfl
    | deliver src dst newId => exact fun m rest _ => ⟨fun _ _ _ _ => trivial, fun _ _ _ => trivial⟩
    | serveRemote n newId => exact fun e _ c _ _ => trivial
    | evict | complete | takeLocal => trivial

end Gam
