import Gam.Simulation.Entry
import Gam.Simulation.Worker

/-! The home by itself: requests of its application and unlocking, and the changes of its
directory entry that all its handlers share. -/

namespace Gam
variable {Node : Type} [DecidableEq Node]

variable {g : Guard Node} {b : Block Node} {s : BlockState Node} {a : Abs Node} {n : Node}

section
variable (rel : Rel b s a)
include rel

theorem Rel.dirState : s.dirState = a.home.dirState := rel.home.entry.state
theorem Rel.sharers : s.sharers = a.home.sharers := rel.home.entry.sharers
theorem Rel.dirLocks : s.dirLocks = a.dirLocks := rel.home.entry.locks

/-- Without an owner nothing is on its way to the home memory. -/
theorem Rel.no_writers (unowned : a.home.owner = none) : (∀ n, mems (s.chan n b.wid) = []) ∧ s.mem = a.mem := by
  refine ⟨fun n => ?_, by simpa [unowned] using rel.home.mem⟩
  by_contra some_
  have := rel.home.writers n some_
  rw [unowned] at this
  cases this

/-- The directory entry changes, and nobody else has to know. -/
theorem Rel.setEntry {entry : Option (DirEntry Node)} {home : Home Node}
    {locks : Locks Node} (ok : EntryOk entry home locks) (pending : home.pending = a.home.pending)
    (cmd : ∀ n, n ≠ b.wid → home.cmd n = a.home.cmd n)
    (owner : home.owner = a.home.owner ∨ ∀ n, mems (s.chan n b.wid) = []) :
    Rel b (s.setEntry entry) ((a.setHome home).setDirLocks locks) := by
  refine ⟨⟨ok, ?_, rel.home.line, rel.home.completions, rel.home.chan, rel.home.clients, ?_, ?_⟩,
    fun n away => ?_, rel.framed⟩
  · exact rel.home.pending.trans pending.symm
  · intro m some_
    rcases owner with same | none_
    · exact same.trans (rel.home.writers m some_)
    · exact absurd (none_ m) some_
  · have mem := rel.home.mem
    rcases owner with same | none_
    · simpa [same] using mem
    · have mem : s.mem = a.mem := by
        rw [← mem]; cases a.home.owner <;> simp [none_]
      rw [Abs.setDirLocks_home, Abs.setHome_home]
      cases home.owner <;> simp [none_, mem]
  · have shows := rel.node n away
    rw [Abs.local, ← cmd n away] at shows
    exact shows

/-- The locks of the home change. -/
theorem Rel.setDirLocks {entry : Option (DirEntry Node)} {locks : Locks Node}
    (ok : EntryOk entry a.home locks) : Rel b (s.setEntry entry) (a.setDirLocks locks) :=
  rel.setEntry ok rfl (fun _ _ => rfl) (Or.inl rfl)

/-- The home writes its own memory. -/
theorem Rel.setMem (unowned : a.home.owner = none) (d : Data) : Rel b (s.setMem d) (a.setMem d) :=
  ⟨⟨rel.home.entry, rel.home.pending, rel.home.line, rel.home.completions, rel.home.chan,
    rel.home.clients, rel.home.writers, by simp [unowned]⟩, rel.node, rel.framed⟩

/-- The home starts a transaction and asks the workers `dsts`. -/
theorem Rel.ask {home : Home Node} {state : DirState} {p : Pending Node}
    {c : Command Node} {dsts : List Node} (present : a.home.dirState ≠ .unshared)
    (idle : a.home.pending = []) (quiet : ∀ n, a.home.cmd n = .quiet)
    (away : ∀ n ∈ dsts, n ≠ b.wid) (nodup : dsts.Nodup)
    (stateEq : home.dirState = state) (sharers : home.sharers = a.home.sharers)
    (pending : home.pending = [p]) (owner : home.owner = a.home.owner)
    (cmd : ∀ n, home.cmd n = if n ∈ dsts then .opened c else .quiet) :
    Rel b (((s.setEntry (Directory.setState state s.entry)).addPending b.wid p).broadcast b.wid dsts
      (.command c)) (a.setHome home) := by
  have none_ : s.pending b.wid = [] := rel.home.pending.trans idle
  have moving : state ≠ .unshared := by
    rintro rfl
    rw [Home.unshared_of_dirState stateEq] at pending
    cases pending
  have silent : ∀ k : Nat, mems (List.replicate k (Item.msg (.command c) : Item Node)) = [] :=
    fun k => List.filterMap_replicate_of_none rfl
  have chan : ∀ m, m ≠ b.wid → ((((s.setEntry (Directory.setState state s.entry)).addPending b.wid
      p).broadcast b.wid dsts (.command c)).chan m b.wid) = s.chan m b.wid := by
    intro m other; simp [other]
  have toSelf : (dsts.filter fun d => decide (d = b.wid)) = [] :=
    List.filter_eq_nil_iff.mpr fun m member => by simpa using away m member
  refine ⟨?_, fun n notHome => ?_, rel.framed.broadcast _ _ _⟩
  · exact {
      entry := rel.home.entry.setState present stateEq moving sharers
      pending := by simp [none_, pending]
      line := rel.home.line
      completions := rel.home.completions
      chan := by simpa [toSelf] using rel.home.chan
      clients := rel.home.clients
      writers := fun m some_ => by
        refine owner.trans (rel.home.writers m ?_)
        by_cases same : m = b.wid
        · subst m; simpa [toSelf] using some_
        · rwa [chan m same] at some_
      mem := by
        have mem := rel.home.mem
        rw [Abs.setHome_home, owner]
        cases holder : a.home.owner with
        | none => simpa [holder] using mem
        | some o =>
          by_cases same : o = b.wid
          · subst o; simpa [holder, toSelf] using mem
          · simpa [holder, same] using mem }
  · have shows := rel.node n notHome
    have mail : s.mail b n = (a.phase n).mail (a.home.cmd n) := shows.mail
    rw [BlockState.side_broadcast _ _ _ _ _ notHome, BlockState.mail_broadcast _ _ _ _ _ notHome,
      BlockState.side_addPending_of_ne _ _ _ _ _ notHome]
    refine ⟨shows.line, shows.bare, shows.pending, shows.completions, ?_, shows.lines, shows.landed,
      shows.punctual, shows.timely.append_silent (by simp)⟩
    have once : (dsts.filter fun d => decide (d = n)) = if n ∈ dsts then [n] else [] := by
      rw [List.filter_eq]
      split
      · next member => rw [List.count_eq_one_of_mem nodup member]; rfl
      · next notin => rw [List.count_eq_zero_of_not_mem notin]; rfl
    simp [Phase.mail, mail, cmd, quiet, once]
    split <;> simp [Cmd.commands, Cmd.acks]

/-- The home sends the owner `o` a command. -/
theorem Rel.askOwner {o : GAddr Node} (away : o.wid ≠ b.wid)
    (dirty : a.home = .dirty o) {home : Home Node} {state : DirState} {p : Pending Node}
    {c : Command Node} {refusal : Reply} (stateEq : home.dirState = state)
    (sharers : home.sharers = [o]) (pending : home.pending = [p]) (owner : home.owner = some o.wid)
    (cmd : ∀ n, home.cmd n = Home.cmdTo o c refusal .opened n) :
    Rel b (((s.setEntry (Directory.setState state s.entry)).addPending b.wid p).send b.wid o.wid
      [.msg (.command c)]) (a.setHome home) := by
  rw [← BlockState.broadcast_singleton]
  refine rel.ask (by simp [dirty, Home.dirState]) (by rw [dirty]; rfl) (fun n => by rw [dirty]; rfl)
    (fun n member => ?_) (List.nodup_singleton _) stateEq (by rw [sharers, dirty]; rfl) pending
    (by rw [owner, dirty]; rfl) (fun n => ?_)
  · rw [List.mem_singleton.mp member]; exact away
  · simp [cmd, Home.cmdTo, Answer.cmd]

end

theorem Consistent.owner_away (inv : Consistent b a) {o : GAddr Node} (dirty : a.home = .dirty o) : o.wid ≠ b.wid := by
  have wf := inv.home
  rwa [dirty] at wf

theorem Rel.busy_home (rel : Rel b s a) (moving : s.dirState.inTransition = true) : a.Busy b b.wid := by
  rw [rel.dirState] at moving
  rw [Abs.Busy, if_pos rfl]
  left
  cases home : a.home with
  | unshared | shared L | dirty o => simp [home, Home.dirState, DirState.inTransition] at moving
  | _ => exact fun h => h

section
variable (rel : Rel b s a) (inv : Consistent b a) {rq : Req Node} (mine : g.req b.wid rq)
include rel inv rq mine

theorem Rel.fetchShared (kind : rq.Reads) {flag : Flag} (flagEq : flag = rq.flag) (id : Nat)
    (dirty : s.dirState = .dirty) : Matched g b (s.fetchShared b rq flag id) a := by
  obtain ⟨o, home⟩ := Home.dirty_of_dirState (rel.dirState.symm.trans dirty)
  unfold BlockState.fetchShared
  have sharers : s.sharers = [o] := by rw [rel.sharers, home]; rfl
  rw [sharers]
  subst flagEq
  exact .single (.fetchShared rq mine kind id o home)
    (rel.askOwner (inv.owner_away home) home rfl rfl rfl rfl fun _ => rfl)

theorem Rel.fetchInvalidate (kind : rq.Writes) {flag : Flag} (flagEq : flag = rq.flag) (id : Nat)
    (cached : s.dirState = .dirty ∨ s.dirState = .shared) : Matched g b (s.fetchInvalidate b rq flag id) a := by
  unfold BlockState.fetchInvalidate
  subst flagEq
  rcases cached with dirty | shared
  · obtain ⟨o, home⟩ := Home.dirty_of_dirState (rel.dirState.symm.trans dirty)
    have sharers : s.sharers = [o] := by rw [rel.sharers, home]; rfl
    simp only [dirty, if_true, sharers, List.map_cons, List.map_nil, BlockState.broadcast_singleton]
    exact .single (.fetchInvalidate rq mine kind id o home)
      (rel.askOwner (inv.owner_away home) home rfl rfl rfl rfl fun _ => rfl)
  · obtain ⟨L, home⟩ := Home.shared_of_dirState (rel.dirState.symm.trans shared)
    have sharers : s.sharers = L := by rw [rel.sharers, home]; rfl
    have wf := inv.home
    rw [home] at wf
    have all : Home.outstanding L (Home.askAll (L.map GAddr.wid)) = L.length := by
      rw [Home.outstanding, List.countP_eq_length.mpr]
      intro x member
      simpa [Home.askAll] using ⟨x, member, rfl⟩
    simp only [shared, reduceCtorEq, if_false, sharers]
    refine .single (.invalidate rq mine kind id L home) ?_
    refine rel.ask (by simp [home, Home.dirState]) (by rw [home]; rfl) (fun n => by rw [home]; rfl)
      (fun n member => ?_) wf.1.nodup rfl (by rw [home]; rfl) (by simp [Home.pending, all])
      (by rw [home]; rfl) (fun n => ?_)
    · obtain ⟨x, listed, rfl⟩ := List.mem_map.mp member
      exact wf.1.away x listed
    · by_cases member : n ∈ L.map GAddr.wid
      · simp only [Home.cmd, Home.askAll, if_pos member]; rfl
      · simp only [Home.cmd, Home.askAll, if_neg member]; rfl

theorem Rel.homeRead (op : rq.op = .read) (fresh : Fresh) : Matched g b (s.homeRead b rq fresh) a := by
  unfold BlockState.homeRead
  by_cases moving : s.dirState.inTransition = true
  · rw [if_pos moving]
    exact rel.postponed mine (Or.inl (Or.inl op)) (rel.busy_home moving)
  · rw [if_neg moving]
    by_cases dirty : s.dirState = .dirty
    · rw [if_pos dirty]
      exact rel.fetchShared inv mine (Or.inl op) (by simp [Req.flag, op]) _ dirty
    · rw [if_neg dirty]
      rw [rel.dirState] at moving dirty
      have idle := Home.idle_of_dirState moving dirty
      rw [(rel.no_writers (Home.owner_of_idle idle)).2]
      exact .single (.homeRead rq mine op idle) rel

theorem Rel.homeWrite (op : rq.op = .write) (fresh : Fresh) : Matched g b (s.homeWrite b rq fresh) a := by
  unfold BlockState.homeWrite
  by_cases moving : s.dirState.inTransition = true
  · rw [if_pos moving]
    exact rel.postponed mine (Or.inr (Or.inl op)) (rel.busy_home moving)
  · rw [if_neg moving]
    by_cases cached : s.dirState = .dirty ∨ s.dirState = .shared
    · rw [if_pos cached]
      exact rel.fetchInvalidate inv mine (Or.inl op) (by simp [Req.flag, op]) _ cached
    · rw [if_neg cached]
      have unshared : a.home = .unshared := by
        rw [rel.dirState] at moving cached
        cases home : a.home with
        | unshared => rfl
        | _ => simp [home, Home.dirState, DirState.inTransition] at moving cached
      have unowned : a.home.owner = none := by rw [unshared]; rfl
      rw [(rel.no_writers unowned).2]
      exact .single (.homeWrite rq mine op unshared) (rel.setMem unowned _)

theorem Rel.homeRLock (op : rq.op = .rlock) (fresh : Fresh) : Matched g b (s.homeRLock b rq fresh) a := by
  unfold BlockState.homeRLock
  by_cases moving : s.dirState.inTransition = true
  · rw [if_pos moving]
    exact rel.postponed mine (Or.inl (Or.inr op)) (rel.busy_home moving)
  · rw [if_neg moving]
    by_cases dirty : s.dirState = .dirty
    · rw [if_pos dirty]
      exact rel.fetchShared inv mine (Or.inr op) (by simp [Req.flag, op]) _ dirty
    · rw [if_neg dirty]
      rw [rel.dirState] at moving dirty
      cases granted : Directory.rLock rq.addr s.entry with
      | none =>
        refine rel.lockBusy mine (Or.inl op) ?_
        rw [Abs.Busy, if_pos rfl]
        exact Or.inr (rel.home.entry.rLock_none rq.addr granted)
      | some e =>
        obtain ⟨ok, free⟩ := rel.home.entry.rLock rq.addr granted
        exact .single (.homeRLock rq mine op (Home.idle_of_dirState moving dirty)
          (fun unshared => free (by rw [unshared]; rfl))) (rel.setDirLocks ok)

theorem Rel.homeWLock (op : rq.op = .wlock) (fresh : Fresh) : Matched g b (s.homeWLock b rq fresh) a := by
  unfold BlockState.homeWLock
  by_cases moving : s.dirState.inTransition = true
  · rw [if_pos moving]
    exact rel.postponed mine (Or.inr (Or.inr op)) (rel.busy_home moving)
  · rw [if_neg moving]
    by_cases cached : s.dirState = .dirty ∨ s.dirState = .shared
    · rw [if_pos cached]
      exact rel.fetchInvalidate inv mine (Or.inr op) (by simp [Req.flag, op]) _ cached
    · rw [if_neg cached]
      have unshared : a.home = .unshared := by
        rw [rel.dirState] at moving cached
        cases home : a.home with
        | unshared => rfl
        | _ => simp [home, Home.dirState, DirState.inTransition] at moving cached
      cases granted : Directory.wLock rq.addr s.entry with
      | none =>
        obtain ⟨k, held, -⟩ := rel.home.entry.wLock_none rq.addr granted
        refine rel.lockBusy mine (Or.inr op) ?_
        rw [Abs.Busy, if_pos rfl]
        exact Or.inr (Locks.locked_of_lookup held)
      | some e =>
        obtain ⟨ok, free⟩ := rel.home.entry.wLock (by rw [unshared]; rfl) rq.addr granted
        exact .single (.homeWLock rq mine op unshared free) (rel.setDirLocks ok)

end

/-- `ProcessLocalUnLock` at the home; without an entry there is nothing to unlock. -/
theorem Rel.homeUnLock (rel : Rel b s a) {rq : Req Node} (mine : g.req b.wid rq) (op : rq.op = .unlock) :
    Matched g b (s.unLock b b.wid rq, [.released rq, .process b.wid]) a := by
  unfold BlockState.unLock
  rw [if_pos rfl]
  cases entry : s.entry with
  | none =>
    have ok := rel.home.entry
    rw [entry] at ok
    refine .single (.unLockNothing b.wid rq mine op ?_) (rel.setDirLocks ok)
    rw [if_pos rfl]
    exact ok.locks.symm
  | some e =>
    have ok := rel.home.entry
    rw [entry] at ok
    have same : (⟨a.home.dirState, a.home.sharers, a.dirLocks⟩ : DirEntry Node) = e := by
      rw [← ok.state, ← ok.sharers, ← ok.locks]; rfl
    have released : EntryOk (Directory.unLock rq.addr (some e)) a.home
        (Directory.releaseLock rq.addr e) := by
      unfold Directory.unLock
      by_cases drop : (e.state = .unshared && !Locks.isBlockLocked (Directory.releaseLock rq.addr e)) = true
      · simp only [drop, if_true]
        simp only [Bool.and_eq_true, decide_eq_true_eq, Bool.not_eq_true'] at drop
        refine ⟨drop.1.symm.trans ok.state, ?_, (Locks.eq_empty_of_not_locked drop.2).symm, fun _ h => by cases h⟩
        have unshared := Home.unshared_of_dirState (ok.state.symm.trans drop.1)
        rw [unshared]; rfl
      · simp only [drop]
        refine ⟨ok.state, ok.sharers, rfl, ?_⟩
        rintro e' stored unshared
        cases stored
        simpa [show e.state = .unshared from unshared] using drop
    refine .single ?_ (rel.setDirLocks released)
    rw [← same]
    exact .homeUnLock rq mine op

end Gam
