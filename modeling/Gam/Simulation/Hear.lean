import Gam.Simulation.Tell

/-! The home hears the answer of a worker it has asked. -/

namespace Gam

open BlockState
variable {Node : Type} [DecidableEq Node]

variable {g : Guard Node} {b : Block Node} {s : BlockState Node} {a : Abs Node} {n : Node} {r : Reply}
  {rest : List (Item Node)}

section
variable (rel : Rel b s a) (away : n ≠ b.wid)
include rel away

/-- The answer at the front of a channel to the home is the one the home waits for. -/
theorem Rel.told (front : s.chan n b.wid = .msg (.reply r) :: rest) :
    a.home.cmd n = .acked r ∧ (msgs rest).filterMap Msg.reply? = [] := by
  have acks : (a.home.cmd n).acks = r :: (msgs rest).filterMap Msg.reply? := by
    have := congrArg Mail.acks (rel.node n away).mail
    simpa [BlockState.side, BlockState.mail, Phase.mail, front] using this.symm
  cases cmd : a.home.cmd n with
  | quiet => simp [cmd, Cmd.acks] at acks
  | opened c => simp [cmd, Cmd.acks] at acks
  | acked r' =>
    simp only [cmd, Cmd.acks, List.cons.injEq] at acks
    exact ⟨by rw [acks.1], acks.2.symm⟩

/-- After an agreement nothing more is on its way to the home memory. -/
theorem Rel.no_writes_after {id : Nat} (front : s.chan n b.wid = .msg (.reply (.imm id)) :: rest) : mems rest = [] := by
  have framed := rel.framed n b.wid
  rw [front] at framed
  have punctual := (rel.node n away).punctual
  simp only [BlockState.side, front, msgs_msg, Punctual, List.pairwise_cons] at punctual
  refine framed.tail.mems_eq_nil fun m member => ?_
  cases m with
  | reply r =>
    have silent := (rel.told away front).2
    rw [List.filterMap_eq_nil_iff] at silent
    cases silent _ member
  | command c => rfl
  | request x =>
    have notBack := punctual.1 _ member rfl
    cases x with
    | writeBack id ptr => cases notBack
    | _ => rfl

/-- The home hears worker `n` and goes on to `home`. -/
theorem Rel.hear (front : s.chan n b.wid = .msg (.reply r) :: rest)
    (s' : BlockState Node) {home : Home Node} {locks : Locks Node} (entry : EntryOk s'.entry home locks)
    (pending : s'.pending = Function.update s.pending b.wid home.pending)
    (cmd : ∀ m, home.cmd m = if m = n then .quiet else a.home.cmd m)
    (owner : home.owner = a.home.owner ∨ ∀ m, mems ((s.setChan n b.wid rest).chan m b.wid) = [])
    (line : s'.line = s.line) (completions : s'.completions = s.completions)
    (chan : s'.chan = (s.setChan n b.wid rest).chan) (toServe : s'.toServe = s.toServe)
    (mem : s'.mem = s.mem) : Rel b s' ((a.setHome home).setDirLocks locks) := by
  have mems_eq : ∀ m, mems (s'.chan m b.wid) = mems (s.chan m b.wid) := by
    intro m
    rw [chan]
    by_cases same : m = n
    · subst m; simp [front]
    · simp [same]
  have sides : ∀ m, m ≠ b.wid → s'.side b m = (s.setChan n b.wid rest).side b m := by
    intro m notHome
    simp only [BlockState.side, BlockState.mail, line, completions, chan, toServe, pending,
      Function.update_of_ne notHome, setChan_line, setChan_completions,
      setChan_toServe, setChan_pending]
  refine ⟨⟨entry, ?_, ?_, ?_, ?_, ?_, ?_, ?_⟩, fun m notHome => ?_, ?_⟩
  · rw [pending, Function.update_self]; rfl
  · rw [line]; exact rel.home.line
  · rw [completions]; exact rel.home.completions
  · rw [chan]; simpa [Ne.symm away] using rel.home.chan
  · rw [toServe]; exact rel.home.clients
  · intro m some_
    rcases owner with same | none_
    · exact same.trans (rel.home.writers m (by rwa [mems_eq] at some_))
    · rw [chan, none_] at some_; exact absurd rfl some_
  · have before := rel.home.mem
    simp only [mems_eq, mem, Abs.setDirLocks_home, Abs.setHome_home, Abs.setDirLocks_mem, Abs.setHome_mem]
    rcases owner with same | none_
    · rw [same]; exact before
    · have none_ : ∀ m, mems (s.chan m b.wid) = [] := fun m => by rw [← mems_eq, chan, none_]
      rw [← before]
      cases home.owner <;> cases a.home.owner <;> simp [none_]
  · rw [sides m notHome]
    have shows := rel.node m notHome
    by_cases same : m = n
    · subst m
      have told := (rel.told away front).1
      have mail : s.mail b n = (a.phase n).mail (a.home.cmd n) := shows.mail
      have out : (s.side b n).out = .reply r :: msgs rest := by simp [BlockState.side, front]
      have punctual := shows.punctual
      rw [out] at punctual
      rw [side_pop_out b s n away, mail_pop_ack b s n away front]
      refine ⟨shows.line, shows.bare, shows.pending, shows.completions, ?_, shows.lines, shows.landed,
        punctual.tail, shows.timely⟩
      simp [mail, Phase.mail, cmd, told, Cmd.acks, Cmd.commands]
    · rw [side_setChan_of_ne b s m _ notHome (fun h => absurd h.symm same)]
      have loc : ((a.setHome home).setDirLocks locks).local m = a.local m := by
        simp [cmd, same]
      rw [loc]
      exact shows
  · intro x y
    rw [chan]
    exact rel.framed.pop front x y

/-- Once everyone who wrote to the home memory has agreed, all that data has landed. -/
theorem Rel.drained {id : Nat} (front : s.chan n b.wid = .msg (.reply (.imm id)) :: rest)
    (owner : ∀ m, a.home.owner = some m → m = n) (m : Node) : mems ((s.setChan n b.wid rest).chan m b.wid) = [] := by
  by_cases same : m = n
  · subst m
    simpa using rel.no_writes_after away front
  · have none_ : mems (s.chan m b.wid) = [] := by
      by_contra some_
      exact same (owner m (rel.home.writers m some_))
    simpa [same] using none_

/-- The last answer of a transaction: the pending work request goes. -/
theorem Rel.settles (front : s.chan n b.wid = .msg (.reply r) :: rest)
    {p : Pending Node} (awaited : a.home.pending = [p]) (single : ∀ m, m ≠ n → a.home.cmd m = .quiet)
    {entry : Option (DirEntry Node)} (home : Home Node) (settled : home.Settled) (ok : EntryOk entry home a.dirLocks)
    (owner : home.owner = a.home.owner ∨ ∀ m, mems ((s.setChan n b.wid rest).chan m b.wid) = []) :
    Rel b (((s.setChan n b.wid rest).setEntry entry).erasePending b.wid p.id) (a.setHome home) := by
  obtain ⟨done, quiet⟩ := Home.quiet_of_settled settled
  have before : s.pending b.wid = [p] := rel.home.pending.trans awaited
  refine rel.hear away front (((s.setChan n b.wid rest).setEntry entry).erasePending b.wid p.id) ok ?_ (fun m => ?_) owner rfl rfl rfl rfl rfl
  · simp [before, done]
  · rw [quiet]
    by_cases same : m = n
    · rw [if_pos same]
    · rw [if_neg same, single m same]

end

/-- The pending work request an answer belongs to. -/
theorem Rel.awaited (rel : Rel b s a) {p : Pending Node} (awaited : a.home.pending = [p]) :
    (s.setChan n b.wid rest).getPending b.wid p.id = some p := by
  have before : s.pending b.wid = [p] := rel.home.pending.trans awaited
  simp [BlockState.getPending, before]

/-! ### The owner has answered -/

theorem Home.cmdTo_told {o : GAddr Node} {c : Command Node} {refusal : Reply} {answer : Answer}
    (told : Home.cmdTo o c refusal answer n = .acked r) :
    n = o.wid ∧ ∃ ok, answer = .acked ok ∧ r = if ok then .imm c.id else refusal := by
  unfold Home.cmdTo at told
  split at told
  · next same =>
    refine ⟨same, ?_⟩
    cases answer with
    | opened => cases told
    | acked ok => cases ok <;> cases told <;> exact ⟨_, rfl, rfl⟩
  · cases told

section owner
variable {rq : Req Node} {x : Remote Node} {id : Nat} {flag : Flag} {o : GAddr Node}

/-- `ProcessPendingRead` for `FETCH_AND_SHARED`. -/
theorem Rel.pendingReadHome (rel : Rel b s a) (away : o.wid ≠ b.wid)
    (home : a.home = .fetchShared rq id flag o (.acked true))
    (front : s.chan o.wid b.wid = .msg (.reply (.imm id)) :: rest) :
    Matched g b ((s.setChan o.wid b.wid rest).processReply b b.wid o.wid (.imm id)) a := by
  have awaited : a.home.pending = [⟨.fetchAndShared, id, flag, 0, .success, some rq⟩] := by rw [home]; rfl
  have ok := rel.home.entry.fetched (by rw [home]; rfl)
  have drained := rel.drained away front (by rw [home]; simp [Home.owner])
  have base := rel.settles away front awaited (fun m other => by simp [home, Home.cmd, Home.cmdTo, other])
    (.shared [o]) trivial (by rw [home] at ok; exact ok) (Or.inr drained)
  simp only [BlockState.processReply, rel.awaited awaited, BlockState.processPending, BlockState.pendingReadHome]
  by_cases locked : flag.locked = true
  · simp only [if_pos locked]
    -- a shared block has no writer at the home
    obtain ⟨e, granted⟩ : ∃ e, Directory.rLock rq.addr (Directory.toShared none s.entry) = some e := by
      cases entry : Directory.toShared none s.entry with
      | none => exact ⟨_, rfl⟩
      | some e =>
        have state : e.state = .shared := by rw [entry] at ok; exact ok.state
        exact ⟨{ e with locks := Locks.share rq.addr e.locks }, by simp [Directory.rLock, Directory.isWLocked, state]⟩
    have granted' : Directory.rLock rq.addr (Directory.toShared none (s.setChan o.wid b.wid rest).entry) =
      some e := granted
    simp only [granted']
    exact .single (.fetchLockDone rq id flag o home locked)
      (base.setDirLocks (base.home.entry.rLock rq.addr granted).1)
  · simp only [if_neg locked]
    refine .single ?_ base
    rw [show (s.setChan o.wid b.wid rest).mem = a.mem from (base.no_writers rfl).2]
    exact .fetchDone rq id flag o home (by simpa using locked)

/-- `ProcessPendingReadForward`. -/
theorem Rel.pendingReadForward (rel : Rel b s a) (away : o.wid ≠ b.wid)
    (home : a.home = .readForward x id flag o (.acked true))
    (front : s.chan o.wid b.wid = .msg (.reply (.imm id)) :: rest) :
    Matched g b ((s.setChan o.wid b.wid rest).processReply b b.wid o.wid (.imm id)) a := by
  have awaited : a.home.pending = [⟨.readForward x, id, flag, 0, .success, none⟩] := by rw [home]; rfl
  have ok := rel.home.entry.fetched (by rw [home]; rfl)
  rw [home] at ok
  have drained := rel.drained away front (by rw [home]; simp [Home.owner])
  have base := rel.settles away front awaited (fun m other => by simp [home, Home.cmd, Home.cmdTo, other])
    (.shared [o, ⟨x.wid, x.ptr⟩]) trivial (ok.toShared trivial ⟨x.wid, x.ptr⟩) (Or.inr drained)
  simp only [BlockState.processReply, rel.awaited awaited, BlockState.processPending, BlockState.pendingReadForward]
  exact .single (.readForwardDone x id flag o home) base

/-- The write of the home goes through. -/
theorem Rel.finishHome (rq : Req Node) {t : BlockState Node} {p : Pending Node}
    (base : Rel b ((t.setEntry (Directory.toUnShared t.entry)).erasePending b.wid p.id) (a.setHome .unshared)) :
    ∃ a', Abs.HomeWritten b rq p.flag (a.setHome .unshared) (t.finishHome b p rq).2 a' ∧
      Rel b (t.finishHome b p rq).1 a' := by
  have mem : t.mem = a.mem := (base.no_writers rfl).2
  unfold BlockState.finishHome
  by_cases locked : p.flag.locked = true
  · simp only [if_pos locked]
    cases granted : Directory.wLock rq.addr (Directory.toUnShared t.entry) with
    | some e =>
      obtain ⟨ok, free⟩ := base.home.entry.wLock rfl rq.addr granted
      exact ⟨_, .granted locked free, base.setDirLocks ok⟩
    | none =>
      obtain ⟨k, held, positive⟩ := base.home.entry.wLock_none rq.addr granted
      exact ⟨_, .waits locked k held positive, base.addToServeLocal _ _⟩
  · simp only [if_neg locked, mem]
    exact ⟨_, .applied (by simpa using locked), base.setMem rfl _⟩

section
variable (rel : Rel b s a) (away : o.wid ≠ b.wid)
include rel away

/-- `ProcessPendingWrite` for `FETCH_AND_INVALIDATE`. -/
theorem Rel.pendingTakeHome (home : a.home = .fetchInvalidate rq id flag o (.acked true))
    (front : s.chan o.wid b.wid = .msg (.reply (.imm id)) :: rest) :
    Matched g b ((s.setChan o.wid b.wid rest).processReply b b.wid o.wid (.imm id)) a := by
  have awaited : a.home.pending = [⟨.fetchAndInvalidate, id, flag, 1, .success, some rq⟩] := by
    rw [home]; rfl
  have locks := (rel.home.entry.remove (by simp [home, Home.dirState]) o.wid).2.1
  have drained := rel.drained away front (by rw [home]; simp [Home.owner])
  have base := rel.settles away front awaited (fun m other => by simp [home, Home.cmd, Home.cmdTo, other])
    .unshared trivial (.toUnShared locks) (Or.inr drained)
  obtain ⟨a', written, rel'⟩ := Rel.finishHome rq
    (t := (s.setChan o.wid b.wid rest).setEntry (Directory.remove o.wid s.entry)) base
  simp only [BlockState.processReply, rel.awaited awaited, BlockState.processPending,
    BlockState.pendingWriteHome, BlockState.countReply, if_neg away]
  exact .single (.takeDone rq id flag o _ a' home written) rel'

/-- The owner has refused and keeps the block. -/
theorem Rel.undoDirty (front : s.chan o.wid b.wid = .msg (.reply r) :: rest) {p : Pending Node}
    (awaited : a.home.pending = [p]) (single : ∀ m, m ≠ o.wid → a.home.cmd m = .quiet)
    (sharers : a.home.sharers = [o]) (owner : a.home.owner = some o.wid) :
    Rel b (((s.setChan o.wid b.wid rest).setEntry (Directory.undoDirty s.entry)).erasePending b.wid p.id)
      (a.setHome (.dirty o)) := by
  have present : a.home.dirState ≠ .unshared := by
    intro unshared
    rw [Home.unshared_of_dirState unshared] at sharers
    cases sharers
  exact rel.settles away front awaited single (.dirty o) trivial
    (rel.home.entry.setState present rfl (by simp) sharers.symm) (Or.inl owner.symm)

theorem Rel.fetchRefused (home : a.home = .fetchShared rq id flag o (.acked false))
    (front : s.chan o.wid b.wid = .msg (.reply (.readReply id .lockFailed)) :: rest) :
    Matched g b ((s.setChan o.wid b.wid rest).processReply b b.wid o.wid (.readReply id .lockFailed)) a := by
  have awaited : a.home.pending = [⟨.fetchAndShared, id, flag, 0, .success, some rq⟩] := by rw [home]; rfl
  have base := rel.undoDirty away front awaited
    (fun m other => by simp [home, Home.cmd, Home.cmdTo, other]) (by rw [home]; rfl) (by rw [home]; rfl)
  simp only [BlockState.processReply, rel.awaited awaited, BlockState.processReadReply]
  exact .single (.fetchFailed rq id flag o home) base

theorem Rel.readForwardRefused (home : a.home = .readForward x id flag o (.acked false))
    (front : s.chan o.wid b.wid = .msg (.reply (.readReply id .lockFailed)) :: rest) :
    Matched g b ((s.setChan o.wid b.wid rest).processReply b b.wid o.wid (.readReply id .lockFailed)) a := by
  have awaited : a.home.pending = [⟨.readForward x, id, flag, 0, .success, none⟩] := by rw [home]; rfl
  have base := rel.undoDirty away front awaited
    (fun m other => by simp [home, Home.cmd, Home.cmdTo, other]) (by rw [home]; rfl) (by rw [home]; rfl)
  simp only [BlockState.processReply, rel.awaited awaited, BlockState.processReadReply]
  exact .single (.readForwardFailed x id flag o home) base

theorem Rel.takeRefused (home : a.home = .fetchInvalidate rq id flag o (.acked false))
    (front : s.chan o.wid b.wid = .msg (.reply (.writeReply id .lockFailed 0)) :: rest) :
    Matched g b ((s.setChan o.wid b.wid rest).processReply b b.wid o.wid (.writeReply id .lockFailed 0)) a := by
  have awaited : a.home.pending = [⟨.fetchAndInvalidate, id, flag, 1, .success, some rq⟩] := by
    rw [home]; rfl
  have base := rel.undoDirty away front awaited
    (fun m other => by simp [home, Home.cmd, Home.cmdTo, other]) (by rw [home]; rfl) (by rw [home]; rfl)
  simp only [BlockState.processReply, rel.awaited awaited, BlockState.failWriteReply, if_neg away]
  exact .single (.takeFailed rq id flag o home) base

end

/-- The home tells the requester of a forwarded write that the owner has answered. -/
theorem Rel.tellWriter {t : BlockState Node} {home : Home Node} (base : Rel b t (a.setHome home))
    (settled : home.Settled) (away : x.wid ≠ b.wid) {ok got : Bool}
    (phase : a.phase x.wid = .miss x.op x.ptr x.id flag rq (.hand o.wid ok got .due)) :
    Rel b (t.sendImm b.wid x.wid x.id)
      ((a.setPhase x.wid (.miss x.op x.ptr x.id flag rq (.hand o.wid ok got .onWay))).setHome home) := by
  have phase' : (a.setHome home).phase x.wid = _ := phase
  refine (base.almost away).tell away (.miss x.op x.ptr x.id flag rq (.hand o.wid ok got .onWay)) trivial
    ?_ ?_ ?_ ?_ (by simp [(Home.quiet_of_settled settled).2, Cmd.commands]) ?_ (Or.inl ⟨rfl, rfl, Or.inl ?_⟩) rfl rfl rfl (fun m other => ?_) ?_
  · simp [phase']
  · simp [phase']
  · simp [phase']
  · simp
  · cases got <;> simp [phase', Phase.mail]
  · cases ok <;> cases got <;> simp [phase']
  · simp [other]
  · simp

/-- `ProcessPendingWriteForward`, and the refusal. -/
theorem Rel.pendingWriteForward (rel : Rel b s a) (inv : Consistent b a) {ok : Bool}
    (home : a.home = .writeForward x id flag o (.acked ok)) (front : s.chan o.wid b.wid =
      .msg (.reply (if ok then .imm id else .writeReply id .lockFailed 0)) :: rest) :
    Matched g b ((s.setChan o.wid b.wid rest).processReply b b.wid o.wid
      (if ok then .imm id else .writeReply id .lockFailed 0)) a := by
  have awaited : a.home.pending = [⟨.writeForward x, id, flag, 0, .success, none⟩] := by rw [home]; rfl
  have wf := inv.home
  rw [home] at wf
  obtain ⟨away, requester, -, -⟩ := wf
  obtain ⟨rq, got, phase⟩ : (a.phase x.wid).IsHanded x flag o.wid ok := by
    have fits := inv.fits x.wid requester
    rw [home] at fits
    exact fits.2.2 rfl
  have single : ∀ m, m ≠ o.wid → a.home.cmd m = .quiet := fun m other => by
    simp [home, Home.cmd, Home.cmdTo, other]
  have row := Abs.Step.writeForwardDone (g := g) (b := b) x id flag o ok got rq home phase
  cases ok with
  | true =>
    have drained := rel.drained away front (by rw [home]; simp [Home.owner])
    have base := rel.settles away front awaited single (.dirty ⟨x.wid, x.ptr⟩) trivial
      (.toDirty rel.home.entry.locks _) (Or.inr drained)
    simp only [if_true, BlockState.processReply, rel.awaited awaited, BlockState.processPending,
      BlockState.pendingWriteForward]
    exact .single row (base.tellWriter trivial requester phase)
  | false =>
    have base := rel.undoDirty away front awaited single (by rw [home]; rfl) (by rw [home]; rfl)
    simp only [Bool.false_eq_true, if_false, BlockState.processReply, rel.awaited awaited, BlockState.failWriteReply]
    exact .single row (base.tellWriter trivial requester phase)

end owner

/-! ### A worker of the shared list has answered -/

section round
variable {rq : Req Node} {x : Remote Node} {id : Nat} {flag : Flag} {L : List (GAddr Node)}
  {answer : Node → Option Answer} {status : Status} {ok : Bool}

/-- The directory entry after an answer. -/
def heardEntry (n : Node) (ok : Bool) (entry : Option (DirEntry Node)) : Option (DirEntry Node) :=
  if ok then Directory.remove n entry else entry

theorem EntryOk.heard {entry : Option (DirEntry Node)} {home home' : Home Node} {locks : Locks Node}
    (ready : EntryOk entry home locks) (present : home.dirState ≠ .unshared)
    (state : home'.dirState = home.dirState) (sharers : home'.sharers = Home.hear home.sharers n ok)
    (left : home'.sharers ≠ []) : EntryOk (heardEntry n ok entry) home' locks := by
  cases ok with
  | true => exact ready.removed present state sharers left
  | false => exact ready.congr state sharers

/-- The answer was not the last one. -/
theorem Rel.goesOn (rel : Rel b s a) (away : n ≠ b.wid) (front : s.chan n b.wid = .msg (.reply r) :: rest)
    {home : Home Node} {p p' : Pending Node} (present : a.home.dirState ≠ .unshared)
    (awaited : a.home.pending = [p]) (same : p'.id = p.id) (pending : home.pending = [p'])
    (state : home.dirState = a.home.dirState) (sharers : home.sharers = Home.hear a.home.sharers n ok)
    (left : home.sharers ≠ []) (owner : home.owner = a.home.owner)
    (cmd : ∀ m, home.cmd m = if m = n then .quiet else a.home.cmd m) :
    Rel b (((s.setChan n b.wid rest).setEntry (heardEntry n ok s.entry)).setPending b.wid p') (a.setHome home) := by
  have before : s.pending b.wid = [p] := rel.home.pending.trans awaited
  refine rel.hear away front
    (((s.setChan n b.wid rest).setEntry (heardEntry n ok s.entry)).setPending b.wid p')
    (rel.home.entry.heard present state sharers left) ?_ cmd (Or.inl owner) rfl rfl rfl rfl rfl
  simp [before, pending, same]

theorem Home.told_of_answer {c : Command Node} {refusal : Reply}
    (told : (answer n).elim .quiet (Answer.cmd c refusal) = .acked r) :
    ∃ ok, answer n = some (.acked ok) ∧ r = if ok then .imm c.id else refusal := by
  cases asked : answer n with
  | none => simp [asked] at told
  | some x =>
    cases x with
    | opened => simp [asked, Answer.cmd] at told
    | acked ok =>
      refine ⟨ok, rfl, ?_⟩
      cases ok <;> simp [asked, Answer.cmd] at told <;> simp [told]

/-- A round of `INVALIDATE` for a request of the home, or of `INVALIDATE_FORWARD` for a request of
another worker. -/
def Home.round (who : Req Node ⊕ Remote Node) (id : Nat) (flag : Flag) (L : List (GAddr Node))
    (answer : Node → Option Answer) (status : Status) : Home Node :=
  who.elim (fun rq => .invalidate rq id flag L answer status)
    (fun x => .invalidateForward x id flag L answer status)

def roundPending (who : Req Node ⊕ Remote Node) (id : Nat) (flag : Flag) (counter : Int)
    (status : Status) : Pending Node :=
  who.elim (fun rq => ⟨.invalidate, id, flag, counter, status, some rq⟩)
    (fun x => ⟨.invalidateForward x, id, flag, counter, status, none⟩)

variable {who : Req Node ⊕ Remote Node}

section
variable (who id flag L answer status)

@[simp] theorem Home.round_pending : (Home.round who id flag L answer status).pending =
    [roundPending who id flag (Home.outstanding L answer) status] := by cases who <;> rfl

@[simp] theorem Home.round_sharers : (Home.round who id flag L answer status).sharers = L := by
  cases who <;> rfl

@[simp] theorem Home.round_owner : (Home.round who id flag L answer status).owner = none := by
  cases who <;> rfl

@[simp] theorem roundPending_id (counter : Int) : (roundPending who id flag counter status).id = id := by
  cases who <;> rfl

end

theorem Home.round_present : (Home.round who id flag L answer status).dirState ≠ .unshared := by
  cases who <;> simp [Home.round, Home.dirState]

theorem Home.round_dirState {L' : List (GAddr Node)} {answer' : Node → Option Answer} {status' : Status} :
    (Home.round who id flag L' answer' status').dirState = (Home.round who id flag L answer status).dirState := by
  cases who <;> rfl

theorem Home.round_books {h : Node} (wf : (Home.round who id flag L answer status).WellFormed h) :
    ListOk h L ∧ ∃ requester, RoundOk L answer requester status := by
  cases who with
  | inl rq => exact ⟨wf.1, _, wf.2⟩
  | inr x => exact ⟨wf.1, _, wf.2.1⟩

/-- All a round says about the workers is in the answers. -/
theorem Home.round_cmd : (Home.round who id flag L answer status).cmd n =
    (answer n).elim .quiet (Answer.cmd ⟨who.elim (fun _ => .invalidate) (fun _ => .invalidateForward), id,
      flag⟩ (.writeReply id .lockFailed 0)) := by
  cases who <;> rfl

section
variable (rel : Rel b s a) (inv : Consistent b a) (away : n ≠ b.wid)
    (home : a.home = .round who id flag L answer status)
include rel inv away home

/-- An answer that is not the last one. -/
theorem Rel.roundHeard (acked : answer n = some (.acked ok))
    (front : s.chan n b.wid = .msg (.reply r) :: rest) (more : Home.outstanding L answer ≠ 1) :
    Rel b (((s.setChan n b.wid rest).setEntry (heardEntry n ok s.entry)).setPending b.wid
      (roundPending who id flag (Home.outstanding L answer - 1) (Home.verdict status ok)))
      (a.setHome (.round who id flag (Home.hear L n ok) (Home.heard answer n) (Home.verdict status ok))) := by
  have wf := inv.home
  rw [home] at wf
  obtain ⟨list, requester, books⟩ := Home.round_books wf
  have busy : (answer n).isSome := by simp [acked]
  have left := list.outstanding_heard (books.listed n busy).1 busy ok
  have next := books.heard list acked more
  refine rel.goesOn away front (by rw [home]; exact Home.round_present)
    (by rw [home]; exact Home.round_pending ..) (by simp) (by simp [left])
    (by rw [home]; exact Home.round_dirState) (by simp [home]) ?_ (by simp [home]) (fun m => ?_)
  · obtain ⟨m, some_⟩ := next.open_
    obtain ⟨x, member, -⟩ := List.mem_map.mp (next.listed m some_).1
    simpa using List.ne_nil_of_mem member
  · rw [home, Home.round_cmd, Home.round_cmd]
    by_cases same : m = n
    · subst m; simp [Home.heard]
    · simp [Home.heard, same]

/-- The last answer, when somebody has refused. -/
theorem Rel.roundFailed (acked : answer n = some (.acked ok))
    (front : s.chan n b.wid = .msg (.reply r) :: rest) (last : Home.outstanding L answer = 1)
    (failed : Home.verdict status ok ≠ .success) : Rel b (((s.setChan n b.wid rest).setEntry
      (Directory.undoShared (heardEntry n ok s.entry))).erasePending b.wid id)
      (a.setHome (.shared (Home.hear L n ok))) := by
  have wf := inv.home
  rw [home] at wf
  obtain ⟨list, requester, books⟩ := Home.round_books wf
  have nonempty := Consistent.hear_ne_nil books acked failed
  have ready : EntryOk (heardEntry n ok s.entry)
      (.round who id flag (Home.hear L n ok) answer status) a.dirLocks :=
    rel.home.entry.heard (by rw [home]; exact Home.round_present) (by rw [home]; exact Home.round_dirState)
      (by simp [home]) (by simpa using nonempty)
  have base := rel.settles away front (p := roundPending who id flag (Home.outstanding L answer) status)
    (by rw [home]; exact Home.round_pending ..) (fun m other => ?_) (.shared (Home.hear L n ok)) trivial
    (ready.setState Home.round_present rfl (by simp [Home.dirState]) (Home.round_sharers ..).symm)
    (Or.inl (by rw [home, Home.round_owner]; rfl))
  · rwa [roundPending_id] at base
  · rw [home, Home.round_cmd, books.last list (by simp [acked]) last other]
    rfl

/-- The last answer, when everybody has agreed. -/
theorem Rel.roundDone (acked : answer n = some (.acked true))
    (front : s.chan n b.wid = .msg (.reply r) :: rest) (last : Home.outstanding L answer = 1)
    {entry : Option (DirEntry Node)} (next : Home Node) (settled : next.Settled)
    (ready : EntryOk entry next a.dirLocks) :
    Rel b (((s.setChan n b.wid rest).setEntry entry).erasePending b.wid id) (a.setHome next) := by
  have wf := inv.home
  rw [home] at wf
  obtain ⟨list, requester, books⟩ := Home.round_books wf
  have unowned : a.home.owner = none := by rw [home, Home.round_owner]
  have told := rel.told away front
  rw [home, Home.round_cmd, acked] at told
  obtain rfl : r = .imm id := by cases told.1; rfl
  have drained := rel.drained away front (by simp [unowned])
  have base := rel.settles away front (p := roundPending who id flag (Home.outstanding L answer) status)
    (by rw [home]; exact Home.round_pending ..) (fun m other => ?_) next settled ready (Or.inr drained)
  · rwa [roundPending_id] at base
  · rw [home, Home.round_cmd, books.last list (by simp [acked]) last other]
    rfl

end

theorem Rel.invalidateTold (rel : Rel b s a) (inv : Consistent b a) (away : n ≠ b.wid)
    (home : a.home = .invalidate rq id flag L answer status) (acked : answer n = some (.acked ok))
    (front : s.chan n b.wid = .msg (.reply (if ok then .imm id else .writeReply id .lockFailed 0)) :: rest) :
    Matched g b ((s.setChan n b.wid rest).processReply b b.wid n
      (if ok then .imm id else .writeReply id .lockFailed 0)) a := by
  have awaited : a.home.pending =
      [⟨.invalidate, id, flag, Home.outstanding L answer, status, some rq⟩] := by rw [home]; rfl
  have home' : a.home = .round (.inl rq) id flag L answer status := home
  have left : Home.outstanding L answer - 1 = 0 ↔ Home.outstanding L answer = 1 := by omega
  cases ok with
  | true =>
    simp only [if_true, BlockState.processReply, rel.awaited awaited, BlockState.processPending,
      BlockState.pendingWriteHome, BlockState.countReply, if_neg away, Bool.false_eq_true, if_false,
      or_false, left]
    by_cases last : Home.outstanding L answer = 1
    · by_cases failed : status = .success
      · subst failed
        have locks := (rel.home.entry.remove (by simp [home, Home.dirState]) n).2.1
        have base := rel.roundDone inv away home' acked front last .unshared trivial (.toUnShared locks)
        obtain ⟨a', written, rel'⟩ := Rel.finishHome rq
          (t := (s.setChan n b.wid rest).setEntry (Directory.remove n s.entry))
          (p := ⟨.invalidate, id, flag, Home.outstanding L answer, .success, some rq⟩) base
        simp only [ne_eq, not_true_eq_false, if_false, if_pos last]
        exact .single (.invalidateDone rq id flag L answer n _ a' home acked last written) rel'
      · simp only [ne_eq, failed, not_false_eq_true, if_true, if_pos last]
        exact .single (.invalidateFailed rq id flag L answer status n true home acked last failed)
          (rel.roundFailed inv away home' acked front last failed)
    · simp only [if_neg last, ite_self]
      exact .single (.invalidateHeard rq id flag L answer status n true home acked last)
        (rel.roundHeard inv away home' acked front last)
  | false =>
    simp only [Bool.false_eq_true, if_false, BlockState.processReply, rel.awaited awaited,
      BlockState.failWriteReply, if_neg away, left]
    by_cases last : Home.outstanding L answer = 1
    · simp only [if_pos last]
      exact .single (.invalidateFailed rq id flag L answer status n false home acked last (by simp [Home.verdict]))
        (rel.roundFailed inv away home' acked front last (by simp [Home.verdict]))
    · simp only [if_neg last]
      exact .single (.invalidateHeard rq id flag L answer status n false home acked last)
        (rel.roundHeard inv away home' acked front last)

section
variable {t : BlockState Node} {home : Home Node} (base : Rel b t (a.setHome home)) (settled : home.Settled)
    (away : x.wid ≠ b.wid) (phase : a.phase x.wid = .miss x.op x.ptr x.id flag rq .served)
include t home base settled away phase

/-- The home tells the requester of an invalidation round how it ended. -/
theorem Rel.tellRequester {items : List (Item Node)} {copy : Data}
    (data : items = [] ∧ copy = a.copy x.wid ∨ ok = true ∧ items = [.line x.ptr copy]) :
    Rel b (t.send b.wid x.wid (items ++ [.msg (.reply (x.op.answer x.id ok))]))
      (((a.setPhase x.wid (.miss x.op x.ptr x.id flag rq (.reply ok))).setHome home).post x.wid copy) := by
  have phase' : (a.setHome home).phase x.wid = _ := phase
  have sent : msgs (items ++ [.msg (.reply (x.op.answer x.id ok))]) =
      [.reply (x.op.answer x.id ok)] := by
    rcases data with ⟨rfl, -⟩ | ⟨-, rfl⟩ <;> simp
  have mine : (((a.setPhase x.wid (.miss x.op x.ptr x.id flag rq (.reply ok))).setHome home).post x.wid
      copy).local x.wid =
        ⟨.miss x.op x.ptr x.id flag rq (.reply ok), home.cmd x.wid, a.raw x.wid, copy, a.locks x.wid⟩ := by
    simp
  refine (base.almost away).tell away (.miss x.op x.ptr x.id flag rq (.reply ok)) ?_ ?_ ?_ ?_ ?_
    (by simp [(Home.quiet_of_settled settled).2, Cmd.commands]) ?_ ?_ rfl rfl rfl (fun m other => ?_) mine
  · rcases data with ⟨rfl, -⟩ | ⟨-, rfl⟩
    · trivial
    · exact ⟨⟨_, _, rfl, rfl⟩, trivial⟩
  · simp [phase']
  · simp [phase']
  · simp [phase']
  · simp [sent]
  · simp [sent, phase', Phase.mail]
  · rcases data with ⟨rfl, same⟩ | ⟨rfl, rfl⟩
    · exact Or.inl ⟨by simp, same, Or.inr (by simp [phase'])⟩
    · exact Or.inr ⟨x.ptr, by simp [phase'], by simp, rfl⟩
  · simp [other]

theorem Rel.tellFailure : Rel b (t.send b.wid x.wid [.msg (.reply (x.op.answer x.id false))])
      ((a.setPhase x.wid (.miss x.op x.ptr x.id flag rq (.reply false))).setHome home) := by
  have told : Rel b (t.send b.wid x.wid ([] ++ [.msg (.reply (x.op.answer x.id false))])) _ :=
    base.tellRequester settled away phase (Or.inl ⟨rfl, rfl⟩)
  rwa [show a.copy x.wid = ((a.setPhase x.wid (.miss x.op x.ptr x.id flag rq (.reply false))).setHome
    home).copy x.wid from rfl, Abs.post_self] at told

end

theorem Rel.invalidateForwardTold (rel : Rel b s a) (inv : Consistent b a) (away : n ≠ b.wid)
    (home : a.home = .invalidateForward x id flag L answer status) (acked : answer n = some (.acked ok))
    (front : s.chan n b.wid = .msg (.reply (if ok then .imm id else .writeReply id .lockFailed 0)) :: rest) :
    Matched g b ((s.setChan n b.wid rest).processReply b b.wid n
      (if ok then .imm id else .writeReply id .lockFailed 0)) a := by
  have awaited : a.home.pending =
      [⟨.invalidateForward x, id, flag, Home.outstanding L answer, status, none⟩] := by rw [home]; rfl
  have home' : a.home = .round (.inr x) id flag L answer status := home
  have left : Home.outstanding L answer - 1 = 0 ↔ Home.outstanding L answer = 1 := by omega
  have wf := inv.home
  rw [home] at wf
  obtain ⟨-, books, requester, write⟩ := wf
  obtain ⟨rq, phase⟩ : (a.phase x.wid).IsServed x flag := by
    have fits := inv.fits x.wid requester
    rw [home] at fits
    exact fits.2.2 rfl
  obtain ⟨granted, refused⟩ := AccessOp.answer_write write x.id
  cases ok with
  | true =>
    simp only [if_true, BlockState.processReply, rel.awaited awaited, BlockState.processPending,
      BlockState.pendingInvalidateForward, left]
    by_cases last : Home.outstanding L answer = 1
    · by_cases failed : status = .success
      · subst failed
        have removed := rel.home.entry.remove (by simp [home, Home.dirState]) n
        have base := rel.roundDone inv away home' acked front last (.dirty ⟨x.wid, x.ptr⟩) trivial
          (.toDirty removed.2.1 _)
        have mem : (s.setChan n b.wid rest).mem = a.mem := (rel.no_writers (by rw [home]; rfl)).2
        have gone : ((s.setChan n b.wid rest).setEntry (Directory.remove n s.entry)).dirState = .unshared ↔
            Home.hear L n true = [] ∧ a.dirLocks.isBlockLocked = false := by
          have state := removed.2.2
          rw [home] at state
          rw [BlockState.dirState, setEntry_entry, state]
          by_cases empty : Home.hear L n true = [] ∧ a.dirLocks.isBlockLocked = false
          · simp [Home.sharers, empty]
          · simp only [Home.sharers, Home.dirState, empty]
            simp
        have row := Abs.Step.invalidateForwardDone (g := g) (b := b) x id flag L answer n rq home acked last phase
        simp only [ne_eq, not_true_eq_false, if_false, if_pos last, BlockState.grantOwnership,
          setChan_entry, gone, setEntry_mem, mem]
        rw [← granted]
        refine .single row (base.tellRequester trivial requester phase ?_)
        by_cases data : x.op = .write ∨ (Home.hear L n true = [] ∧ a.dirLocks.isBlockLocked = false)
        · simp [data]
        · simp [data]
      · simp only [ne_eq, failed, not_false_eq_true, if_true, if_pos last, BlockState.undoInvalidateForward]
        rw [books.kind.resolve_left failed, ← refused]
        exact .single (.invalidateForwardFailed x id flag L answer status n true rq home acked last failed
          phase) ((rel.roundFailed inv away home' acked front last failed).tellFailure trivial requester phase)
    · simp only [if_neg last, ite_self]
      exact .single (.invalidateForwardHeard x id flag L answer status n true home acked last)
        (rel.roundHeard inv away home' acked front last)
  | false =>
    simp only [Bool.false_eq_true, if_false, BlockState.processReply, rel.awaited awaited,
      BlockState.failWriteReply, left]
    by_cases last : Home.outstanding L answer = 1
    · simp only [if_pos last, BlockState.undoInvalidateForward, ← refused]
      exact .single (.invalidateForwardFailed x id flag L answer status n false rq home acked last
        (by simp [Home.verdict]) phase) ((rel.roundFailed inv away home' acked front last
          (by simp [Home.verdict])).tellFailure trivial requester phase)
    · simp only [if_neg last]
      exact .single (.invalidateForwardHeard x id flag L answer status n false home acked last)
        (rel.roundHeard inv away home' acked front last)

end round

/-- An answer reaches the home. -/
theorem Rel.homeHears (rel : Rel b s a) (inv : Consistent b a) (away : n ≠ b.wid)
    (front : s.chan n b.wid = .msg (.reply r) :: rest) :
    Matched g b ((s.setChan n b.wid rest).processReply b b.wid n r) a := by
  have told := (rel.told away front).1
  cases home : a.home with
  | unshared | shared L | dirty o => rw [home] at told; cases told
  | fetchShared rq id flag o answer =>
    rw [home] at told
    obtain ⟨rfl, ok, rfl, rfl⟩ := Home.cmdTo_told told
    cases ok with
    | true => exact rel.pendingReadHome away home front
    | false => exact rel.fetchRefused away home front
  | readForward x id flag o answer =>
    rw [home] at told
    obtain ⟨rfl, ok, rfl, rfl⟩ := Home.cmdTo_told told
    cases ok with
    | true => exact rel.pendingReadForward away home front
    | false => exact rel.readForwardRefused away home front
  | fetchInvalidate rq id flag o answer =>
    rw [home] at told
    obtain ⟨rfl, ok, rfl, rfl⟩ := Home.cmdTo_told told
    cases ok with
    | true => exact rel.pendingTakeHome away home front
    | false => exact rel.takeRefused away home front
  | writeForward x id flag o answer =>
    rw [home] at told
    obtain ⟨rfl, ok, rfl, rfl⟩ := Home.cmdTo_told told
    exact rel.pendingWriteForward inv home front
  | invalidate rq id flag L answer status =>
    rw [home] at told
    obtain ⟨ok, acked, rfl⟩ := Home.told_of_answer told
    exact rel.invalidateTold inv away home acked front
  | invalidateForward x id flag L answer status =>
    rw [home] at told
    obtain ⟨ok, acked, rfl⟩ := Home.told_of_answer told
    exact rel.invalidateForwardTold inv away home acked front

end Gam
