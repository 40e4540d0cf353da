import Gam.Branches
import Gam.Simulation.Owner

/-! The commands of the home, one by one. -/

namespace Gam

open Function
variable {Node : Type} [DecidableEq Node]
variable {g : Guard Node} {b : Block Node} {s : BlockState Node} {a : Abs Node} {n : Node}
variable {q : List (Node × Msg Node)} {c : Command Node}

/-- `ProcessRemoteReadCache` at the owner: it puts the command off, refuses it, or shares the
block, from a dirty line or from one on its way out. -/
theorem Rel.readCommand (rel : Rel b (s.extend n ((b.wid, .command c) :: q)) a) (away : n ≠ b.wid)
    (wf : (a.phase n).WellFormed) {p : Nat} (owns : (a.phase n).Owns p)
    (refuse : c.flag.tryLock = true → Matched g b ((s.refuseRead n b.wid c .lockFailed).extend n q, []) a)
    (evicting : ∀ id, a.phase n = .evicting p id → (a.locks n).isBlockWLocked = false →
      Matched g b ((s.shareLine n b.wid c (a.copy n)).extend n q, []) a)
    (dirty : ∀ l, s.line n = some l → a.phase n = .dirty p → (a.locks n).isBlockWLocked = false →
      Matched g b (((s.shareLine n b.wid c (a.copy n)).setLine n (some (Cache.setState .shared l))).extend n q, []) a) :
    Matched g b ((s.processRemoteReadCache n b.wid c).extend n q, []) a := by
  obtain ⟨l, line, locks, data, state⟩ := rel.owner_line away wf owns
  have line : s.line n = some l := line
  simp only [BlockState.processRemoteReadCache, line]
  rcases state with state | state
  · simp only [if_pos state, BlockState.extend_addToServe]
    exact .stay rel
  have settled : l.state ≠ .toDirty := by
    rcases state with ⟨state, -⟩ | ⟨state, -⟩ <;> simp [state]
  have source : (a.phase n).source b.wid = none := by
    rcases state with ⟨-, phase⟩ | ⟨-, id, phase⟩ <;> rw [phase] <;> rfl
  have copy : l.data = a.copy n := data.trans (rel.raw_eq_copy away source)
  simp only [if_neg settled, copy, locks]
  refine .tried refuse (fun _ _ => ?_) fun locked => ?_
  · rw [BlockState.extend_addToServe]
    exact .stay rel
  · rcases state with ⟨state, phase⟩ | ⟨state, id, phase⟩
    · simp only [state, CacheState.inTransition, Bool.false_eq_true, if_false]
      exact dirty l line phase (by simpa using locked)
    · simp only [state, CacheState.inTransition, if_true]
      exact evicting id phase (by simpa using locked)

/-- `ProcessRemoteWriteCache` for a command to the owner: it puts the command off, refuses it, or
gives the block up, from a dirty line or from one on its way out. -/
theorem Rel.writeCommand (rel : Rel b (s.extend n ((b.wid, .command c) :: q)) a) (away : n ≠ b.wid)
    (owner : c.op.isInvalidate = false) (newId : Nat)
    (wf : (a.phase n).WellFormed) {p : Nat} (owns : (a.phase n).Owns p)
    (refuse : c.flag.tryLock = true → Matched g b ((s.refuseWrite n b.wid c .lockFailed).extend n q, []) a)
    (evicting : ∀ id l, l.data = a.copy n → a.phase n = .evicting p id →
      Matched g b ((s.surrender n b.wid c l true newId).extend n q, []) a)
    (dirty : ∀ l, s.line n = some l → l.data = a.copy n → a.phase n = .dirty p → (a.locks n).isBlockLocked = false →
      Matched g b ((s.surrender n b.wid c l false newId).extend n q, []) a) :
    Matched g b ((s.processRemoteWriteCache n b.wid c newId).extend n q, []) a := by
  obtain ⟨l, line, locks, data, state⟩ := rel.owner_line away wf owns
  have line : s.line n = some l := line
  simp only [BlockState.processRemoteWriteCache, line, owner, Bool.false_and, Bool.false_or]
  rcases state with state | state
  · simp [state, CacheState.inTransition, BlockState.extend_addToServe]
    exact .stay rel
  have source : (a.phase n).source b.wid = none := by
    rcases state with ⟨-, phase⟩ | ⟨-, id, phase⟩ <;> rw [phase] <;> rfl
  have copy : l.data = a.copy n := data.trans (rel.raw_eq_copy away source)
  rcases state with ⟨state, phase⟩ | ⟨state, id, phase⟩
  · simp only [state, CacheState.inTransition, reduceCtorEq, decide_false, Bool.not_false,
      Bool.and_true, Bool.false_eq_true, if_false, locks]
    refine .tried refuse (fun _ _ => ?_) fun locked => dirty l line copy phase (by simpa using locked)
    rw [BlockState.extend_addToServe]
    exact .stay rel
  · simp only [state, CacheState.inTransition, decide_true, Bool.not_true, Bool.and_false,
      Bool.false_eq_true, if_false, if_true, locks]
    exact .tried refuse (fun _ _ => evicting id l copy phase) fun _ => evicting id l copy phase

/-- A dirty line becomes a shared one. -/
theorem Rel.toSharedLine (rel : Rel b s a) (away : n ≠ b.wid) {l : CacheLine Node} {p : Nat}
    (line : s.line n = some l) (phase : a.phase n = .dirty p) :
    Rel b (s.setLine n (some (Cache.setState .shared l))) (a.setPhase n (.shared p)) := by
  have shows := rel.node n away
  obtain ⟨lineEq, locks, data⟩ := rel.line_some away line
  have ptr : l.ptr = p := by rw [phase] at lineEq; simp at lineEq; exact lineEq.2.symm
  refine rel.become away (.shared p) (a.locks n) rfl
    (fun m other => ⟨by simp [other], rfl, rfl⟩) ?_ ?_ ?_ ?_ ?_ ?_ ?_ ?_ ?_ rfl rfl rfl
    (fun m other => by simp [other]) (by simp)
  · simp [Cache.setState, locks, data, ptr]
  · simp
  · simpa [phase, BlockState.side] using shows.pending
  · simpa [phase, BlockState.side] using shows.completions
  all_goals simp [phase]

/-- A dirty line is given up, and the worker waits for the completion of what it has sent. -/
theorem Rel.leave (rel : Rel b s a) (away : n ≠ b.wid) {l : CacheLine Node} {p : Nat}
    (line : s.line n = some l) (phase : a.phase n = .dirty p) (flag : Flag) (newId : Nat) :
    Rel b (((s.addPending n ⟨.pendingInvalidate, newId, flag, 0, .success, none⟩).setLine n
      (some (Cache.setState .toInvalid l))).signal n newId) (a.setPhase n (.leaving p newId flag)) := by
  have shows := rel.node n away
  obtain ⟨lineEq, locks, data⟩ := rel.line_some away line
  have ptr : l.ptr = p := by rw [phase] at lineEq; simp at lineEq; exact lineEq.2.symm
  have pending : s.pending n = [] := by
    simpa [phase, BlockState.side] using shows.pending
  have completions : s.completions n = [] := by
    simpa [phase, BlockState.side] using shows.completions
  refine rel.become away (.leaving p newId flag) (a.locks n) rfl
    (fun m other => ⟨by simp [other], by simp [other], by simp [other]⟩) ?_ ?_ ?_ ?_ ?_ ?_ ?_ ?_ ?_
    rfl rfl rfl (fun m other => by simp [other]) (by simp)
  · simp [Cache.setState, locks, data, ptr]
  · simp
  · simp [pending]
  · simp [completions]
  all_goals simp [phase]

/-- The new state of the home after the answer of its owner. -/
theorem Home.cmdTo_acked {o : GAddr Node} {c : Command Node} {refusal : Reply} (ok : Bool) (m : Node) :
    Home.cmdTo o c refusal (.acked ok) m = if m = o.wid then .acked (if ok then .imm c.id else refusal)
      else Home.cmdTo o c refusal .opened m := by
  by_cases same : m = o.wid <;> cases ok <;> simp [Home.cmdTo, same, Answer.cmd]

/-- The owner answers with its copy. -/
theorem Rel.ackData (rel : Rel b (s.extend n ((b.wid, .command c) :: q)) a) (away : n ≠ b.wid) {home : Home Node}
    (owner : a.home.owner = some n) (answers : Home.Answers a.home home n (.imm c.id)) :
    Rel b ((s.extend n q).send n b.wid [.mem (a.copy n), .msg (.reply (.imm c.id))])
      ((a.setHome home).setMem (a.copy n)) :=
  rel.ack away _ _ ⟨⟨_, _, rfl, rfl⟩, trivial⟩ rfl answers (Or.inr ⟨rfl, owner⟩)

/-- A worker answers without data. -/
theorem Rel.ackPlain (rel : Rel b (s.extend n ((b.wid, .command c) :: q)) a) (away : n ≠ b.wid) {home : Home Node}
    {reply : Reply} (answers : Home.Answers a.home home n reply) :
    Rel b ((s.extend n q).send n b.wid [.msg (.reply reply)]) (a.setHome home) :=
  rel.ack away _ a.mem trivial rfl answers (Or.inl ⟨rfl, rfl⟩)

/-- Sends to different workers can be exchanged. -/
theorem Rel.swap {x y y' : Node} {items items' : List (Item Node)}
    (rel : Rel b ((s.send x y items).send x y' items') a) (other : y ≠ y') :
    Rel b ((s.send x y' items').send x y items) a := by
  rwa [s.send_comm x y' x y items' items (Or.inr (Ne.symm other))]

section commands
variable {rq : Req Node} {id : Nat} {flag : Flag} {o : GAddr Node} {r : Remote Node}

/-- `FETCH_AND_SHARED`. -/
theorem Rel.fetchSharedCommand (rel : Rel b (s.extend o.wid ((b.wid, .command ⟨.fetchAndShared, id, flag⟩) :: q)) a)
    (inv : Consistent b a) (home : a.home = .fetchShared rq id flag o .opened) :
    Matched g b ((s.processRemoteReadCache o.wid b.wid ⟨.fetchAndShared, id, flag⟩).extend o.wid q, []) a := by
  have away : o.wid ≠ b.wid := by have wf := inv.home; rwa [home] at wf
  have fits := inv.fits o.wid away
  rw [home] at fits
  have answers : ∀ ok : Bool, Home.Answers a.home (.fetchShared rq id flag o (.acked ok)) o.wid
      (if ok then .imm id else .readReply id .lockFailed) := by
    rw [home]
    exact fun ok => ⟨rfl, rfl, rfl, rfl, Home.cmdTo_acked ok⟩
  have acked := rel.ackData away (by rw [home]; rfl) (answers true)
  refine rel.readCommand away (inv.phase _ away) (fits.1.2 rfl) (fun tried => ?_)
    (fun id' phase unlocked => ?_) (fun l line phase unlocked => ?_)
  · exact .single (.fetchRefused rq id flag o tried home) (rel.ackPlain away (answers false))
  · refine .single (.fetched rq id flag o (a.phase o.wid) home (Or.inr ⟨⟨id', phase⟩, rfl⟩) unlocked) ?_
    rw [Abs.setPhase_self]
    exact acked
  · refine .single (.fetched rq id flag o (.shared o.off) home (Or.inl ⟨phase, rfl⟩) unlocked) ?_
    exact acked.toSharedLine away line phase

/-- `FETCH_AND_INVALIDATE`. -/
theorem Rel.fetchInvalidateCommand
    (rel : Rel b (s.extend o.wid ((b.wid, .command ⟨.fetchAndInvalidate, id, flag⟩) :: q)) a)
    (inv : Consistent b a) (home : a.home = .fetchInvalidate rq id flag o .opened) (newId : Nat) :
    Matched g b ((s.processRemoteWriteCache o.wid b.wid ⟨.fetchAndInvalidate, id, flag⟩ newId).extend
      o.wid q, []) a := by
  have away : o.wid ≠ b.wid := by have wf := inv.home; rwa [home] at wf
  have fits := inv.fits o.wid away
  rw [home] at fits
  have answers : ∀ ok : Bool, Home.Answers a.home (.fetchInvalidate rq id flag o (.acked ok)) o.wid
      (if ok then .imm id else .writeReply id .lockFailed 0) := by
    rw [home]
    exact fun ok => ⟨rfl, rfl, rfl, rfl, Home.cmdTo_acked ok⟩
  have acked := rel.ackData away (by rw [home]; rfl) (answers true)
  refine rel.writeCommand away rfl newId (inv.phase _ away) (fits.1.2 rfl) (fun tried => ?_)
    (fun id' l copy phase => ?_) (fun l line copy phase unlocked => ?_)
  · exact .single (.takeRefused rq id flag o tried home) (rel.ackPlain away (answers false))
  · refine .single (.taken rq id flag o (a.phase o.wid) 0 home (Or.inr ⟨⟨id', phase⟩, rfl⟩)) ?_
    rw [Abs.setPhase_self]
    simp only [BlockState.surrender, if_true, copy]
    exact acked
  · refine .single (.taken rq id flag o (.leaving o.off newId flag) newId home (Or.inl ⟨phase, unlocked, rfl⟩)) ?_
    simp only [BlockState.surrender, Bool.false_eq_true, if_false, copy]
    exact acked.leave away line phase flag newId

/-- The requester hears from the owner. -/
theorem Rel.handed {s' : BlockState Node} {a' : Abs Node} (rel : Rel b s' a') {m m' : Node} (away : m ≠ b.wid)
    (notHome : m' ≠ b.wid) {op : AccessOp} {ptr : Nat} {stage : Stage Node} (copy : Data)
    (phase : a'.phase m' = .miss op ptr id flag rq .served)
    (next : stage = .peer m true ∨ stage = .hand m true false .due) :
    Rel b (s'.send m m' [.line ptr copy, .msg (.reply (.imm id))])
      ((a'.setPhase m' (.miss op ptr id flag rq stage)).post m' copy) :=
  rel.handOver away notHome _ true phase next ⟨⟨_, _, rfl, rfl⟩, trivial⟩ rfl (Or.inr ⟨rfl, rfl⟩) rfl rfl rfl
    (fun x ne => by simp [ne]) (by simp)

/-- The requester of a forwarded access. -/
theorem Consistent.forwarded_read (inv : Consistent b a) (home : a.home = .readForward r id flag o .opened) :
    o.wid ≠ b.wid ∧ r.wid ≠ b.wid ∧ r.wid ≠ o.wid ∧ r.op = .read ∧ (a.phase o.wid).Owns o.off ∧
      ∃ rq, a.phase r.wid = .miss r.op r.ptr r.id flag rq .served := by
  have wf := inv.home
  rw [home] at wf
  have fits := inv.fits o.wid wf.1
  have fits' := inv.fits r.wid wf.2.1
  rw [home] at fits fits'
  exact ⟨wf.1, wf.2.1, wf.2.2.1, wf.2.2.2, fits.1.2 rfl, fits'.2.2 rfl⟩

theorem Consistent.forwarded_write (inv : Consistent b a) (home : a.home = .writeForward r id flag o .opened) :
    o.wid ≠ b.wid ∧ r.wid ≠ b.wid ∧ r.wid ≠ o.wid ∧ r.op ≠ .read ∧ (a.phase o.wid).Owns o.off ∧
      ∃ rq, a.phase r.wid = .miss r.op r.ptr r.id flag rq .served := by
  have wf := inv.home
  rw [home] at wf
  have fits := inv.fits o.wid wf.1
  have fits' := inv.fits r.wid wf.2.1
  rw [home] at fits fits'
  exact ⟨wf.1, wf.2.1, wf.2.2.1, wf.2.2.2, fits.1.2 rfl, fits'.2.2 rfl⟩

/-- `READ_FORWARD`. -/
theorem Rel.readForwardCommand
    (rel : Rel b (s.extend o.wid ((b.wid, .command ⟨.readForward r.ptr r.id r.wid, id, flag⟩) :: q)) a)
    (inv : Consistent b a) (home : a.home = .readForward r id flag o .opened) :
    Matched g b ((s.processRemoteReadCache o.wid b.wid ⟨.readForward r.ptr r.id r.wid, id, flag⟩).extend
      o.wid q, []) a := by
  obtain ⟨away, notHome, other, read, owns, rq, phaseR⟩ := inv.forwarded_read home
  have answers : ∀ ok : Bool, Home.Answers a.home (.readForward r id flag o (.acked ok)) o.wid
      (if ok then .imm id else .readReply id .lockFailed) := by
    rw [home]
    exact fun ok => ⟨rfl, rfl, rfl, rfl, Home.cmdTo_acked ok⟩
  have acked := rel.ackData away (by rw [home]; rfl) (answers true)
  refine rel.readCommand away (inv.phase _ away) owns (fun tried => ?_)
    (fun id' phase unlocked => ?_) (fun l line phase unlocked => ?_)
  · refine .single (.readForwardRefused r id flag o tried home rq phaseR) ?_
    exact (rel.ackPlain away (answers false)).handOver away notHome [.msg (.reply (.readReply r.id .lockFailed))] false
      phaseR (Or.inl rfl) trivial (by rw [read]; rfl) (Or.inl ⟨rfl, rfl⟩) rfl rfl rfl
      (fun x ne => by simp [ne]) (by simp)
  · refine .single (.readForwardAnswered r id flag o (a.phase o.wid) home rq phaseR
      (Or.inr ⟨⟨id', phase⟩, rfl⟩) unlocked) ?_
    rw [Abs.setPhase_self]
    exact (acked.handed away notHome (a.copy o.wid) phaseR (Or.inl rfl)).swap (Ne.symm notHome)
  · refine .single (.readForwardAnswered r id flag o (.shared o.off) home rq phaseR (Or.inl ⟨phase, rfl⟩) unlocked) ?_
    have shared := acked.toSharedLine away line phase
    have next := shared.handed away notHome (a.copy o.wid) (by simpa [other] using phaseR) (Or.inl rfl)
    exact Rel.swap (s := (s.extend o.wid q).setLine o.wid (some (Cache.setState .shared l))) next
      (Ne.symm notHome)

/-- `WRITE_FORWARD`. -/
theorem Rel.writeForwardCommand
    (rel : Rel b (s.extend o.wid ((b.wid, .command ⟨.writeForward r.ptr r.id r.wid, id, flag⟩) :: q)) a)
    (inv : Consistent b a) (home : a.home = .writeForward r id flag o .opened) (newId : Nat) :
    Matched g b ((s.processRemoteWriteCache o.wid b.wid ⟨.writeForward r.ptr r.id r.wid, id, flag⟩
      newId).extend o.wid q, []) a := by
  obtain ⟨away, notHome, other, write, owns, rq, phaseR⟩ := inv.forwarded_write home
  have answers : ∀ ok : Bool, Home.Answers a.home (.writeForward r id flag o (.acked ok)) o.wid
      (if ok then .imm id else .writeReply id .lockFailed 0) := by
    rw [home]
    exact fun ok => ⟨rfl, rfl, rfl, rfl, Home.cmdTo_acked ok⟩
  have acked := rel.ackPlain away (answers true)
  refine rel.writeCommand away rfl newId (inv.phase _ away) owns (fun tried => ?_)
    (fun id' l copy phase => ?_) (fun l line copy phase unlocked => ?_)
  · refine .single (.writeForwardRefused r id flag o tried home rq phaseR) ?_
    refine (rel.ackPlain away (answers false)).handOver away notHome [.msg (.reply (.writeReply r.id .lockFailed 0))] false
      phaseR (Or.inr rfl) trivial ?_ (Or.inl ⟨rfl, rfl⟩) rfl rfl rfl (fun x ne => by simp [ne]) (by simp)
    cases op : r.op with
    | read => exact absurd op write
    | _ => rfl
  · refine .single (.writeForwardAnswered r id flag o (a.phase o.wid) 0 home rq phaseR (Or.inr ⟨⟨id', phase⟩, rfl⟩)) ?_
    rw [Abs.setPhase_self]
    simp only [BlockState.surrender, if_true, copy]
    exact (acked.handed away notHome (a.copy o.wid) phaseR (Or.inr rfl)).swap (Ne.symm notHome)
  · refine .single (.writeForwardAnswered r id flag o (.leaving o.off newId flag) newId home rq phaseR
      (Or.inl ⟨phase, unlocked, rfl⟩)) ?_
    have left := acked.leave away line phase flag newId
    have next := left.handed away notHome (a.copy o.wid) (by simpa [other] using phaseR) (Or.inr rfl)
    simp only [BlockState.surrender, Bool.false_eq_true, if_false, copy]
    exact Rel.swap (s := (((s.extend o.wid q).addPending o.wid
      ⟨.pendingInvalidate, newId, flag, 0, .success, none⟩).setLine o.wid
        (some (Cache.setState .toInvalid l))).signal o.wid newId) next (Ne.symm notHome)

end commands

/-! ### Invalidations -/

/-- `ProcessRemoteWriteCache` for an invalidation of a copy: it is put off or refused, or the
worker agrees and keeps what it has, or drops its copy. -/
theorem Rel.invalidateCommand (rel : Rel b (s.extend n ((b.wid, .command c) :: q)) a)
    (away : n ≠ b.wid) (inval : c.op = .invalidate ∨ c.op = .invalidateForward) (newId : Nat)
    (exclusive : ¬ (a.phase n).Exclusive) {p : Nat} (shares : (a.phase n).Shares p)
    (allowed : s.acksLocked n c = true → g.ack a n) (refuse : c.flag.tryLock = true →
      Matched g b ((s.send n b.wid [.msg (.reply (.writeReply c.id .lockFailed 0))]).extend n q, []) a)
    (keep : a.Invalidated g n (a.phase n) → Matched g b ((s.sendImm n b.wid c.id).extend n q, []) a)
    (drop : ∀ ptr, a.phase n = .shared ptr → (a.locks n).isBlockLocked = false →
      Matched g b (((s.sendImm n b.wid c.id).setLine n none).extend n q, []) a) :
    Matched g b ((s.processRemoteWriteCache n b.wid c newId).extend n q, []) a := by
  have op : c.op.isInvalidate = true := by rcases inval with op | op <;> rw [op] <;> rfl
  have refusal : s.refuseWrite n b.wid c .lockFailed =
      s.send n b.wid [.msg (.reply (.writeReply c.id .lockFailed 0))] := by
    rcases inval with op | op <;> simp [BlockState.refuseWrite, op]
  have stays : ∀ l, s.surrender n b.wid c l true newId = s.sendImm n b.wid c.id := fun l => by
    rcases inval with op | op <;> simp [BlockState.surrender, op]
  have gives : ∀ l, s.surrender n b.wid c l false newId = (s.sendImm n b.wid c.id).setLine n none :=
    fun l => by rcases inval with op | op <;> simp [BlockState.surrender, op]
  cases line : s.line n with
  | none =>
    obtain ⟨ai, phase⟩ := (rel.node n away).line_none line
    have phase : a.phase n = .absent ai := phase
    simp only [BlockState.processRemoteWriteCache, line, op, if_true]
    exact keep (by rw [phase]; exact .lacks ai phase)
  | some l =>
    obtain ⟨lineEq, locks, -⟩ := rel.line_some away line
    simp only [BlockState.processRemoteWriteCache, line, op, Bool.true_and, locks, refusal]
    cases state : l.state with
    | toShared =>
      simp [CacheState.inTransition, BlockState.extend_addToServe]
      exact .stay rel
    | dirty =>
      rw [state] at lineEq
      rw [Phase.of_line_dirty lineEq] at exclusive
      exact absurd trivial exclusive
    | shared =>
      rw [state] at lineEq
      simp only [CacheState.inTransition, reduceCtorEq, decide_false, Bool.or_self, Bool.not_false,
        Bool.and_true, Bool.false_eq_true, if_false, gives]
      refine .tried refuse (fun _ _ => ?_) fun locked => drop l.ptr (Phase.of_line_shared lineEq) (by simpa using locked)
      rw [BlockState.extend_addToServe]
      exact .stay rel
    | toDirty =>
      rw [state] at lineEq
      obtain ⟨aop, id, flag, rq, stage, write, phase⟩ := Phase.of_line_toDirty lineEq
      have agreed := fun allowed => keep (by
        rw [phase]
        exact .writes aop l.ptr id flag rq stage phase write (rel.unanswered away) allowed)
      simp only [CacheState.inTransition, decide_true, Bool.true_or, Bool.not_true, Bool.and_false,
        Bool.false_eq_true, if_false, if_true, stays]
      refine .tried refuse (fun locked tried => agreed fun _ => allowed ?_) fun locked => agreed fun held => absurd held locked
      simp [BlockState.acksLocked, line, op, state, locks, locked, tried]
    | toInvalid =>
      rw [state] at lineEq
      -- a line that was taken over is not listed any more
      have evicting : ∃ id, a.phase n = .evicting l.ptr id := by
        rcases Phase.of_line_toInvalid lineEq with phase | ⟨id, phase⟩ | ⟨id, flag, phase⟩
        · exact phase
        · rw [phase] at shares; exact shares.elim
        · rw [phase] at shares; exact shares.elim
      obtain ⟨id, phase⟩ := evicting
      have agreed := keep (by rw [phase]; exact .evicts l.ptr id phase)
      simp only [CacheState.inTransition, decide_true, Bool.or_true, Bool.not_true, Bool.and_false,
        Bool.false_eq_true, if_false, if_true, stays]
      exact .tried refuse (fun _ _ => agreed) fun _ => agreed

/-- An unlocked shared line is dropped. -/
theorem Rel.dropLine (rel : Rel b s a) (away : n ≠ b.wid) {ptr : Nat} (phase : a.phase n = .shared ptr)
    (unlocked : (a.locks n).isBlockLocked = false) : Rel b (s.setLine n none) (a.setPhase n (.absent none)) := by
  have shows := rel.node n away
  refine rel.become away (.absent none) (a.locks n) rfl (fun m other => ⟨by simp [other], rfl, rfl⟩)
    ?_ (fun _ => Locks.eq_empty_of_not_locked unlocked) ?_ ?_ ?_ ?_ ?_ ?_ ?_ rfl rfl rfl
    (fun m other => by simp [other]) (by simp)
  · simp
  · simpa [phase, BlockState.side] using shows.pending
  · simpa [phase, BlockState.side] using shows.completions
  all_goals simp [phase]

/-- An invalidation of a copy, for either kind of round. -/
theorem Rel.invalidateShared (rel : Rel b (s.extend n ((b.wid, .command c) :: q)) a)
    (away : n ≠ b.wid) (inval : c.op = .invalidate ∨ c.op = .invalidateForward) (newId : Nat)
    (exclusive : ¬ (a.phase n).Exclusive) {p : Nat} (shares : (a.phase n).Shares p)
    (allowed : s.acksLocked n c = true → g.ack a n) {next : Bool → Home Node}
    (answers : ∀ ok : Bool, Home.Answers a.home (next ok) n (if ok then .imm c.id else .writeReply c.id .lockFailed 0))
    (refused : c.flag.tryLock = true → Abs.Step g b a [] (a.setHome (next false)))
    (agreed : ∀ ph, a.Invalidated g n ph → Abs.Step g b a [] ((a.setPhase n ph).setHome (next true))) :
    Matched g b ((s.processRemoteWriteCache n b.wid c newId).extend n q, []) a := by
  have acked := fun ok => rel.ackPlain away (answers ok)
  refine rel.invalidateCommand away inval newId exclusive shares allowed (fun tried => ?_) (fun gives => ?_)
    (fun ptr phase unlocked => ?_)
  · exact .single (refused tried) (acked false)
  · refine .single (agreed _ gives) ?_
    rw [Abs.setPhase_self]
    exact acked true
  · exact .single (agreed _ (.drops ptr phase unlocked)) ((acked true).dropLine away phase unlocked)

section rounds
variable {rq : Req Node} {r : Remote Node} {id : Nat} {flag : Flag} {L : List (GAddr Node)}
variable {answer : Node → Option Answer} {status : Status}

theorem Home.outstanding_answered (asked : answer n = some .opened) (ok : Bool) :
    Home.outstanding L (update answer n (some (.acked ok))) = Home.outstanding L answer := by
  unfold Home.outstanding
  congr 1
  refine List.countP_congr fun x _ => ?_
  by_cases same : x.wid = n
  · simp [same, asked]
  · simp [same]

/-- Somebody who is asked shares the block. -/
theorem Home.RoundOk.shares {requester : Option Node} {ph : Phase Node}
    (round : Home.RoundOk L answer requester status) (fits : Home.ListFits L answer n ph)
    (asked : answer n = some .opened) : ∃ x ∈ L, x.wid = n ∧ ph.Shares x.off := by
  obtain ⟨x, member, rfl⟩ := List.mem_map.mp (round.listed n (by rw [asked]; rfl)).1
  exact ⟨x, member, rfl, fits.2 x.off member (by rw [asked]; simp)⟩

theorem Home.answered_cmd {c : Command Node} {refusal : Reply} (ok : Bool) (m : Node) :
    (update answer n (some (.acked ok)) m).elim .quiet (Answer.cmd c refusal) =
      if m = n then .acked (if ok then .imm c.id else refusal) else (answer m).elim .quiet (Answer.cmd c refusal) := by
  by_cases same : m = n
  · subst m; cases ok <;> simp [Answer.cmd]
  · simp [same]

/-- `INVALIDATE`. -/
theorem Rel.invalidateOwn
    (rel : Rel b (s.extend n ((b.wid, .command ⟨.invalidate, id, flag⟩) :: q)) a) (inv : Consistent b a)
    (home : a.home = .invalidate rq id flag L answer status) (asked : answer n = some .opened)
    (newId : Nat) (allowed : s.acksLocked n ⟨.invalidate, id, flag⟩ = true → g.ack a n) :
    Matched g b ((s.processRemoteWriteCache n b.wid ⟨.invalidate, id, flag⟩ newId).extend n q, []) a := by
  have wf := inv.home
  rw [home] at wf
  obtain ⟨x, member, rfl⟩ := List.mem_map.mp (wf.2.listed n (by rw [asked]; rfl)).1
  have away := wf.1.away x member
  have fits := inv.fits x.wid away
  rw [home] at fits
  obtain ⟨y, -, -, shares⟩ := wf.2.shares fits.1 asked
  have answers : ∀ ok : Bool, Home.Answers a.home (.invalidate rq id flag L (update answer x.wid (some (.acked ok))) status)
      x.wid (if ok then .imm id else .writeReply id .lockFailed 0) := by
    rw [home]
    exact fun ok => ⟨rfl, rfl, by simp only [Home.pending, Home.outstanding_answered asked], rfl, Home.answered_cmd ok⟩
  exact rel.invalidateShared away (Or.inl rfl) newId fits.1.1 shares allowed answers
    (.invalidateRefused rq id flag L answer status x.wid home asked)
    (fun ph => .invalidated rq id flag L answer status x.wid ph home asked)

/-- `INVALIDATE_FORWARD`. -/
theorem Rel.invalidateFor (rel : Rel b (s.extend n ((b.wid, .command ⟨.invalidateForward, id, flag⟩) :: q)) a)
    (inv : Consistent b a) (home : a.home = .invalidateForward r id flag L answer status)
    (asked : answer n = some .opened) (newId : Nat)
    (allowed : s.acksLocked n ⟨.invalidateForward, id, flag⟩ = true → g.ack a n) :
    Matched g b ((s.processRemoteWriteCache n b.wid ⟨.invalidateForward, id, flag⟩ newId).extend n q, []) a := by
  have wf := inv.home
  rw [home] at wf
  obtain ⟨x, member, rfl⟩ := List.mem_map.mp (wf.2.1.listed n (by rw [asked]; rfl)).1
  have away := wf.1.away x member
  have fits := inv.fits x.wid away
  rw [home] at fits
  obtain ⟨y, -, -, shares⟩ := wf.2.1.shares fits.1 asked
  have answers : ∀ ok : Bool, Home.Answers a.home
      (.invalidateForward r id flag L (update answer x.wid (some (.acked ok))) status)
      x.wid (if ok then .imm id else .writeReply id .lockFailed 0) := by
    rw [home]
    exact fun ok => ⟨rfl, rfl, by simp only [Home.pending, Home.outstanding_answered asked], rfl, Home.answered_cmd ok⟩
  exact rel.invalidateShared away (Or.inr rfl) newId fits.1.1 shares allowed answers
    (.invalidateForwardRefused r id flag L answer status x.wid home asked)
    (fun ph => .invalidatedForward r id flag L answer status x.wid ph home asked)

end rounds

/-- Everything in the queue of a caching worker is a command of the home. -/
theorem Rel.is_command {e : Node × Msg Node} (rel : Rel b (s.extend n (e :: q)) a) (away : n ≠ b.wid) :
    ∃ c, e = (b.wid, .command c) := by
  have stray := congrArg Mail.stray (rel.node n away).mail
  obtain ⟨client, x⟩ := e
  have none_ : strayCommands b.wid (s.toServe n ++ (client, x) :: q) = 0 := by
    simp only [BlockState.side, BlockState.mail, Phase.mail, BlockState.extend_toServe, update_self] at stray
    omega
  have good := List.countP_eq_zero.mp none_ (client, x) (by simp)
  cases x with
  | command c =>
    have : client = b.wid := by simpa using good
    exact ⟨c, by rw [this]⟩
  | request r => simp at good
  | reply r => simp at good

/-- A caching worker processes a command of the home. -/
theorem Rel.serveCommand {e : Node × Msg Node} (rel : Rel b (s.extend n (e :: q)) a)
    (inv : Consistent b a) (away : n ≠ b.wid) (newId : Nat)
    (allowed : ∀ c, e.2 = .command c → s.acksLocked n c = true → g.ack a n) :
    Matched g b ((s.processRequest b n e.1 e.2 newId).extend n q, []) a := by
  obtain ⟨c, rfl⟩ := rel.is_command away
  have asks := Home.asks_of_opened (rel.only_command away)
  generalize home : a.home = h at asks
  cases asks with
  | fetchShared rq id flag o mine => subst mine; exact rel.fetchSharedCommand inv home
  | readForward r id flag o mine => subst mine; exact rel.readForwardCommand inv home
  | fetchInvalidate rq id flag o mine => subst mine; exact rel.fetchInvalidateCommand inv home newId
  | writeForward r id flag o mine => subst mine; exact rel.writeForwardCommand inv home newId
  | invalidate rq id flag L answer status asked => 
    exact rel.invalidateOwn inv home asked newId (allowed _ rfl)
  | invalidateForward r id flag L answer status asked => 
    exact rel.invalidateFor inv home asked newId (allowed _ rfl)

end Gam
