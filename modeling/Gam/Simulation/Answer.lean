import Gam.Branches
import Gam.Simulation.Owner

/-! Answers and data reach a caching worker. -/

namespace Gam

open BlockState
variable {Node : Type} [DecidableEq Node]
variable {g : Guard Node} {b : Block Node} {s s' : BlockState Node} {a : Abs Node} {n src : Node}
variable {rest : List (Item Node)} {r : Reply}

/-- The next answer for worker `n`, in phase `ph`, comes from `src`, and `next` says what is left
of the mail. -/
inductive Phase.Hears (h : Node) (ph : Phase Node) (src : Node) (r : Reply) : Prop
  | home (mine : src = h) (replies : ph.replies = [r])
  | peer (away : src ≠ h) (replies : ph.peer src = [.reply r])

theorem Phase.replies_singleton {ph : Phase Node} {tail : List Reply} (eq : ph.replies = r :: tail) : tail = [] := by
  cases ph with
  | miss op ptr id flag rq stage =>
    cases stage with
    | reply ok => simp at eq; exact eq.2
    | hand o ok got home => cases home <;> simp at eq; exact eq.2
    | _ => simp at eq
  | evicted ptr id => simp at eq; exact eq.2
  | _ => simp at eq

theorem Phase.peer_singleton {ph : Phase Node} {m : Msg Node} {tail : List (Msg Node)}
    (eq : ph.peer src = m :: tail) : tail = [] ∧ ∃ r, m = .reply r := by
  cases ph with
  | miss op ptr id flag rq stage =>
    cases stage with
    | peer o ok =>
      by_cases same : src = o <;> simp [same] at eq
      exact ⟨eq.2, _, eq.1.symm⟩
    | hand o ok got home =>
      cases got with
      | true => simp at eq
      | false =>
        by_cases same : src = o <;> simp [same] at eq
        exact ⟨eq.2, _, eq.1.symm⟩
    | _ => simp at eq
  | _ => simp at eq

section
variable (rel : Rel b s a) (away : n ≠ b.wid) (front : s.chan src n = .msg (.reply r) :: rest)
include rel away front

/-- An answer at the front of a channel is the one the phase expects. -/
theorem Rel.hears : (a.phase n).Hears b.wid src r := by
  have mail : s.mail b n = (a.phase n).mail (a.home.cmd n) := (rel.node n away).mail
  by_cases mine : src = b.wid
  · subst mine
    have replies : (a.phase n).replies = r :: (msgs rest).filterMap Msg.reply? := by
      have := congrArg Mail.replies mail
      simpa [BlockState.mail, Phase.mail, front] using this.symm
    refine .home rfl ?_
    rw [replies, Phase.replies_singleton replies]
  · have peer : (a.phase n).peer src = .reply r :: msgs rest := by
      have := congrFun (congrArg Mail.peer mail) src
      simpa [BlockState.mail, Phase.mail, front, mine] using this.symm
    refine .peer mine ?_
    rw [peer, (Phase.peer_singleton peer).1]

/-- No more answers are on the channel after the one the phase expects. -/
theorem Rel.rest_silent : (msgs rest).filterMap Msg.reply? = [] := by
  have mail : s.mail b n = (a.phase n).mail (a.home.cmd n) := (rel.node n away).mail
  by_cases mine : src = b.wid
  · subst mine
    have replies : (a.phase n).replies = r :: (msgs rest).filterMap Msg.reply? := by
      have := congrArg Mail.replies mail
      simpa [BlockState.mail, Phase.mail, front] using this.symm
    exact Phase.replies_singleton replies
  · have peer : (a.phase n).peer src = .reply r :: msgs rest := by
      have := congrFun (congrArg Mail.peer mail) src
      simpa [BlockState.mail, Phase.mail, front, mine] using this.symm
    rw [(Phase.peer_singleton peer).1]
    rfl

/-- The data that comes ahead of an answer has landed when the answer arrives. -/
theorem Rel.landed (source : (a.phase n).source b.wid = none ∨ ∃ p, (a.phase n).source b.wid = some (src, p)) :
    (∀ o, lines (s.chan o n) = []) ∧ a.raw n = a.copy n := by
  have shows := rel.node n away
  have none_ : ∀ o, lines (s.chan o n) = [] := by
    intro o
    refine List.eq_nil_iff_forall_not_mem.mpr fun x member => ?_
    have found : (a.phase n).source b.wid = some (o, x.1) := shows.lines o x member
    rcases source with source | ⟨p, source⟩
    · rw [source] at found; cases found
    · rw [source] at found
      obtain ⟨rfl, -⟩ := Prod.mk.inj (Option.some.inj found)
      have framed := rel.framed src n
      rw [front] at framed member
      rw [lines_msg, framed.tail.lines_eq_nil (rel.rest_silent away front)] at member
      cases member
  refine ⟨none_, ?_⟩
  have landed := shows.landed
  cases source : (a.phase n).source b.wid with
  | none => simpa [-Phase.source, source] using landed
  | some o => simpa [-Phase.source, source, BlockState.side, none_] using landed

/-- Worker `n` takes an answer from a channel and enters phase `ph`. -/
theorem Rel.receive (ph : Phase Node) (t : Locks Node) {raw copy : Data} {a' : Abs Node}
    (frame : s' = { s.setChan src n rest with line := s'.line, pending := s'.pending, toServeLocal := s'.toServeLocal })
    (others : ∀ m, m ≠ n → s'.line m = s.line m ∧ s'.pending m = s.pending m)
    (line : s'.line n = ph.line.map fun x => ⟨x.2, x.1, t, raw⟩)
    (bare : ph.line = none → t = ∅) (pending : s'.pending n = ph.pending)
    (completions : ph.completions = (a.phase n).completions)
    (mail : (s.setChan src n rest).mail b n = ph.mail (a.home.cmd n))
    (sources : ∀ o, ∀ x ∈ lines (s.chan o n), ph.source b.wid = some (o, x.1))
    (landed : (ph.source b.wid).elim raw (fun o => settle ((lines (s.chan o.1 n)).map Prod.snd) raw) = copy)
    (home : a'.home = a.home) (dirLocks : a'.dirLocks = a.dirLocks) (memEq : a'.mem = a.mem)
    (unchanged : ∀ m, m ≠ n → a'.local m = a.local m)
    (mine : a'.local n = ⟨ph, a.home.cmd n, raw, copy, t⟩) : Rel b s' a' := by
  have chan : s'.chan = (s.setChan src n rest).chan := by rw [frame]
  have toServe : s'.toServe = s.toServe := by rw [frame]; rfl
  have entry : s'.entry = s.entry := by rw [frame]; rfl
  have mem : s'.mem = s.mem := by rw [frame]; rfl
  have done : s'.completions = s.completions := by rw [frame]; rfl
  have mailEq : ∀ m, s'.mail b m = (s.setChan src n rest).mail b m := fun m => by
    simp only [BlockState.mail, chan, toServe, setChan_toServe]
  have linesEq : ∀ o m, lines (s'.chan o m) = lines (s.chan o m) := fun o m => by
    rw [chan]
    by_cases here : o = src ∧ m = n
    · obtain ⟨rfl, rfl⟩ := here
      simp [front]
    · simp only [setChan_chan, if_neg here]
  have toHome : ∀ m, s'.chan m b.wid = s.chan m b.wid := fun m => by
    rw [chan]; simp [Ne.symm away]
  have fromHome : ∀ m, m ≠ n → s'.chan b.wid m = s.chan b.wid m := fun m other => by
    rw [chan]; simp [other]
  have atHome := others b.wid (Ne.symm away)
  refine rel.only (n := n) (rel.home.congr entry atHome.2 atHome.1 (by rw [done]) (toHome _)
    (by rw [toServe]) mem (fun m => by rw [toHome]) home dirLocks memEq)
    (by intro x y; rw [chan]; exact (rel.framed.pop front) x y) (fun m _ other => ?_) (fun _ => ?_)
  · obtain ⟨lineEq, pendingEq⟩ := others m other
    refine ⟨?_, unchanged m other⟩
    simp [BlockState.side, lineEq, pendingEq, done, mailEq, linesEq, toHome, fromHome m other, toServe,
      mail_setChan_of_ne b s m rest other (fun _ => away)]
  · have shows := rel.node n away
    rw [mine]
    exact {
      line := line
      bare := bare
      pending := pending
      completions := by
        rw [completions]
        simpa [BlockState.side, done] using shows.completions
      mail := by simp only [BlockState.side, mailEq]; exact mail
      lines := fun o x member => sources o x (by simpa [BlockState.side, linesEq] using member)
      landed := by simpa [BlockState.side, linesEq] using landed
      punctual := by simpa [BlockState.side, toHome] using shows.punctual
      timely := by
        have pop := shows.timely.sublist (s.inbox_pop b n src front)
        simpa only [BlockState.side, chan, toServe, setChan_toServe] using pop }

end

/-- After the answer from `src` nothing is left to be said to a worker in phase `ph`. -/
structure Phase.Finishes (h : Node) (ph : Phase Node) (src : Node) : Prop where
  requests : ph.requests = []
  others : (src = h ∧ ph.peer = fun _ => []) ∨ (src ≠ h ∧ ph.replies = [] ∧ ∀ o, o ≠ src → ph.peer o = [])
  source : ph.source h = none ∨ ∃ p, ph.source h = some (src, p)
  completions : ph.completions = []

/-- A phase without mail. -/
structure Phase.Silent (h : Node) (ph : Phase Node) : Prop where
  requests : ph.requests = []
  replies : ph.replies = []
  peer : ph.peer = fun _ => []
  source : ph.source h = none
  completions : ph.completions = []

/-- The last answer for worker `n` arrives. -/
theorem Rel.finish (rel : Rel b s a) (away : n ≠ b.wid) (front : s.chan src n = .msg (.reply r) :: rest)
    (last : (a.phase n).Finishes b.wid src) (ph : Phase Node) (silent : ph.Silent b.wid) (t : Locks Node)
    (raw : Data) {a' : Abs Node} (frame : s' = { s.setChan src n rest with
      line := s'.line, pending := s'.pending, toServeLocal := s'.toServeLocal })
    (others : ∀ m, m ≠ n → s'.line m = s.line m ∧ s'.pending m = s.pending m)
    (line : s'.line n = ph.line.map fun x => ⟨x.2, x.1, t, raw⟩)
    (bare : ph.line = none → t = ∅) (pending : s'.pending n = ph.pending)
    (home : a'.home = a.home) (dirLocks : a'.dirLocks = a.dirLocks) (memEq : a'.mem = a.mem)
    (unchanged : ∀ m, m ≠ n → a'.local m = a.local m)
    (mine : a'.local n = ⟨ph, a.home.cmd n, raw, raw, t⟩) : Rel b s' a' := by
  have mail : s.mail b n = (a.phase n).mail (a.home.cmd n) := (rel.node n away).mail
  have none_ := (rel.landed away front last.source).1
  refine rel.receive away front ph t frame others line bare pending
    (silent.completions.trans last.completions.symm) ?_ (fun o x member => ?_) ?_ home dirLocks memEq
    unchanged mine
  · have hears := rel.hears away front
    rcases last.others with ⟨mineH, peer⟩ | ⟨notH, replies, peer⟩
    · subst mineH
      rw [mail_pop_reply _ _ _ away front, mail]
      cases hears with
      | peer other _ => exact absurd rfl other
      | home _ replies =>
        simp [-Phase.requests, -Phase.replies, -Phase.peer, Phase.mail, last.requests, peer, replies, silent.requests, silent.replies,
          silent.peer]
    · rw [mail_pop_peer _ _ _ _ away notH front, mail]
      cases hears with
      | home mineH _ => exact absurd mineH notH
      | peer _ answers =>
        simp [-Phase.requests, -Phase.replies, -Phase.peer, Phase.mail, last.requests, replies, answers, silent.requests,
          silent.replies, silent.peer]
        funext o
        by_cases same : o = src
        · simp [same]
        · simp [-Phase.peer, same, peer o same]
  · rw [none_] at member
    cases member
  · rw [silent.source]
    rfl

theorem Phase.silent_shared (h : Node) (ptr : Nat) : (Phase.shared ptr).Silent h :=
  ⟨rfl, rfl, rfl, rfl, rfl⟩

theorem Phase.silent_dirty (h : Node) (ptr : Nat) : (Phase.dirty ptr).Silent h :=
  ⟨rfl, rfl, rfl, rfl, rfl⟩

theorem Phase.silent_absent (h : Node) : (Phase.absent none : Phase Node).Silent h :=
  ⟨rfl, rfl, rfl, rfl, rfl⟩

/-! ### The end of a miss or an upgrade -/

section finish
variable {op : AccessOp} {ptr id : Nat} {flag : Flag} {rq : Req Node} {stage : Stage Node}
variable {p : Pending Node}

/-- The line and the pending work of a worker that waits for an answer. -/
theorem Rel.waiting (rel : Rel b s a) (away : n ≠ b.wid) (phase : a.phase n = .miss op ptr id flag rq stage) :
    s.line n = some ⟨ptr, if op = .read then .toShared else .toDirty, a.locks n, a.raw n⟩ ∧
      s.pending n = [⟨.access op, id, flag, stage.counter, stage.status, some rq⟩] := by
  have shows := rel.node n away
  have line := shows.line
  have pending := shows.pending
  rw [show (a.local n).phase = _ from phase] at line pending
  exact ⟨line, pending⟩

theorem Rel.erased (rel : Rel b s a) (away : n ≠ b.wid) (phase : a.phase n = .miss op ptr id flag rq stage) :
    (s.pending n).filter (fun p => decide (p.id ≠ id)) = [] := by
  rw [(rel.waiting away phase).2]
  simp

section
variable (rel : Rel b s a) (away : n ≠ b.wid) (front : s.chan src n = .msg (.reply r) :: rest)
include rel away front

/-- `ProcessPendingRead` at a caching worker. -/
theorem Rel.pendingReadCache (phase : a.phase n = .miss op ptr id flag rq stage) (answer : (a.phase n).ReadAnswer true)
    (last : (a.phase n).Finishes b.wid src) (pId : p.id = id) (pFlag : p.flag = flag) :
    Matched g b ((s.setChan src n rest).pendingReadCache n p rq) a := by
  obtain ⟨line, -⟩ := rel.waiting away phase
  have erased := rel.erased away phase
  have landed := (rel.landed away front last.source).2
  have line' : (s.setChan src n rest).line n = _ := line
  simp only [BlockState.pendingReadCache, line', pFlag, pId]
  by_cases locked : flag.locked = true
  · simp only [if_pos locked]
    by_cases taken : Cache.isWLocked rq.addr (a.locks n) = true
    · simp only [Cache.rLock, Cache.setState, taken, if_true]
      refine .single (.rLockLost n rq away op ptr id flag stage phase answer locked taken landed) ?_
      exact rel.finish away front last (.shared ptr) (Phase.silent_shared _ _) (a.locks n) (a.copy n) rfl
        (fun m other => ⟨by simp [other], by simp [other]⟩) (by simp [landed])
        (fun h => by simp at h) (by simpa using erased) rfl rfl rfl
        (fun m other => by simp [other]) (by simp [landed])
    · simp only [Cache.rLock, Cache.setState, taken, Bool.false_eq_true, if_false]
      refine .single (.rLockDone n rq away op ptr id flag stage phase answer locked (by simpa using taken) landed) ?_
      exact rel.finish away front last (.shared ptr) (Phase.silent_shared _ _)
        (Locks.share rq.addr (a.locks n)) (a.copy n) rfl
        (fun m other => ⟨by simp [other], by simp [other]⟩) (by simp [landed])
        (fun h => by simp at h) (by simpa using erased) rfl rfl rfl
        (fun m other => by simp [other]) (by simp [landed])
  · simp only [if_neg locked, Cache.setState]
    rw [landed]
    refine .single (.readDone n rq away op ptr id flag stage phase answer (by simpa using locked) landed) ?_
    exact rel.finish away front last (.shared ptr) (Phase.silent_shared _ _) (a.locks n) (a.copy n) rfl
      (fun m other => ⟨by simp [other], by simp [other]⟩) (by simp)
      (fun h => by simp at h) (by simpa using erased) rfl rfl rfl
      (fun m other => by simp [other]) (by simp [landed])

/-- `ProcessRemoteReadReply` at a caching worker. -/
theorem Rel.processReadReply (phase : a.phase n = .miss op ptr id flag rq stage) (answer : (a.phase n).ReadAnswer false)
    (last : (a.phase n).Finishes b.wid src) : Matched g b (((s.setChan src n rest).setLine n none).erasePending n id,
      [.refused rq, .notify rq, .process n]) a := by
  have erased := rel.erased away phase
  refine .single (.readFailed n rq away op ptr id flag stage phase answer) ?_
  exact rel.finish away front last (.absent none) (Phase.silent_absent _) ∅ (a.copy n) rfl
    (fun m other => ⟨by simp [other], by simp [other]⟩) (by simp)
    (fun _ => rfl) (by simpa using erased) rfl rfl rfl
    (fun m other => by simp [other]) (by simp [(rel.landed away front last.source).2])

/-- The end of a successful write. -/
theorem Rel.finishAccess (phase : a.phase n = .miss op ptr id flag rq stage) (answer : (a.phase n).LastAnswer true)
    (last : (a.phase n).Finishes b.wid src) (pId : p.id = id) (pFlag : p.flag = flag) :
    Matched g b ((s.setChan src n rest).finishAccess b n p rq) a := by
  obtain ⟨line, -⟩ := rel.waiting away phase
  have erased := rel.erased away phase
  have landed := (rel.landed away front last.source).2
  have line' : (s.setChan src n rest).line n = _ := line
  simp only [BlockState.finishAccess, line', pFlag, pId]
  by_cases locked : flag.locked = true
  · simp only [if_pos locked]
    by_cases taken : (Cache.isWLocked rq.addr (a.locks n) || Cache.isRLocked rq.addr (a.locks n)) = true
    · simp only [Cache.wLock, Cache.setState, taken, if_true]
      refine .single (.wLockWaits n rq away op ptr id flag stage phase answer locked
        (Cache.locked_of_taken taken) landed) ?_
      exact rel.finish away front last (.dirty ptr) (Phase.silent_dirty _ _) (a.locks n) (a.copy n) rfl
        (fun m other => ⟨by simp [other], by simp [other]⟩) (by simp [landed])
        (fun h => by simp at h) (by simpa using erased) rfl rfl rfl
        (fun m other => by simp [other]) (by simp [landed])
    · simp only [Cache.wLock, Cache.setState, taken, Bool.false_eq_true, if_false]
      simp only [Bool.or_eq_true, not_or, Bool.not_eq_true] at taken
      refine .single (.wLockDone n rq away op ptr id flag stage phase answer locked taken.1 taken.2 landed) ?_
      exact rel.finish away front last (.dirty ptr) (Phase.silent_dirty _ _)
        (Locks.exclude rq.addr (a.locks n)) (a.copy n) rfl
        (fun m other => ⟨by simp [other], by simp [other]⟩) (by simp [landed])
        (fun h => by simp at h) (by simpa using erased) rfl rfl rfl
        (fun m other => by simp [other]) (by simp [landed])
  · simp only [if_neg locked]
    rw [landed]
    refine .single (.writeDone n rq away op ptr id flag stage phase answer (by simpa using locked) landed) ?_
    exact rel.finish away front last (.dirty ptr) (Phase.silent_dirty _ _) (a.locks n)
      (rq.apply b (a.copy n)) rfl
      (fun m other => ⟨by simp [other], by simp [other]⟩) (by simp)
      (fun h => by simp at h) (by simpa using erased) rfl rfl rfl
      (fun m other => by simp [other]) (by simp)

/-- The end of a failed write. -/
theorem Rel.undoAccess (write : op ≠ .read)
    (phase : a.phase n = .miss op ptr id flag rq stage) (answer : (a.phase n).LastAnswer false)
    (last : (a.phase n).Finishes b.wid src) (pId : p.id = id) (allowed : op = .writePermissionOnly → g.undo a n) :
    Matched g b ((s.setChan src n rest).undoAccess n op p rq) a := by
  obtain ⟨line, -⟩ := rel.waiting away phase
  have erased := rel.erased away phase
  have landed := (rel.landed away front last.source).2
  simp only [BlockState.undoAccess, pId]
  cases op with
  | read => exact absurd rfl write
  | write =>
    refine .single (.writeFailed n rq away ptr id flag stage phase answer) ?_
    exact rel.finish away front last (.absent none) (Phase.silent_absent _) ∅ (a.copy n) rfl
      (fun m other => ⟨by simp [other], by simp [other]⟩) (by simp)
      (fun _ => rfl) (by simpa using erased) rfl rfl rfl
      (fun m other => by simp [other]) (by simp [landed])
  | writePermissionOnly =>
    refine .single (.undoUpgrade n rq away ptr id flag stage phase answer (allowed rfl)) ?_
    exact rel.finish away front last (.shared ptr) (Phase.silent_shared _ _) (a.locks n) (a.copy n) rfl
      (fun m other => ⟨by simp [other], by simp [other]⟩) (by simp [line, Cache.setState, landed])
      (fun h => by simp at h) (by simpa using erased) rfl rfl rfl
      (fun m other => by simp [other]) (by simp [landed])

/-- The first of the two answers of a hand-over. -/
theorem Rel.firstAnswer (next : Stage Node) {status : Status} {counter : Int}
    (phase : a.phase n = .miss op ptr id flag rq stage)
    (counterEq : next.counter = counter) (statusEq : next.status = status) (mail : (s.setChan src n rest).mail b n =
      (Phase.miss op ptr id flag rq next).mail (a.home.cmd n)) (sources : ∀ o, ∀ x ∈ lines (s.chan o n),
      (Phase.miss op ptr id flag rq next).source b.wid = some (o, x.1))
    (landed : ((Phase.miss op ptr id flag rq next).source b.wid).elim (a.raw n)
      (fun o => settle ((lines (s.chan o.1 n)).map Prod.snd) (a.raw n)) = a.copy n) :
    Rel b ((s.setChan src n rest).setPending n ⟨.access op, id, flag, counter, status, some rq⟩)
      (a.setPhase n (.miss op ptr id flag rq next)) := by
  obtain ⟨line, pending⟩ := rel.waiting away phase
  refine rel.receive away front (.miss op ptr id flag rq next) (a.locks n) rfl
    (fun m other => ⟨rfl, by simp [other]⟩) (by simp [line])
    (fun h => by simp at h) (by simp [-Stage.counter, -Stage.status, pending, counterEq, statusEq])
    (by simp [phase]) mail sources landed rfl rfl rfl
    (fun m other => by simp [other]) (by simp)

end

end finish

/-! ### All answers -/

/-- The home acknowledges a write-back. -/
theorem Rel.pendingEvictDirty (rel : Rel b s a) (away : n ≠ b.wid)
    (front : s.chan src n = .msg (.reply r) :: rest) {ptr id : Nat} (phase : a.phase n = .evicted ptr id)
    (home : src = b.wid) {p : Pending Node} (pId : p.id = id) :
    Matched g b ((s.setChan src n rest).pendingEvictDirty n p) a := by
  have shows := rel.node n away
  have pending : s.pending n = [⟨.writeBack, id, ⟨false, false⟩, 0, .success, none⟩] := by
    simpa [phase, BlockState.side] using shows.pending
  have last : (a.phase n).Finishes b.wid src := by
    rw [phase]; exact ⟨rfl, Or.inl ⟨home, rfl⟩, Or.inl rfl, rfl⟩
  simp only [BlockState.pendingEvictDirty, pId]
  refine .single (.gone n away ptr id (Or.inl phase)) ?_
  exact rel.finish away front last (.absent none) (Phase.silent_absent _) ∅ (a.copy n) rfl
    (fun m other => ⟨by simp [other], by simp [other]⟩) (by simp)
    (fun _ => rfl) (by simp [pending]) rfl rfl rfl
    (fun m other => by simp [other]) (by simp [(rel.landed away front last.source).2])

/-- The completion of the write that has handed a block over. -/
theorem Rel.complete (rel : Rel b s a) (n : Node) : Matched g b (s.complete n) a := by
  unfold BlockState.complete
  cases completions : s.completions n with
  | nil => exact .stay rel
  | cons id more =>
    have away : n ≠ b.wid := by
      rintro rfl
      rw [rel.home.completions] at completions
      cases completions
    have shows := rel.node n away
    have expected : s.completions n = (a.phase n).completions := shows.completions
    rw [completions] at expected
    cases phase : a.phase n with
    | leaving ptr id' flag =>
      rw [phase] at expected
      obtain ⟨rfl, rfl⟩ : id = id' ∧ more = [] := by simpa using expected
      have pending : s.pending n = [⟨.pendingInvalidate, id, flag, 0, .success, none⟩] := by
        simpa [phase, BlockState.side] using shows.pending
      have found : BlockState.getPending { s with completions := Function.update s.completions n [] } n id =
          some ⟨.pendingInvalidate, id, flag, 0, .success, none⟩ := by
        simp [BlockState.getPending, pending]
      simp only [BlockState.completionCheck, found, if_true]
      refine .single (.gone n away ptr id (Or.inr ⟨flag, phase⟩)) ?_
      refine rel.become away (.absent none) ∅ rfl
        (fun m other => ⟨by simp [other], by simp [other], by simp [other]⟩) (by simp)
        (fun _ => rfl) (by simp [pending]) (by simp)
        (by simp [phase]) (by simp [phase])
        (by simp [phase]) (by simp [phase]) rfl rfl rfl rfl
        (fun m other => by simp [other]) (by simp)
    | _ => rw [phase] at expected; simp at expected

section
variable (rel : Rel b s a) (away : n ≠ b.wid) {op : AccessOp} {ptr id : Nat} {flag : Flag} {rq : Req Node}
    {stage : Stage Node} (phase : a.phase n = .miss op ptr id flag rq stage)
include rel away op ptr id flag rq stage phase

/-- The pending work that an answer finds. -/
theorem Rel.getPending' : s.getPending n id = some ⟨.access op, id, flag, stage.counter, stage.status, some rq⟩ := by
  simp [BlockState.getPending, (rel.waiting away phase).2]

theorem Rel.getPending (src : Node) (rest : List (Item Node)) : (s.setChan src n rest).getPending n id =
      some ⟨.access op, id, flag, stage.counter, stage.status, some rq⟩ :=
  rel.getPending' away phase

/-- An acknowledgement of a write. -/
theorem Rel.imm_write (write : op ≠ .read) (src : Node) (rest : List (Item Node)) :
    (s.setChan src n rest).processReply b n src (.imm id) = (s.setChan src n rest).pendingWriteCache b n src op
        ⟨.access op, id, flag, stage.counter, stage.status, some rq⟩ false rq := by
  simp only [BlockState.processReply, rel.getPending away phase]
  cases op with
  | read => exact absurd rfl write
  | write | writePermissionOnly => rfl

end

/-- The mail of a hand-over after the first answer. -/
theorem Rel.mail_first (rel : Rel b s a) (away : n ≠ b.wid)
    (front : s.chan src n = .msg (.reply r) :: rest) {op : AccessOp} {ptr id : Nat} {flag : Flag}
    {rq : Req Node} {next : Stage Node} (requests : (Phase.miss op ptr id flag rq next).requests = (a.phase n).requests)
    (left : (src = b.wid ∧ (Phase.miss op ptr id flag rq next).replies = [] ∧
        (Phase.miss op ptr id flag rq next).peer = (a.phase n).peer) ∨
      (src ≠ b.wid ∧ (Phase.miss op ptr id flag rq next).replies = (a.phase n).replies ∧
        (Phase.miss op ptr id flag rq next).peer = Function.update (a.phase n).peer src [])) :
    (s.setChan src n rest).mail b n = (Phase.miss op ptr id flag rq next).mail (a.home.cmd n) := by
  have mail : s.mail b n = (a.phase n).mail (a.home.cmd n) := (rel.node n away).mail
  have hears := rel.hears away front
  rcases left with ⟨rfl, replies, peer⟩ | ⟨notHome, replies, peer⟩
  · rw [mail_pop_reply _ _ _ away front, mail]
    cases hears with
    | peer other _ => exact absurd rfl other
    | home _ answers => simp [-Phase.requests, -Phase.replies, -Phase.peer, Phase.mail, answers, requests, replies, peer]
  · rw [mail_pop_peer _ _ _ _ away notHome front, mail]
    cases hears with
    | home mine _ => exact absurd mine notHome
    | peer _ answers => simp [-Phase.requests, -Phase.replies, -Phase.peer, Phase.mail, answers, requests, replies, peer]

section replies
variable {op : AccessOp} {ptr id : Nat} {flag : Flag} {rq : Req Node} {stage : Stage Node}

/-- The home answers a request at once, or gives its part of a hand-over. -/
theorem Rel.homeReply (rel : Rel b s a) (inv : Consistent b a) (away : n ≠ b.wid)
    (front : s.chan b.wid n = .msg (.reply r) :: rest) (replies : (a.phase n).replies = [r])
    (allowed : s.undoesUpgrade b n b.wid r = true → g.undo a n) :
    Matched g b ((s.setChan b.wid n rest).processReply b n b.wid r) a := by
  have wf := inv.phase n away
  cases phase : a.phase n with
  | evicted ptr id =>
    rw [phase] at replies
    obtain rfl : Reply.imm id = r := by simpa using replies
    have pending : s.pending n = [⟨.writeBack, id, ⟨false, false⟩, 0, .success, none⟩] := by
      simpa [phase, BlockState.side] using (rel.node n away).pending
    have found : (s.setChan b.wid n rest).getPending n id =
        some ⟨.writeBack, id, ⟨false, false⟩, 0, .success, none⟩ := by
      simp [BlockState.getPending, pending]
    simp only [BlockState.processReply, found]
    exact rel.pendingEvictDirty away front phase rfl rfl
  | miss op ptr id flag rq stage =>
    rw [phase] at replies wf
    cases stage with
    | reply ok =>
      have last : (a.phase n).Finishes b.wid b.wid := by
        rw [phase]
        refine ⟨rfl, Or.inl ⟨rfl, rfl⟩, ?_, rfl⟩
        cases ok with
        | true => exact Or.inr ⟨ptr, rfl⟩
        | false => exact Or.inl rfl
      obtain rfl : op.answer id ok = r := by simpa using replies
      have found := rel.getPending away phase b.wid rest
      have found' := rel.getPending' away phase
      cases op with
      | read =>
        cases ok with
        | true =>
          simp only [AccessOp.answer, BlockState.processReply, found]
          exact rel.pendingReadCache away front phase (by rw [phase]; exact ⟨rfl, rfl⟩) last rfl rfl
        | false =>
          simp only [AccessOp.answer, BlockState.processReply, found]
          exact rel.processReadReply away front phase (by rw [phase]; exact ⟨rfl, rfl⟩) last
      | write | writePermissionOnly =>
        cases ok with
        | true =>
          simp only [AccessOp.answer, BlockState.processReply, found, Stage.counter, ne_eq,
            not_true_eq_false, if_false, add_zero, if_true, BlockState.processPending,
            BlockState.pendingWriteCache, Stage.status, or_true]
          exact rel.finishAccess away front phase (by rw [phase]; exact ⟨by decide, rfl⟩) last rfl rfl
        | false =>
          simp only [AccessOp.answer, BlockState.processReply, found, ne_eq, reduceCtorEq,
            not_false_eq_true, if_true, BlockState.failWriteReply, if_false]
          refine rel.undoAccess away front (by decide) phase (by rw [phase]; exact ⟨by decide, rfl⟩)
            last rfl fun upgrade => ?_
          refine allowed ?_
          show s.undoesUpgrade b n b.wid (.writeReply id .lockFailed 0) = true
          simp [BlockState.undoesUpgrade, Reply.id, found', upgrade]
    | hand o ok got leg =>
      cases leg with
      | onWay =>
        obtain rfl : Reply.imm id = r := by simpa using replies
        have write : op ≠ .read := wf.1
        rw [rel.imm_write away phase write]
        cases got with
        | true =>
          have last : (a.phase n).Finishes b.wid b.wid := by
            rw [phase]
            exact ⟨rfl, Or.inl ⟨rfl, rfl⟩, Or.inl (by cases ok <;> rfl), rfl⟩
          have answer : (a.phase n).LastAnswer ok := by
            rw [phase]; exact ⟨rfl, Or.inl ⟨rfl, rfl⟩⟩
          cases ok with
          | true =>
            simp only [BlockState.pendingWriteCache, BlockState.countReply, Stage.counter, Stage.status]
            simp only [Bool.and_false, Bool.not_true, Bool.false_eq_true, if_false, if_true,
              reduceCtorEq, ne_eq, not_true_eq_false, zero_sub, neg_add_cancel, true_or]
            exact rel.finishAccess away front phase answer last rfl rfl
          | false =>
            simp only [BlockState.pendingWriteCache, BlockState.countReply, Stage.counter, Stage.status]
            simp only [Bool.and_true, Bool.not_false, Bool.false_eq_true, if_false, if_true,
              reduceCtorEq, ne_eq, not_false_eq_true, zero_sub, neg_add_cancel]
            exact rel.undoAccess away front write phase answer last rfl fun upgrade => allowed (by
              simp [BlockState.undoesUpgrade, Reply.id, rel.getPending' away phase, upgrade, BlockState.countReply])
        | false =>
          have shows := rel.node n away
          have next := rel.firstAnswer away front (.hand o ok false .got) phase rfl rfl
            (rel.mail_first away front (by rw [phase]; rfl) (Or.inl ⟨rfl, rfl, by rw [phase]; rfl⟩))
            (fun x l member => by
              have found := shows.lines x l member
              rw [show (a.local n).phase = _ from phase] at found
              cases ok <;> exact found)
            (by
              have landed := shows.landed
              rw [show (a.local n).phase = _ from phase] at landed
              cases ok <;> exact landed)
          have moved : Matched g b ((s.setChan b.wid n rest).setPending n
              ⟨.access op, id, flag, 1, .success, some rq⟩, []) a :=
            .single (.homeAnswer n away op ptr id flag rq o ok phase) next
          simpa [BlockState.pendingWriteCache, BlockState.countReply] using
            moved
      | _ => simp at replies
    | _ => simp at replies
  | _ => rw [phase] at replies; simp at replies

/-- Another worker answers a forwarded request. -/
theorem Rel.peerReply (rel : Rel b s a) (inv : Consistent b a) (away : n ≠ b.wid) (other : src ≠ b.wid)
    (front : s.chan src n = .msg (.reply r) :: rest) (replies : (a.phase n).peer src = [.reply r])
    (allowed : s.undoesUpgrade b n src r = true → g.undo a n) :
    Matched g b ((s.setChan src n rest).processReply b n src r) a := by
  have wf := inv.phase n away
  cases phase : a.phase n with
  | miss op ptr id flag rq stage =>
    rw [phase] at replies wf
    cases stage with
    | peer o ok =>
      obtain rfl : op = .read := wf
      by_cases same : src = o
      · subst same
        have last : (a.phase n).Finishes b.wid src := by
          rw [phase]
          refine ⟨rfl, Or.inr ⟨other, rfl, fun x ne => by simp [ne]⟩, ?_, rfl⟩
          cases ok with
          | true => exact Or.inr ⟨ptr, rfl⟩
          | false => exact Or.inl rfl
        obtain rfl : AccessOp.read.handOver id ok = r := by simpa using replies
        have found := rel.getPending away phase src rest
        cases ok with
        | true =>
          simp only [AccessOp.handOver, if_true, BlockState.processReply, found]
          exact rel.pendingReadCache away front phase (by rw [phase]; rfl) last rfl rfl
        | false =>
          simp only [AccessOp.handOver, Bool.false_eq_true, if_false, AccessOp.answer, BlockState.processReply, found]
          exact rel.processReadReply away front phase (by rw [phase]; rfl) last
      · simp [same] at replies
    | hand o ok got leg =>
      have write : op ≠ .read := wf.1
      cases got with
      | true => simp at replies
      | false =>
        by_cases same : src = o
        · subst same
          obtain rfl : op.handOver id ok = r := by simpa using replies
          have source : (a.phase n).source b.wid = none ∨
              ∃ p, (a.phase n).source b.wid = some (src, p) := by
            rw [phase]
            cases ok with
            | true => exact Or.inr ⟨ptr, rfl⟩
            | false => exact Or.inl rfl
          have found := rel.getPending away phase src rest
          by_cases lastLeg : leg = .got
          · subst lastLeg
            have last : (a.phase n).Finishes b.wid src := by
              refine ⟨?_, Or.inr ⟨other, ?_, fun x ne => ?_⟩, source, ?_⟩ <;> rw [phase] <;>
                simp [*]
            have answer : (a.phase n).LastAnswer ok := by
              rw [phase]; exact ⟨rfl, Or.inr ⟨rfl, rfl⟩⟩
            cases ok with
            | true =>
              rw [AccessOp.handOver, if_pos rfl, rel.imm_write away phase write]
              simp only [BlockState.pendingWriteCache, BlockState.countReply, Stage.counter, Stage.status]
              simp only [Bool.false_and, Bool.false_eq_true, if_false, if_true, ne_eq,
                not_true_eq_false, sub_zero, other, sub_self, true_or]
              exact rel.finishAccess away front phase answer last rfl rfl
            | false =>
              rw [AccessOp.handOver, if_neg (by decide), (AccessOp.answer_write write id).2]
              simp only [BlockState.processReply, found, ne_eq, reduceCtorEq, not_false_eq_true, if_true,
                BlockState.failWriteReply, other, if_false, Stage.counter, Bool.false_eq_true, sub_zero,
                sub_self, write]
              refine rel.undoAccess away front write phase answer last rfl fun upgrade => allowed ?_
              subst upgrade
              show s.undoesUpgrade b n src (.writeReply id .lockFailed 0) = true
              simp [BlockState.undoesUpgrade, Reply.id, rel.getPending' away phase]
          · obtain ⟨none_, landed⟩ := rel.landed away front source
            have counter : ∀ ok, (Stage.hand src ok true leg).counter = -1 := fun ok => by
              simp [lastLeg]
            have next := rel.firstAnswer away front (.hand src ok true leg) phase (counter ok) rfl
              (rel.mail_first away front (by rw [phase]; rfl) (Or.inr ⟨other, by rw [phase]; cases leg <;> rfl, by
                rw [phase]; funext x; by_cases same : x = src <;> simp [same]⟩))
              (fun x l member => by rw [none_] at member; cases member)
              (by cases ok <;> exact landed)
            have moved : Matched g b ((s.setChan src n rest).setPending n
                ⟨.access op, id, flag, -1, (Stage.hand src ok true leg).status, some rq⟩, []) a :=
              .single (.ownerAnswer n away op ptr id flag rq src ok leg lastLeg phase) next
            cases ok with
            | true =>
              rw [AccessOp.handOver, if_pos rfl, rel.imm_write away phase write]
              simpa [BlockState.pendingWriteCache, BlockState.countReply, lastLeg, other] using moved
            | false =>
              rw [AccessOp.handOver, if_neg (by decide), (AccessOp.answer_write write id).2]
              simpa [BlockState.processReply, found, BlockState.failWriteReply, other, lastLeg, write] using moved
        · simp [same] at replies
    | _ => simp at replies
  | _ => rw [phase] at replies; simp at replies

/-- Any answer that reaches a caching worker. -/
theorem Rel.workerReply (rel : Rel b s a) (inv : Consistent b a) (away : n ≠ b.wid)
    (front : s.chan src n = .msg (.reply r) :: rest) (allowed : s.undoesUpgrade b n src r = true → g.undo a n) :
    Matched g b ((s.setChan src n rest).processReply b n src r) a := by
  cases rel.hears away front with
  | home mine replies => subst mine; exact rel.homeReply inv away front replies allowed
  | peer other replies => exact rel.peerReply inv away other front replies allowed

end replies

/-! ### Data -/

/-- At most one answer is on a channel to a worker. -/
theorem Rel.one_reply (rel : Rel b s a) (away : n ≠ b.wid) (src : Node) :
    ((msgs (s.chan src n)).filterMap Msg.reply?).length ≤ 1 := by
  have mail : s.mail b n = (a.phase n).mail (a.home.cmd n) := (rel.node n away).mail
  by_cases mine : src = b.wid
  · subst mine
    have replies : (msgs (s.chan b.wid n)).filterMap Msg.reply? = (a.phase n).replies :=
      congrArg Mail.replies mail
    rw [replies]
    cases list : (a.phase n).replies with
    | nil => simp
    | cons r tail => rw [Phase.replies_singleton list]; simp
  · have peer : msgs (s.chan src n) = (a.phase n).peer src := by
      have := congrFun (congrArg Mail.peer mail) src
      simpa [BlockState.mail, Phase.mail, mine] using this
    rw [peer]
    cases list : (a.phase n).peer src with
    | nil => simp
    | cons m tail =>
      obtain ⟨rfl, r, rfl⟩ := Phase.peer_singleton list
      simp

/-- Data for a line arrives. -/
theorem Rel.land (rel : Rel b s a) (away : n ≠ b.wid) {ptr : Nat} {d : Data}
    (front : s.chan src n = .line ptr d :: rest) : ∃ l, s.line n = some l ∧ l.ptr = ptr ∧
      Matched g b ((s.setChan src n rest).setLine n (some { l with data := d }), []) a := by
  have shows := rel.node n away
  have source : (a.phase n).source b.wid = some (src, ptr) := by
    have found := shows.lines src (ptr, d) (by simp [BlockState.side, front])
    exact found
  -- nothing else is on its way to the line
  have others : ∀ o, o ≠ src → lines (s.chan o n) = [] := by
    intro o ne
    refine List.eq_nil_iff_forall_not_mem.mpr fun x member => ?_
    have found : (a.phase n).source b.wid = some (o, x.1) := shows.lines o x member
    rw [source] at found
    exact ne (Prod.mk.inj (Option.some.inj found)).1.symm
  have alone : lines rest = [] := by
    have framed := rel.framed src n
    have one := rel.one_reply away src
    rw [front] at framed one
    obtain ⟨⟨m, tail, rfl, reply⟩, framed⟩ := framed
    obtain ⟨r, eq⟩ := Option.isSome_iff_exists.mp reply
    rw [msgs_line, msgs_msg, List.filterMap_cons, eq] at one
    rw [lines_msg]
    exact framed.tail.lines_eq_nil (List.length_eq_zero_iff.mp (by simpa using one))
  have copy : d = a.copy n := by
    have landed := shows.landed
    simpa [-Phase.source, source, BlockState.side, front, alone] using landed
  obtain ⟨op, id, flag, rq, stage, phase⟩ : ∃ op id flag rq stage,
      a.phase n = .miss op ptr id flag rq stage := by
    cases phase : a.phase n with
    | miss op ptr' id flag rq stage =>
      rw [phase] at source
      refine ⟨op, id, flag, rq, stage, ?_⟩
      have same : ptr' = ptr := by
        cases stage with
        | reply ok => cases ok <;> simp at source; exact source.2
        | peer o ok => cases ok <;> simp at source; exact source.2
        | hand o ok got leg => cases ok <;> cases got <;> simp at source; exact source.2
        | _ => simp at source
      rw [same]
    | _ => rw [phase] at source; simp at source
  obtain ⟨line, -⟩ := rel.waiting away phase
  refine ⟨_, line, rfl, .single (.land n away) ?_⟩
  refine rel.only (n := n) (rel.home.congr rfl rfl (by simp [Ne.symm away]) rfl
    (by simp [Ne.symm away]) rfl rfl (fun m => by simp [Ne.symm away]) rfl rfl rfl)
    (rel.framed.pop front) (fun m _ ne => ?_) (fun _ => ?_)
  · refine ⟨?_, by simp [ne]⟩
    rw [side_setLine_of_ne _ _ _ _ _ ne, side_setChan_of_ne _ _ _ _ ne (fun _ => away)]
  · rw [side_setLine_self, side_pop_in _ _ _ _ away]
    exact {
      line := by simp [phase, copy]
      bare := fun h => by simp [phase] at h
      pending := shows.pending
      completions := shows.completions
      mail := (s.mail_pop_data b n front rfl).trans shows.mail
      lines := fun o x member => by
        by_cases same : o = src
        · subst o; simp [alone] at member
        · simp [BlockState.side, same, others o same] at member
      landed := by simp [-Phase.source, source, alone]
      punctual := shows.punctual
      timely := by
        have pop := shows.timely.sublist (s.inbox_pop b n src front)
        rwa [side_pop_in _ _ _ _ away] at pop }

end Gam
