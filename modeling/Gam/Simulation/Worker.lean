import Gam.Match

/-! A caching worker by itself: requests of its application, unlocking and eviction. -/

namespace Gam
variable {Node : Type} [DecidableEq Node]

namespace Phase
variable {ph : Phase Node} {p : Nat}
variable {l : CacheLine Node} {rq : Req Node}

theorem of_line_none (line : ph.line = none) : ∃ ai, ph = .absent ai := by
  cases ph with
  | absent ai => exact ⟨ai, rfl⟩
  | _ => simp at line

theorem of_line_shared (line : ph.line = some (.shared, p)) : ph = .shared p := by
  cases ph with
  | miss op ptr id flag rq stage => cases op <;> simp at line
  | _ => simp_all

theorem of_line_dirty (line : ph.line = some (.dirty, p)) : ph = .dirty p := by
  cases ph with
  | miss op ptr id flag rq stage => cases op <;> simp at line
  | _ => simp_all

theorem of_line_toDirty (line : ph.line = some (.toDirty, p)) :
    ∃ op id flag rq stage, op ≠ .read ∧ ph = .miss op p id flag rq stage := by
  cases ph with
  | miss op ptr id flag rq stage =>
    cases op <;> simp at line
    · exact ⟨.write, id, flag, rq, stage, by decide, by rw [line]⟩
    · exact ⟨.writePermissionOnly, id, flag, rq, stage, by decide, by rw [line]⟩
  | _ => simp at line

theorem of_line_toInvalid (line : ph.line = some (.toInvalid, p)) :
    (∃ id, ph = .evicting p id) ∨ (∃ id, ph = .evicted p id) ∨ ∃ id flag, ph = .leaving p id flag := by
  cases ph with
  | miss op ptr id flag rq stage => cases op <;> simp at line
  | evicting ptr id => simp_all
  | evicted ptr id => simp_all
  | leaving ptr id flag => simp_all
  | _ => simp at line

theorem readable_of_line (line : ph.line = some (.toInvalid, p)) : ph.Readable := by
  rcases of_line_toInvalid line with ⟨_, rfl⟩ | ⟨_, rfl⟩ | ⟨_, _, rfl⟩ <;> trivial

end Phase

/-- What a line that is there says. -/
theorem Side.Shows.line_some {h : Node} {sd : Side Node} {x : Local Node} (shows : sd.Shows h x)
    (line : sd.line = some l) : x.phase.line = some (l.state, l.ptr) ∧ l.locks = x.locks ∧ l.data = x.raw := by
  have eq := shows.line
  rw [line] at eq
  cases ph : x.phase.line with
  | none => rw [ph] at eq; cases eq
  | some y => rw [ph] at eq; cases eq; exact ⟨rfl, rfl, rfl⟩

theorem Side.Shows.line_none {h : Node} {sd : Side Node} {x : Local Node} (shows : sd.Shows h x)
    (line : sd.line = none) : ∃ ai, x.phase = .absent ai := by
  have eq := shows.line
  rw [line] at eq
  exact Phase.of_line_none (Option.map_eq_none_iff.mp eq.symm)

variable {g : Guard Node} {b : Block Node} {s : BlockState Node} {a : Abs Node} {n : Node}

theorem Rel.line_some (rel : Rel b s a) (away : n ≠ b.wid) (line : s.line n = some l) :
    (a.phase n).line = some (l.state, l.ptr) ∧ l.locks = a.locks n ∧ l.data = a.raw n :=
  (rel.node n away).line_some line

/-- Without data under way a line holds what it will hold. -/
theorem Rel.raw_eq_copy (rel : Rel b s a) (away : n ≠ b.wid)
    (source : (a.phase n).source b.wid = none) : a.raw n = a.copy n := by
  simpa [-Phase.source, source] using (rel.node n away).landed

/-- Putting a request off changes nothing the protocol sees. -/
theorem Rel.addToServeLocal (rel : Rel b s a) (m : Node) (rq : Req Node) : Rel b (s.addToServeLocal m rq) a :=
  ⟨rel.home.congr rfl rfl rfl rfl rfl rfl rfl (fun _ => rfl) rfl rfl rfl, rel.node, rel.framed⟩

section
variable (rel : Rel b s a) (away : n ≠ b.wid) {l : CacheLine Node} (line : s.line n = some l)
include rel away l line

/-- The line of worker `n` keeps its state, but not its locks or its data. -/
theorem Rel.setLine {a' : Abs Node} {t : Locks Node} {d copy : Data}
    (home : a'.home = a.home) (dirLocks : a'.dirLocks = a.dirLocks) (mem : a'.mem = a.mem)
    (others : ∀ m, m ≠ n → a'.local m = a.local m) (mine : a'.local n = ⟨a.phase n, a.home.cmd n, d, copy, t⟩)
    (landed : (d = copy ∧ (a.phase n).source b.wid = none) ∨ (d = a.raw n ∧ copy = a.copy n)) :
    Rel b (s.setLine n (some { l with locks := t, data := d })) a' := by
  have shows := rel.node n away
  obtain ⟨phase, -, -⟩ := shows.line_some line
  refine rel.only (n := n)
    (rel.home.congr rfl rfl (by simp [Ne.symm away]) rfl rfl rfl rfl (fun _ => rfl) home dirLocks mem)
    rel.framed (fun m _ other => ⟨s.side_setLine_of_ne b m n _ other, others m other⟩) (fun _ => ?_)
  rw [s.side_setLine_self, mine]
  exact {
    line := by simp [-Phase.line, show (a.phase n).line = _ from phase]
    bare := fun h => by simp [-Phase.line, show (a.phase n).line = _ from phase] at h
    pending := shows.pending
    completions := shows.completions
    mail := shows.mail
    lines := shows.lines
    landed := by
      rcases landed with ⟨rfl, source⟩ | ⟨rfl, rfl⟩
      · simp [-Phase.source, source]
      · exact shows.landed
    punctual := shows.punctual
    timely := shows.timely }

theorem Rel.setLocks (t : Locks Node) : Rel b (s.setLine n (some { l with locks := t })) (a.setLocks n t) := by
  obtain ⟨-, -, data⟩ := rel.line_some away line
  exact rel.setLine away line rfl rfl rfl
    (fun m other => by simp [Abs.local, Function.update_of_ne other])
    (by rw [data]; simp) (Or.inr ⟨data, rfl⟩)

theorem Rel.setData (source : (a.phase n).source b.wid = none) (d : Data) :
    Rel b (s.setLine n (some { l with data := d })) (a.setData n d) := by
  obtain ⟨-, locks, -⟩ := rel.line_some away line
  exact rel.setLine away line rfl rfl rfl
    (fun m other => by simp [Abs.local, Function.update_of_ne other])
    (by rw [locks]; simp [Abs.local]) (Or.inl ⟨rfl, source⟩)

end

section
variable (rel : Rel b s a)
include rel

/-- A worker without the block, or with a shared copy, asks the home for more. -/
theorem Rel.submit (away : n ≠ b.wid) {ai : Option Nat}
    (quiet : a.phase n = .absent ai ∨ ai = none ∧ ∃ ptr, a.phase n = .shared ptr)
    (op : AccessOp) (id : Nat) (flag : Flag) (rq : Req Node)
    (state : l.state = if op = .read then .toShared else .toDirty) (locks : l.locks = a.locks n) :
    Rel b ((s.setLine n (some l)).submit n b.wid op id l.ptr flag rq)
      ((a.setPhase n (.miss op l.ptr id flag rq (.sent ai))).setData n l.data) := by
  have shows := rel.node n away
  have pending : s.pending n = [] := by
    rcases quiet with phase | ⟨-, ptr, phase⟩ <;>
      simpa [phase, BlockState.side] using shows.pending
  have completions : s.completions n = [] := by
    rcases quiet with phase | ⟨-, ptr, phase⟩ <;>
      simpa [phase, BlockState.side] using shows.completions
  have lines : ∀ o, lines (s.chan o n) = [] := by
    intro o
    refine List.eq_nil_iff_forall_not_mem.mpr fun x member => ?_
    have source := shows.lines o x member
    rcases quiet with phase | ⟨-, ptr, phase⟩ <;> simp [phase] at source
  have mail : s.mail b n = (a.phase n).mail (a.home.cmd n) := shows.mail
  refine rel.only (n := n) (rel.home.congr rfl ?_ ?_ rfl ?_ rfl rfl ?_ rfl rfl rfl)
    (rel.framed.send _ _ trivial) ?_ ?_
  · simp [BlockState.submit, Ne.symm away]
  · simp [BlockState.submit, Ne.symm away]
  · simp [BlockState.submit, Ne.symm away]
  · intro m
    by_cases same : m = n <;> simp [BlockState.submit, same]
  · intro m notHome other
    simp [BlockState.submit, other, Ne.symm other, notHome]
  · intro _
    rw [BlockState.submit, BlockState.side_send_out _ _ _ _ away, BlockState.side_addPending_self,
      BlockState.side_setLine_self, BlockState.mail_send_to_home _ _ _ _ away]
    exact {
      line := by simp [← state, ← locks]
      bare := fun h => by simp at h
      pending := by simp [BlockState.side, pending]
      completions := by simp [BlockState.side, completions]
      mail := by
        rcases quiet with phase | ⟨rfl, ptr, phase⟩ <;>
          simp [Phase.mail, mail, phase]
      lines := fun o x member => by simp [BlockState.side, lines] at member
      landed := by simp
      punctual := by
        refine List.pairwise_append.mpr ⟨shows.punctual, List.pairwise_singleton _ _, ?_⟩
        intro x _ y member
        simp at member
        simp [member]
      timely := shows.timely }

/-- A worker without the block asks for it. -/
theorem Rel.miss (away : n ≠ b.wid) (line : s.line n = none) (op : AccessOp)
    (fetch : op ≠ .writePermissionOnly) (fresh : Fresh) (mine : g.req n rq)
    (kind : if op = .read then rq.Reads else rq.Writes) {flag : Flag} (flagEq : flag = rq.flag)
    {state : CacheState} (fits : state = if op = .read then .toShared else .toDirty) :
    Matched g b ((s.setLine n (some (Cache.setCLine fresh.ptr fresh.data state))).submit n b.wid op
      fresh.id fresh.ptr flag rq, [.sent rq]) a := by
  obtain ⟨ai, phase⟩ := (rel.node n away).line_none line
  have bare : a.locks n = ∅ := (rel.node n away).bare (by rw [phase]; rfl)
  have next := rel.submit away (l := Cache.setCLine fresh.ptr fresh.data state) (Or.inl phase) op
    fresh.id flag rq fits bare.symm
  subst flagEq
  exact .single (.miss n rq away mine op fresh.ptr fresh.id fresh.data ai phase fetch kind) next

/-- A worker with a shared copy asks to own the block. -/
theorem Rel.upgrade (away : n ≠ b.wid) (line : s.line n = some l) (state : l.state = .shared) (id : Nat)
    (mine : g.req n rq) (kind : rq.Writes) {flag : Flag} (flagEq : flag = rq.flag) {d : Data}
    (data : d = if flag.locked then l.data else rq.early b l.data) :
    Matched g b ((s.setLine n (some { l with state := .toDirty, data := d })).submit n b.wid
      .writePermissionOnly id l.ptr flag rq, [.sent rq]) a := by
  obtain ⟨phase, locks, raw⟩ := rel.line_some away line
  have phase : a.phase n = .shared l.ptr := Phase.of_line_shared (by rw [← state]; exact phase)
  have copy : l.data = a.copy n := by
    rw [raw, rel.raw_eq_copy away (by rw [phase]; rfl)]
  subst flagEq
  refine .single (.upgrade n rq away mine l.ptr id d phase kind (by rw [← copy]; exact data)) ?_
  exact rel.submit away (l := { l with state := .toDirty, data := d }) (Or.inr ⟨rfl, _, phase⟩)
    .writePermissionOnly id rq.flag rq rfl locks

/-- The line of a worker that is not in transition. -/
theorem Rel.settled_line (away : n ≠ b.wid) (line : s.line n = some l) (settled : l.state.inTransition = false) :
    (l.state = .shared ∧ a.phase n = .shared l.ptr) ∨ (l.state = .dirty ∧ a.phase n = .dirty l.ptr) := by
  obtain ⟨phase, -, -⟩ := rel.line_some away line
  cases state : l.state with
  | shared => rw [state] at phase; exact Or.inl ⟨rfl, Phase.of_line_shared phase⟩
  | dirty => rw [state] at phase; exact Or.inr ⟨rfl, Phase.of_line_dirty phase⟩
  | _ => rw [state] at settled; cases settled

/-- A request is put off at a worker that is busy. -/
theorem Rel.postponed (mine : g.req n rq) (kind : rq.Reads ∨ rq.Writes) (busy : a.Busy b n) :
    Matched g b (s.addToServeLocal n rq, [.postponed rq]) a :=
  .single (.postponed n rq mine kind busy) (rel.addToServeLocal n rq)

theorem Rel.busy_of_moving (away : n ≠ b.wid)
    (line : s.line n = some l) (moving : l.state.inTransition = true) : a.Busy b n := by
  have phase := (rel.line_some away line).1
  rw [Abs.Busy, if_neg away]
  left
  cases ph : a.phase n with
  | absent ai => simp [ph] at phase
  | shared ptr | dirty ptr =>
    simp only [ph, Phase.line, Option.some.injEq, Prod.mk.injEq] at phase
    rw [← phase.1] at moving
    cases moving
  | _ => trivial

theorem Rel.busy_of_locked (away : n ≠ b.wid)
    (line : s.line n = some l) (locked : l.locks.isBlockLocked = true) : a.Busy b n := by
  rw [Abs.Busy, if_neg away, ← (rel.line_some away line).2.1]
  exact Or.inr locked

theorem Rel.cacheRead (away : n ≠ b.wid) (mine : g.req n rq) (op : rq.op = .read)
    (allowed : ∀ l, s.line n = some l → l.state = .toInvalid ∨ (l.state = .toDirty ∧ l.locks.isBlockLocked) →
      g.hit a n rq) (fresh : Fresh) : Matched g b (s.cacheRead b n rq fresh) a := by
  unfold BlockState.cacheRead
  cases line : s.line n with
  | none =>
    exact rel.miss away line .read (by decide) fresh mine (Or.inl op) (by simp [Req.flag, op]) rfl
  | some l =>
    obtain ⟨phase, locks, data⟩ := rel.line_some away line
    by_cases early : l.state = .toInvalid ∨ (l.state = .toDirty ∧ l.locks.isBlockLocked)
    · simp only [if_pos early]
      have hit := allowed l line early
      rcases early with state | ⟨state, locked⟩
      · have readable := Phase.readable_of_line (by rw [← state]; exact phase)
        exact .single (by rw [data]; exact .readHit n rq away mine op readable fun _ => hit) rel
      · rw [state] at phase
        obtain ⟨op', id, flag, rq', stage, write, phase⟩ := Phase.of_line_toDirty phase
        rw [locks] at locked
        rw [data]
        exact .single
          (.readUpgrading n rq away mine op op' l.ptr id flag rq' stage phase write locked hit) rel
    · simp only [if_neg early]
      by_cases moving : l.state.inTransition = true
      · simp only [if_pos moving]
        exact rel.postponed mine (Or.inl (Or.inl op)) (rel.busy_of_moving away line moving)
      · simp only [if_neg moving]
        rw [data]
        rcases rel.settled_line away line (by simpa using moving) with ⟨-, phase⟩ | ⟨-, phase⟩
        · exact .single (.readHit n rq away mine op (by rw [phase]; trivial)
            fun moving => absurd (by rw [phase]; trivial) moving) rel
        · exact .single (.readHit n rq away mine op (by rw [phase]; trivial)
            fun moving => absurd (by rw [phase]; trivial) moving) rel

theorem Rel.cacheWrite (away : n ≠ b.wid) (mine : g.req n rq)
    (op : rq.op = .write) (fresh : Fresh) : Matched g b (s.cacheWrite b n rq fresh) a := by
  unfold BlockState.cacheWrite
  cases line : s.line n with
  | none =>
    exact rel.miss away line .write (by decide) fresh mine (Or.inl op) (by simp [Req.flag, op]) rfl
  | some l =>
    by_cases moving : l.state.inTransition = true
    · simp only [if_pos moving]
      exact rel.postponed mine (Or.inr (Or.inl op)) (rel.busy_of_moving away line moving)
    · simp only [if_neg moving]
      rcases rel.settled_line away line (by simpa using moving) with ⟨state, phase⟩ | ⟨state, phase⟩
      · simp only [state, ne_eq, reduceCtorEq, not_false_eq_true, if_true]
        exact rel.upgrade away line state fresh.id mine (Or.inl op) (by simp [Req.flag, op]) rfl
      · simp only [state, ne_eq, not_true_eq_false, if_false]
        have source : (a.phase n).source b.wid = none := by rw [phase]; rfl
        have copy : l.data = a.copy n := by
          rw [(rel.line_some away line).2.2, rel.raw_eq_copy away source]
        have next := rel.setData away line source (rq.apply b l.data)
        rw [copy] at next ⊢
        rw [state] at next
        exact .single (.writeHit n rq away mine op l.ptr phase) next

theorem Rel.lockBusy (mine : g.req n rq) (lock : rq.op = .rlock ∨ rq.op = .wlock) (busy : a.Busy b n) :
    Matched g b (s.lockBusy n rq) a := by
  unfold BlockState.lockBusy
  by_cases tried : rq.tryLock = true
  · rw [if_pos tried]
    exact .single (.refused n rq mine tried lock) rel
  · rw [if_neg tried]
    exact rel.postponed mine (lock.imp Or.inr Or.inr) busy

end

section
variable (rel : Rel b s a) (away : n ≠ b.wid) {rq : Req Node} (mine : g.req n rq)
include rel away rq mine

theorem Rel.cacheRLock (op : rq.op = .rlock) (fresh : Fresh) : Matched g b (s.cacheRLock b n rq fresh) a := by
  unfold BlockState.cacheRLock
  cases line : s.line n with
  | none =>
    exact rel.miss away line .read (by decide) fresh mine (Or.inr op) (by simp [Req.flag, op]) rfl
  | some l =>
    by_cases moving : l.state.inTransition = true
    · simp only [if_pos moving]
      exact rel.postponed mine (Or.inl (Or.inr op)) (rel.busy_of_moving away line moving)
    · simp only [if_neg moving]
      obtain ⟨-, locks, -⟩ := rel.line_some away line
      have stable : (a.phase n).Stable := by
        rcases rel.settled_line away line (by simpa using moving) with ⟨-, phase⟩ | ⟨-, phase⟩ <;>
          rw [phase] <;> trivial
      by_cases taken : Cache.isWLocked rq.addr l.locks = true
      · simp only [Cache.rLock, if_pos taken]
        exact rel.lockBusy mine (Or.inl op) (rel.busy_of_locked away line (Cache.locked_of_isWLocked taken))
      · simp only [Cache.rLock, if_neg taken]
        have next := rel.setLocks away line (Locks.share rq.addr l.locks)
        rw [locks] at next taken ⊢
        exact .single (.rLockHit n rq away mine op stable (by simpa using taken)) next

theorem Rel.cacheWLock (op : rq.op = .wlock) (fresh : Fresh) : Matched g b (s.cacheWLock b n rq fresh) a := by
  unfold BlockState.cacheWLock
  cases line : s.line n with
  | none =>
    exact rel.miss away line .write (by decide) fresh mine (Or.inr op) (by simp [Req.flag, op]) rfl
  | some l =>
    by_cases moving : l.state.inTransition = true
    · simp only [if_pos moving]
      exact rel.postponed mine (Or.inr (Or.inr op)) (rel.busy_of_moving away line moving)
    · simp only [if_neg moving]
      obtain ⟨-, locks, -⟩ := rel.line_some away line
      rcases rel.settled_line away line (by simpa using moving) with ⟨state, phase⟩ | ⟨state, phase⟩
      · simp only [state, ne_eq, reduceCtorEq, not_false_eq_true, if_true]
        exact rel.upgrade away line state fresh.id mine (Or.inr op) (by simp [Req.flag, op]) rfl
      · simp only [state, ne_eq, not_true_eq_false, if_false]
        by_cases taken : (Cache.isWLocked rq.addr l.locks || Cache.isRLocked rq.addr l.locks) = true
        · simp only [Cache.wLock, if_pos taken]
          exact rel.lockBusy mine (Or.inr op) (rel.busy_of_locked away line (Cache.locked_of_taken taken))
        · simp only [Cache.wLock, if_neg taken]
          have next := rel.setLocks away line (Locks.exclude rq.addr l.locks)
          rw [locks] at next taken ⊢
          simp only [Bool.or_eq_true, not_or, Bool.not_eq_true] at taken
          exact .single (.wLockHit n rq away mine op l.ptr phase taken.1 taken.2) next

/-- `ProcessLocalUnLock` at a caching worker. -/
theorem Rel.cacheUnLock (op : rq.op = .unlock) : Matched g b (s.unLock b n rq, [.released rq, .process n]) a := by
  unfold BlockState.unLock
  rw [if_neg away]
  cases line : s.line n with
  | none =>
    obtain ⟨ai, phase⟩ := (rel.node n away).line_none line
    have phase : a.phase n = .absent ai := phase
    refine .single (.unLockNothing n rq mine op ?_) rel
    rw [if_neg away, phase]
    exact fun h => h
  | some l =>
    obtain ⟨phase, locks, -⟩ := rel.line_some away line
    have next := rel.setLocks away line (Cache.releaseLock rq.addr l.locks)
    have cached : (a.phase n).HasLine := by
      cases ph : a.phase n with
      | absent ai => simp [ph] at phase
      | _ => trivial
    rw [locks] at next
    refine .single (.unLock n rq away mine op cached) ?_
    simpa [Cache.unLock, locks] using next

end

/-- A worker that can write is the one the directory has as the owner. -/
theorem Consistent.owner_of_exclusive (inv : Consistent b a) (away : n ≠ b.wid)
    (exclusive : (a.phase n).Exclusive) : a.home.owner = some n := by
  have fits := inv.fits n away
  have owner : ∀ {keep : Bool} {o : GAddr Node} {answer : Answer},
      Home.OwnerFits keep o answer n (a.phase n) → some o.wid = some n := by
    intro keep o answer mine
    by_contra other
    exact mine.1 (fun same => other (by rw [same])) exclusive
  cases home : a.home with
  | unshared => rw [home] at fits; exact absurd exclusive fits.1
  | shared L => rw [home] at fits; exact absurd exclusive fits.1.1
  | invalidate rq id flag L answer status => rw [home] at fits; exact absurd exclusive fits.1.1
  | invalidateForward r id flag L answer status => rw [home] at fits; exact absurd exclusive fits.1.1
  | dirty o => rw [home] at fits; exact owner fits.1
  | fetchShared rq id flag o answer => rw [home] at fits; exact owner fits.1
  | readForward r id flag o answer => rw [home] at fits; exact owner fits.1
  | fetchInvalidate rq id flag o answer => rw [home] at fits; exact owner fits.1
  | writeForward r id flag o answer => rw [home] at fits; exact owner fits.1

/-- A worker that can write has not agreed to anything. -/
theorem Consistent.not_acked (inv : Consistent b a) (away : n ≠ b.wid)
    (exclusive : (a.phase n).Exclusive) (id : Nat) : a.home.cmd n ≠ .acked (.imm id) := by
  have fits := inv.fits n away
  have owner : ∀ {keep : Bool} {o : GAddr Node} {answer : Answer} {c : Command Node} {r : Reply},
      Home.OwnerFits keep o answer n (a.phase n) → r ≠ .imm id →
        Home.cmdTo o c r answer n ≠ .acked (.imm id) := by
    intro keep o answer c r mine refusal
    unfold Home.cmdTo
    split
    · cases answer with
      | opened => simp [Answer.cmd]
      | acked ok =>
        cases ok with
        | true => exact absurd exclusive mine.released
        | false => simpa [Answer.cmd] using refusal
    · simp
  cases home : a.home with
  | unshared | shared L | dirty o => simp [Home.cmd]
  | invalidate rq id flag L answer status => rw [home] at fits; exact absurd exclusive fits.1.1
  | invalidateForward r id flag L answer status => rw [home] at fits; exact absurd exclusive fits.1.1
  | fetchShared rq id flag o answer => rw [home] at fits; exact owner fits.1 (by simp)
  | readForward r id flag o answer => rw [home] at fits; exact owner fits.1 (by simp)
  | fetchInvalidate rq id flag o answer => rw [home] at fits; exact owner fits.1 (by simp)
  | writeForward r id flag o answer => rw [home] at fits; exact owner fits.1 (by simp)

/-- A worker that has not agreed to anything has no acknowledgement on its way. -/
theorem Rel.no_imm (rel : Rel b s a) (away : n ≠ b.wid) (silent : ∀ id, a.home.cmd n ≠ .acked (.imm id)) :
    ∀ x ∈ msgs (s.chan n b.wid), x.isImm = false := by
  intro x member
  have acks : (msgs (s.chan n b.wid)).filterMap Msg.reply? = (a.home.cmd n).acks :=
    congrArg Mail.acks (rel.node n away).mail
  cases x with
  | request r => rfl
  | command c => rfl
  | reply r =>
    have listed : r ∈ (a.home.cmd n).acks := by
      rw [← acks]; exact List.mem_filterMap.mpr ⟨_, member, rfl⟩
    cases cmd : a.home.cmd n with
    | quiet => simp [cmd, Cmd.acks] at listed
    | opened c => simp [cmd, Cmd.acks] at listed
    | acked r' =>
      obtain rfl : r = r' := by simpa [cmd, Cmd.acks] using listed
      cases r with
      | imm id => exact absurd cmd (silent id)
      | _ => rfl

theorem Rel.evictShared (rel : Rel b s a) (away : n ≠ b.wid)
    (line : s.line n = some l) (state : l.state = .shared) (unlocked : l.locks.isBlockLocked = false) :
    Matched g b ((s.setLine n none).send n b.wid [.msg (.request (.activeInvalidate l.ptr))], []) a := by
  have shows := rel.node n away
  obtain ⟨phase, locks, -⟩ := rel.line_some away line
  have phase : a.phase n = .shared l.ptr := Phase.of_line_shared (by rw [← state]; exact phase)
  have free : (a.locks n).isBlockLocked = false := by rw [← locks]; exact unlocked
  have mail : s.mail b n = (a.phase n).mail (a.home.cmd n) := shows.mail
  refine .single (.evictShared n away l.ptr phase free) ?_
  refine rel.only (n := n) (rel.home.congr rfl rfl ?_ rfl ?_ rfl rfl ?_ rfl rfl rfl)
    (rel.framed.send _ _ trivial) ?_ ?_
  · simp [Ne.symm away]
  · simp [Ne.symm away]
  · intro m
    by_cases same : m = n <;> simp [same]
  · intro m notHome other
    simp [other, Ne.symm other, notHome]
  · intro _
    rw [BlockState.side_send_out _ _ _ _ away, BlockState.side_setLine_self, BlockState.mail_send_to_home _ _ _ _ away]
    exact {
      line := by simp
      bare := fun _ => by simpa using Locks.eq_empty_of_not_locked free
      pending := by simpa [phase] using shows.pending
      completions := by simpa [phase] using shows.completions
      mail := by simp [Phase.mail, mail, phase]
      lines := fun o x member => by
        have source := shows.lines o x member
        simp [phase] at source
      landed := by simpa [phase] using shows.landed
      punctual := by
        refine List.pairwise_append.mpr ⟨shows.punctual, List.pairwise_singleton _ _, ?_⟩
        intro x _ y member
        simp at member
        simp [member]
      timely := shows.timely }

theorem Rel.evictDirty (rel : Rel b s a) (inv : Consistent b a) (away : n ≠ b.wid)
    (line : s.line n = some l) (state : l.state = .dirty) (unlocked : l.locks.isBlockLocked = false) (id : Nat) :
    Matched g b (((s.setLine n (some (Cache.setState .toInvalid l))).addPending n
      ⟨.writeBack, id, ⟨false, false⟩, 0, .success, none⟩).send n b.wid
        [.mem l.data, .msg (.request (.writeBack id l.ptr))], []) a := by
  have shows := rel.node n away
  obtain ⟨phase, locks, data⟩ := rel.line_some away line
  have phase : a.phase n = .dirty l.ptr := Phase.of_line_dirty (by rw [← state]; exact phase)
  have free : (a.locks n).isBlockLocked = false := by rw [← locks]; exact unlocked
  have mail : s.mail b n = (a.phase n).mail (a.home.cmd n) := shows.mail
  have pending : s.pending n = [] := by
    simpa [phase, BlockState.side] using shows.pending
  have exclusive : (a.phase n).Exclusive := by rw [phase]; trivial
  have owner := inv.owner_of_exclusive away exclusive
  have copy : l.data = a.copy n := by rw [data, rel.raw_eq_copy away (by rw [phase]; rfl)]
  refine .single (.evictDirty n away l.ptr id phase free) ?_
  refine rel.only (n := n) ?_ (rel.framed.send _ _ ⟨⟨_, _, rfl, rfl⟩, trivial⟩) ?_ ?_
  · exact {
      entry := rel.home.entry
      pending := by simpa [Ne.symm away] using rel.home.pending
      line := by simpa [Ne.symm away] using rel.home.line
      completions := rel.home.completions
      chan := by simpa [Ne.symm away] using rel.home.chan
      clients := rel.home.clients
      writers := fun m => by
        by_cases same : m = n
        · subst m; exact fun _ => owner
        · simpa [same] using rel.home.writers m
      mem := by simp [owner, copy] }
  · intro m notHome other
    simp [other, Ne.symm other, notHome]
  · intro _
    rw [BlockState.side_send_out _ _ _ _ away, BlockState.side_addPending_self,
      BlockState.side_setLine_self, BlockState.mail_send_to_home _ _ _ _ away]
    exact {
      line := by simp [Cache.setState, locks, data]
      bare := fun h => by simp at h
      pending := by simp [BlockState.side, pending]
      completions := by simpa [phase] using shows.completions
      mail := by simp [Phase.mail, mail, phase]
      lines := fun o x member => by
        have source := shows.lines o x member
        simp [phase] at source
      landed := by simpa [phase] using shows.landed
      punctual := by
        refine List.pairwise_append.mpr ⟨shows.punctual, List.pairwise_singleton _ _, ?_⟩
        intro x member y _ imm
        rw [rel.no_imm away (inv.not_acked away exclusive) x member] at imm
        cases imm
      timely := shows.timely }

/-- `Cache::Evict`. -/
theorem Rel.evict (rel : Rel b s a) (inv : Consistent b a) (n : Node) (id : Nat) :
    Matched g b (s.evict b n id, []) a := by
  unfold BlockState.evict
  cases line : s.line n with
  | none => exact .stay rel
  | some l =>
    have away : n ≠ b.wid := by
      rintro rfl
      rw [rel.home.line] at line
      cases line
    by_cases locked : l.locks.isBlockLocked = true
    · simp only [if_pos locked]
      exact .stay rel
    · simp only [if_neg locked]
      cases state : l.state with
      | shared => exact rel.evictShared away line state (by simpa using locked)
      | dirty => exact rel.evictDirty inv away line state (by simpa using locked) id
      | _ => exact .stay rel

end Gam
