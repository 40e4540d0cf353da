import Gam.Preservation

/-! Home and workers stay in agreement in invalidation rounds, and so in every step of the
protocol. -/

namespace Gam

open Function
variable {Node : Type} [DecidableEq Node]

namespace Consistent
variable {g : Guard Node} {b : Block Node} {a a' : Abs Node}

/-! ### Invalidation rounds -/

section rounds
variable {rq : Req Node} {r : Remote Node} {id : Nat} {flag : Flag} {L : List (GAddr Node)}
variable {answer : Node → Option Answer} {status : Status} {n : Node} {ph : Phase Node} {ok : Bool}

/-- Whoever agrees to an invalidation cannot write, and what the home does for it goes on. -/
theorem invalidated_phase (gives : a.Invalidated g n ph) (wf : (a.phase n).WellFormed)
    (exclusive : ¬ (a.phase n).Exclusive) : ph.WellFormed ∧ ¬ ph.Exclusive ∧ (¬ (a.phase n).Waits → ¬ ph.Waits) ∧
      ∀ r flag, (a.phase n).IsServed r flag → ph.IsServed r flag := by
  cases gives with
  | drops ptr phase =>
    refine ⟨trivial, fun h => h, fun _ h => h, fun r flag served => ?_⟩
    rw [phase] at served
    simp [Phase.IsServed] at served
  | lacks ai phase | evicts ptr id phase =>
    rw [phase] at wf exclusive ⊢; exact ⟨wf, exclusive, fun h => h, fun _ _ h => h⟩
  | writes op ptr id flag rq stage phase =>
    rw [phase] at wf exclusive ⊢; exact ⟨wf, exclusive, fun h => h, fun _ _ h => h⟩

theorem listFits_answered (fits : Home.ListFits L answer n ph) {m : Node} {x : Option Answer}
    (ne : n ≠ m) : Home.ListFits L (update answer m x) n ph :=
  ⟨fits.1, fun p listed h => fits.2 p listed (by rwa [update_of_ne ne] at h)⟩

theorem invalidated (inv : Consistent b a) (home : a.home = .invalidate rq id flag L answer status)
    (asked : answer n = some .opened) (gives : a.Invalidated g n ph)
    (homeEq : a'.home = .invalidate rq id flag L (update answer n (some (.acked true))) status)
    (phaseEq : a'.phase = update a.phase n ph) : Consistent b a' := by
  have wf := inv.home
  rw [home] at wf
  obtain ⟨x, member, rfl⟩ := List.mem_map.mp (wf.2.listed n (by simp [asked])).1
  have away := wf.1.away x member
  have old := inv.fits x.wid away
  rw [home] at old
  obtain ⟨phWf, exclusive, waits, -⟩ := invalidated_phase gives (inv.phase _ away) old.1.1
  refine inv.rehome homeEq phaseEq ⟨wf.1, wf.2.answered asked true⟩ phWf
    (fun _ => ⟨⟨exclusive, fun p _ h => absurd (update_self ..) h⟩, waits old.2⟩)
    (fun m _ ne fits => ?_)
  rw [home] at fits
  exact ⟨listFits_answered fits.1 ne, fits.2⟩

theorem invalidatedForward (inv : Consistent b a) (home : a.home = .invalidateForward r id flag L answer status)
    (asked : answer n = some .opened) (gives : a.Invalidated g n ph) (homeEq : a'.home =
      .invalidateForward r id flag L (update answer n (some (.acked true))) status)
    (phaseEq : a'.phase = update a.phase n ph) : Consistent b a' := by
  have wf := inv.home
  rw [home] at wf
  obtain ⟨list, round, rest⟩ := wf
  obtain ⟨x, member, rfl⟩ := List.mem_map.mp (round.listed n (by simp [asked])).1
  have away := list.away x member
  have old := inv.fits x.wid away
  rw [home] at old
  obtain ⟨phWf, exclusive, waits, served⟩ := invalidated_phase gives (inv.phase _ away) old.1.1
  refine inv.rehome homeEq phaseEq ⟨list, round.answered asked true, rest⟩ phWf
    (fun _ => ⟨⟨exclusive, fun p _ h => absurd (update_self ..) h⟩,
      fun h => waits (old.2.1 h), fun h => served _ _ (old.2.2 h)⟩)
    (fun m _ ne fits => ?_)
  rw [home] at fits
  exact ⟨listFits_answered fits.1 ne, fits.2⟩

/-- A refusal changes nothing about who shares the block. -/
theorem listFits_refused (fits : Home.ListFits L answer n ph) {m : Node} (asked : answer m = some .opened) :
    Home.ListFits L (update answer m (some (.acked false))) n ph := by
  refine ⟨fits.1, fun p listed h => fits.2 p listed ?_⟩
  by_cases same : n = m
  · rw [same, asked]; simp
  · rwa [update_of_ne same] at h

/-- Hearing worker `m` keeps everyone in place. -/
theorem listFits_heard {h : Node} (list : Home.ListOk h L) (fits : Home.ListFits L answer n ph)
    {m : Node} (acked : answer m = some (.acked ok)) : Home.ListFits (Home.hear L m ok) (Home.heard answer m) n ph := by
  refine ⟨fits.1, fun p listed open_ => fits.2 p (Home.mem_of_mem_hear listed) ?_⟩
  by_cases same : n = m
  · subst n
    cases ok with
    | true => exact absurd rfl (list.not_mem_hear listed)
    | false => rw [acked]; simp
  · rwa [Home.heard, update_of_ne same] at open_

/-- A round that has failed leaves somebody listed. -/
theorem hear_ne_nil {requester : Option Node} (round : Home.RoundOk L answer requester status)
    (acked : answer n = some (.acked ok)) (failed : Home.verdict status ok ≠ .success) : Home.hear L n ok ≠ [] := by
  have busy : (answer n).isSome := by simp [acked]
  cases ok with
  | false =>
    obtain ⟨x, member, -⟩ := List.mem_map.mp (round.listed n busy).1
    exact List.ne_nil_of_mem member
  | true =>
    obtain ⟨x, member, -, silent⟩ := round.refused failed
    have ne : x.wid ≠ n := by intro same; rw [same, acked] at silent; cases silent
    exact List.ne_nil_of_mem (Home.mem_hear member ne)

/-- The failed round ends: whoever has not agreed keeps its copy. -/
theorem listFits_failed {h : Node} {requester : Option Node} (list : Home.ListOk h L)
    (round : Home.RoundOk L answer requester status) {m : Node}
    (acked : answer m = some (.acked ok)) (last : Home.outstanding L answer = 1) (fits : Home.ListFits L answer n ph) :
    Home.ListFits (Home.hear L m ok) (fun _ => none) n ph := by
  refine ⟨fits.1, fun p listed _ => (listFits_heard list fits acked).2 p listed ?_⟩
  by_cases same : n = m
  · rw [Home.heard, same, update_self]; simp
  · rw [Home.heard, update_of_ne same, round.last list (by simp [acked]) last same]; simp

section
variable (inv : Consistent b a)
include inv

theorem invalidate_starts (shared : a.home = .shared L)
    (homeEq : a'.home = .invalidate rq id flag L (Home.askAll (L.map GAddr.wid)) .success)
    (phaseEq : a'.phase = a.phase) : Consistent b a' := by
  have wf := inv.home
  rw [shared] at wf
  have round : Home.RoundOk L (Home.askAll (L.map GAddr.wid)) none .success := by
    constructor
    · intro n asked
      simpa [Home.askAll] using asked
    · obtain ⟨x, member⟩ := List.exists_mem_of_ne_nil L wf.2
      exact ⟨x.wid, by simpa [Home.askAll] using ⟨x, member, rfl⟩⟩
    · intro _ x member _
      simpa [Home.askAll] using ⟨x, member, rfl⟩
    · exact fun h => absurd rfl h
    · exact Or.inl rfl
  refine inv.rehome_only homeEq phaseEq ⟨wf.1, round⟩ (fun n _ fits => ?_)
  rw [shared] at fits
  exact ⟨⟨fits.1.1, fun p listed _ => fits.1.2 p listed (by simp)⟩, fits.2⟩

theorem invalidateRefused (home : a.home = .invalidate rq id flag L answer status) (asked : answer n = some .opened)
    (homeEq : a'.home = .invalidate rq id flag L (update answer n (some (.acked false))) status)
    (phaseEq : a'.phase = a.phase) : Consistent b a' := by
  have wf := inv.home
  rw [home] at wf
  refine inv.rehome_only homeEq phaseEq ⟨wf.1, wf.2.answered asked false⟩ (fun m _ fits => ?_)
  rw [home] at fits
  exact ⟨listFits_refused fits.1 asked, fits.2⟩

theorem invalidateForwardRefused (home : a.home = .invalidateForward r id flag L answer status)
    (asked : answer n = some .opened) (homeEq : a'.home =
      .invalidateForward r id flag L (update answer n (some (.acked false))) status)
    (phaseEq : a'.phase = a.phase) : Consistent b a' := by
  have wf := inv.home
  rw [home] at wf
  refine inv.rehome_only homeEq phaseEq ⟨wf.1, wf.2.1.answered asked false, wf.2.2⟩
    (fun m _ fits => ?_)
  rw [home] at fits
  exact ⟨listFits_refused fits.1 asked, fits.2⟩

theorem invalidateHeard (home : a.home = .invalidate rq id flag L answer status) (acked : answer n = some (.acked ok))
    (more : Home.outstanding L answer ≠ 1) (homeEq : a'.home =
      .invalidate rq id flag (Home.hear L n ok) (Home.heard answer n) (Home.verdict status ok))
    (phaseEq : a'.phase = a.phase) : Consistent b a' := by
  have wf := inv.home
  rw [home] at wf
  refine inv.rehome_only homeEq phaseEq ⟨wf.1.hear n ok, wf.2.heard wf.1 acked more⟩
    (fun m _ fits => ?_)
  rw [home] at fits
  exact ⟨listFits_heard wf.1 fits.1 acked, fits.2⟩

theorem invalidateForwardHeard (home : a.home = .invalidateForward r id flag L answer status)
    (acked : answer n = some (.acked ok)) (more : Home.outstanding L answer ≠ 1)
    (homeEq : a'.home = .invalidateForward r id flag (Home.hear L n ok) (Home.heard answer n) (Home.verdict status ok))
    (phaseEq : a'.phase = a.phase) : Consistent b a' := by
  have wf := inv.home
  rw [home] at wf
  refine inv.rehome_only homeEq phaseEq
    ⟨wf.1.hear n ok, wf.2.1.heard wf.1 acked more, wf.2.2⟩ (fun m _ fits => ?_)
  rw [home] at fits
  exact ⟨listFits_heard wf.1 fits.1 acked, fits.2⟩

theorem invalidateDone (home : a.home = .invalidate rq id flag L answer status) (homeEq : a'.home = .unshared)
    (phaseEq : a'.phase = a.phase) : Consistent b a' := by
  refine inv.rehome_only homeEq phaseEq trivial (fun m _ fits => ?_)
  rw [home] at fits
  exact ⟨fits.1.1, fits.2⟩

theorem invalidateFailed (home : a.home = .invalidate rq id flag L answer status) (acked : answer n = some (.acked ok))
    (last : Home.outstanding L answer = 1) (failed : Home.verdict status ok ≠ .success)
    (homeEq : a'.home = .shared (Home.hear L n ok)) (phaseEq : a'.phase = a.phase) : Consistent b a' := by
  have wf := inv.home
  rw [home] at wf
  refine inv.rehome_only homeEq phaseEq ⟨wf.1.hear n ok, hear_ne_nil wf.2 acked failed⟩
    (fun m _ fits => ?_)
  rw [home] at fits
  exact ⟨listFits_failed wf.1 wf.2 acked last fits.1, fits.2⟩

theorem invalidateForwardDone (home : a.home = .invalidateForward r id flag L answer status)
    (homeEq : a'.home = .dirty ⟨r.wid, r.ptr⟩) (phaseEq : a'.phase = update a.phase r.wid
      (.miss r.op r.ptr r.id flag rq (.reply true))) : Consistent b a' := by
  have wf := inv.home
  rw [home] at wf
  refine inv.rehome homeEq phaseEq wf.2.2.1 trivial
    (fun _ => ⟨⟨fun h => absurd rfl h, fun _ => ⟨wf.2.2.2, rfl⟩⟩, fun h => h⟩)
    (fun m _ ne fits => ?_)
  rw [home] at fits
  exact ⟨⟨fun _ => fits.1.1, fun same => absurd same ne⟩, fits.2.1 ne⟩

theorem invalidateForwardFailed (home : a.home = .invalidateForward r id flag L answer status)
    (acked : answer n = some (.acked ok)) (last : Home.outstanding L answer = 1)
    (failed : Home.verdict status ok ≠ .success) (phase : a.phase r.wid = .miss r.op r.ptr r.id flag rq .served)
    (homeEq : a'.home = .shared (Home.hear L n ok)) (phaseEq : a'.phase = update a.phase r.wid
      (.miss r.op r.ptr r.id flag rq (.reply false))) : Consistent b a' := by
  have wf := inv.home
  rw [home] at wf
  refine inv.rehome homeEq phaseEq ⟨wf.1.hear n ok, hear_ne_nil wf.2.1 acked failed⟩ trivial
    (fun away => ?_) (fun m _ ne fits => ?_)
  · have fits := inv.fits r.wid away
    rw [home, phase] at fits
    have shares := (listFits_failed wf.1 wf.2.1 acked last fits.1).2
    exact ⟨⟨fun h => h, shares⟩, fun h => h⟩
  · rw [home] at fits
    exact ⟨listFits_failed wf.1 wf.2.1 acked last fits.1, fits.2.1 ne⟩

end

end rounds

/-- A home that has what it needs only writes its memory or its locks. -/
theorem homeWritten {rq : Req Node} {flag : Flag} {outs : List (Out Node)}
    (written : Abs.HomeWritten b rq flag a outs a') : a'.home = a.home ∧ a'.phase = a.phase := by
  cases written <;> exact ⟨rfl, rfl⟩

/-- Every step of the protocol keeps home and workers in agreement. -/
theorem step {outs : List (Out Node)} (inv : Consistent b a) (step : Abs.Step g b a outs a') : Consistent b a' := by
  cases step with
  | readHit | readUpgrading | writeHit | rLockHit | wLockHit | refused | postponed | unLock
  | unLockNothing | land | homeRead | homeWrite | homeRLock | homeWLock | homeUnLock =>
    exact inv.congr rfl rfl
  -- a worker by itself
  | miss n rq _ _ op ptr id d ai phase =>
    exact inv.move (by rw [phase]; exact .miss ai) rfl rfl
  | upgrade n rq _ _ ptr id d phase => exact inv.move (by rw [phase]; exact .upgrade) rfl rfl
  | evictShared n _ ptr phase _ => exact inv.move (by rw [phase]; exact .evictShared) rfl rfl
  | evictDirty n _ ptr id phase _ => exact inv.move (by rw [phase]; exact .evictDirty) rfl rfl
  | readDone n rq _ op ptr id flag stage phase answer | rLockDone n rq _ op ptr id flag stage phase answer
  | rLockLost n rq _ op ptr id flag stage phase answer =>
    rw [phase] at answer
    exact inv.move (by rw [phase]; exact .readDone answer) rfl rfl
  | readFailed n rq _ op ptr id flag stage phase answer =>
    rw [phase] at answer
    exact inv.move (by rw [phase]; exact .readFailed answer) rfl rfl
  | ownerAnswer n _ op ptr id flag rq o ok home early phase =>
    exact inv.move (by rw [phase]; exact .ownerAnswer early) rfl rfl
  | homeAnswer n _ op ptr id flag rq o ok phase =>
    exact inv.move (by rw [phase]; exact .homeAnswer) rfl rfl
  | writeDone n rq _ op ptr id flag stage phase answer
  | wLockDone n rq _ op ptr id flag stage phase answer
  | wLockWaits n rq _ op ptr id flag stage phase answer =>
    rw [phase] at answer
    exact inv.move (by rw [phase]; exact .writeDone answer) rfl rfl
  | writeFailed n rq _ ptr id flag stage phase answer =>
    rw [phase] at answer
    exact inv.move (by rw [phase]; exact .writeFailed answer) rfl rfl
  | undoUpgrade n rq _ ptr id flag stage phase answer =>
    rw [phase] at answer
    exact inv.move (by rw [phase]; exact .undoUpgrade answer) rfl rfl
  | gone n _ ptr id phase => exact inv.move (.gone phase) rfl rfl
  | readRefused c _ ptr id flag rq phase => exact inv.move (by rw [phase]; exact .readRefused) rfl rfl
  | writeRefused c _ op ptr id flag rq phase =>
    exact inv.move (by rw [phase]; exact .writeRefused) rfl rfl
  -- the home asks the owner or the sharers
  | fetchShared rq _ _ id o dirty | fetchInvalidate rq _ _ id o dirty =>
    have wf := inv.home
    rw [dirty] at wf
    exact inv.rehome_only rfl rfl wf fun n _ fits => by rw [dirty] at fits; exact fits
  | invalidate rq _ _ id L shared => exact inv.invalidate_starts shared rfl rfl
  | readServed c away ptr id flag rq phase idle => exact inv.readServed away idle phase rfl rfl
  | readForwarded c away ptr id flag rq newId o phase dirty =>
    exact inv.readForwarded away dirty phase rfl rfl
  | writeGranted c away op ptr id flag rq phase write unshared =>
    exact inv.granted away (by rw [unshared]; trivial) write rfl rfl
  | upgradeGranted c away op ptr id flag rq L phase write shared =>
    exact inv.granted away (by rw [shared]; trivial) write rfl rfl
  | writeInvalidates c away op ptr id flag rq newId L phase write shared others =>
    exact inv.writeInvalidates away shared phase write others rfl rfl
  | writeForwarded c away op ptr id flag rq newId o phase write dirty =>
    exact inv.writeForwarded away dirty phase write rfl rfl
  | dropped c away ptr settled phase =>
    exact inv.cleared away settled rfl rfl trivial (fun h => h) (fun h => h)
      (by rw [phase]; exact fun _ h => h.elim)
      (by rw [phase]; exact fun p h => (Option.some.inj h).symm)
  | droppedFirst c away ptr settled op ptr' id flag rq phase =>
    refine inv.cleared away settled rfl rfl trivial (fun h => h) (fun h => h)
      (by rw [phase]; exact fun _ h => h.elim) (fun p shares => ?_)
    rw [phase] at shares
    rcases shares with same | ⟨none_, -⟩
    · exact (Option.some.inj same).symm
    · cases none_
  | writtenBack c away ptr id settled phase =>
    exact inv.cleared away settled rfl rfl trivial (fun h => h) (fun h => h)
      (by rw [phase]; exact fun p h => Eq.symm h) (by rw [phase]; exact fun p h => Eq.symm h)
  -- the owner answers
  | fetchRefused rq id flag o _ home | takeRefused rq id flag o _ home =>
    have wf := inv.home
    rw [home] at wf
    exact inv.rehome_only rfl rfl wf fun n _ fits => by rw [home] at fits; exact fits
  | readForwardRefused r id flag o _ home rq phase => exact inv.readForwardRefused home rfl rfl
  | writeForwardRefused r id flag o _ home rq phase => exact inv.writeForwardRefused home rfl rfl
  | fetched rq id flag o ph home keeps => exact inv.fetched home keeps rfl rfl
  | readForwardAnswered r id flag o ph home rq phase keeps =>
    exact inv.readForwardAnswered home keeps rfl rfl
  | taken rq id flag o ph newId home gives => exact inv.taken home gives rfl rfl
  | writeForwardAnswered r id flag o ph newId home rq phase gives =>
    exact inv.writeForwardAnswered home gives rfl rfl
  -- the home hears the owner
  | fetchDone rq id flag o home | fetchLockDone rq id flag o home => exact inv.fetchDone home rfl rfl
  | fetchFailed rq id flag o home | takeFailed rq id flag o home =>
    have wf := inv.home
    rw [home] at wf
    exact inv.rehome_only rfl rfl wf fun n _ fits => by rw [home] at fits; exact fits
  | readForwardDone r id flag o home => exact inv.readForwardDone home rfl rfl
  | readForwardFailed r id flag o home => exact inv.readForwardFailed home rfl rfl
  | takeDone rq id flag o outs a' home written =>
    obtain ⟨homeEq, phaseEq⟩ := homeWritten written
    exact inv.takeDone home homeEq phaseEq
  | writeForwardDone r id flag o ok got rq home phase => exact inv.writeForwardDone home phase rfl rfl
  -- invalidation rounds
  | invalidated rq id flag L answer status n ph home asked gives =>
    exact inv.invalidated home asked gives rfl rfl
  | invalidatedForward r id flag L answer status n ph home asked gives =>
    exact inv.invalidatedForward home asked gives rfl rfl
  | invalidateRefused rq id flag L answer status n home asked =>
    exact inv.invalidateRefused home asked rfl rfl
  | invalidateForwardRefused r id flag L answer status n home asked =>
    exact inv.invalidateForwardRefused home asked rfl rfl
  | invalidateHeard rq id flag L answer status n ok home acked more =>
    exact inv.invalidateHeard home acked more rfl rfl
  | invalidateForwardHeard r id flag L answer status n ok home acked more =>
    exact inv.invalidateForwardHeard home acked more rfl rfl
  | invalidateDone rq id flag L answer n outs a' home acked last written =>
    obtain ⟨homeEq, phaseEq⟩ := homeWritten written
    exact inv.invalidateDone home homeEq phaseEq
  | invalidateFailed rq id flag L answer status n ok home acked last failed =>
    exact inv.invalidateFailed home acked last failed rfl rfl
  | invalidateForwardDone r id flag L answer n rq home => exact inv.invalidateForwardDone home rfl rfl
  | invalidateForwardFailed r id flag L answer status n ok rq home acked last failed phase =>
    exact inv.invalidateForwardFailed home acked last failed phase rfl rfl

end Consistent

end Gam
