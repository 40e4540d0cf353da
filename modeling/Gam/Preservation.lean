import Gam.Moves
import Gam.Rounds

/-! Home and workers stay in agreement when the home serves requests and hears owners. -/

namespace Gam

open Function
variable {Node : Type} [DecidableEq Node]

namespace Consistent
variable {b : Block Node} {a a' : Abs Node}
variable {ph : Phase Node} {newId : Nat} {home : Home Node} {o : GAddr Node}

/-- The home changes its mind, and one worker changes its phase with it. -/
theorem rehome (inv : Consistent b a) {c : Node}
    (homeEq : a'.home = home) (phaseEq : a'.phase = update a.phase c ph)
    (wf : home.WellFormed b.wid) (phase : ph.WellFormed) (mine : c ≠ b.wid → home.Fits c ph)
    (others : ∀ n, n ≠ b.wid → n ≠ c → a.home.Fits n (a.phase n) → home.Fits n (a.phase n)) : Consistent b a' := by
  refine ⟨homeEq ▸ wf, fun n away => ?_, fun n away => ?_⟩
  · rw [phaseEq]
    by_cases same : n = c
    · subst n; rw [update_self]; exact phase
    · rw [update_of_ne same]; exact inv.phase n away
  · rw [homeEq, phaseEq]
    by_cases same : n = c
    · subst n; rw [update_self]; exact mine away
    · rw [update_of_ne same]; exact others n away same (inv.fits n away)

/-- Only the home changes its mind. -/
theorem rehome_only (inv : Consistent b a) (homeEq : a'.home = home)
    (phaseEq : a'.phase = a.phase) (wf : home.WellFormed b.wid)
    (others : ∀ n, n ≠ b.wid → a.home.Fits n (a.phase n) → home.Fits n (a.phase n)) : Consistent b a' := by
  refine ⟨homeEq ▸ wf, fun n away => ?_, fun n away => ?_⟩
  · rw [phaseEq]; exact inv.phase n away
  · rw [homeEq, phaseEq]; exact others n away (inv.fits n away)

/-- The home changes its mind together with the owner `o` and the requester `r`. -/
theorem rehome_pair (inv : Consistent b a) {o r : Node} {pho phr : Phase Node}
    (homeEq : a'.home = home) (phaseEq : a'.phase = update (update a.phase o pho) r phr)
    (wf : home.WellFormed b.wid) (wfo : pho.WellFormed) (wfr : phr.WellFormed)
    (owner : o ≠ b.wid → home.Fits o pho) (requester : r ≠ b.wid → home.Fits r phr)
    (others : ∀ n, n ≠ b.wid → n ≠ o → n ≠ r → a.home.Fits n (a.phase n) →
      home.Fits n (a.phase n)) : Consistent b a' := by
  refine ⟨homeEq ▸ wf, fun n away => ?_, fun n away => ?_⟩
  · rw [phaseEq]
    by_cases isR : n = r
    · subst n; rw [update_self]; exact wfr
    · rw [update_of_ne isR]
      by_cases isO : n = o
      · subst n; rw [update_self]; exact wfo
      · rw [update_of_ne isO]; exact inv.phase n away
  · rw [homeEq, phaseEq]
    by_cases isR : n = r
    · subst n; rw [update_self]; exact requester away
    · rw [update_of_ne isR]
      by_cases isO : n = o
      · subst n; rw [update_self]; exact owner away
      · rw [update_of_ne isO]; exact others n away isO isR (inv.fits n away)

/-! ### Requests at the home -/

section requests
variable {c : Node} {op : AccessOp} {ptr id : Nat} {flag : Flag} {rq : Req Node}

/-- Nobody is listed for a line it has not asked for yet. -/
theorem not_listed (inv : Consistent b a) (away : c ≠ b.wid) (idle : a.home.Idle)
    (phase : a.phase c = .miss .read ptr id flag rq (.sent none)) (p : Nat) : ⟨c, p⟩ ∉ a.home.sharers := by
  intro listed
  have shares := (inv.fits c away).shares_of_idle idle listed
  rw [phase] at shares
  simp [Phase.Shares] at shares

theorem listOk_of_idle (inv : Consistent b a) (idle : a.home.Idle) : Home.ListOk b.wid a.home.sharers := by
  have wf := inv.home
  cases home : a.home with
  | unshared => exact ⟨List.nodup_nil, by simp [Home.sharers]⟩
  | shared L => rw [home] at wf; exact wf.1
  | _ => rw [home] at idle; exact idle.elim

section
variable (inv : Consistent b a) (away : c ≠ b.wid)
include inv away

theorem readServed (idle : a.home.Idle) (phase : a.phase c = .miss .read ptr id flag rq (.sent none))
    (homeEq : a'.home = .shared (a.home.sharers ++ [⟨c, ptr⟩]))
    (phaseEq : a'.phase = update a.phase c (.miss .read ptr id flag rq (.reply true))) : Consistent b a' := by
  have list := inv.listOk_of_idle idle
  have fresh : c ∉ a.home.sharers.map GAddr.wid := by
    intro listed
    obtain ⟨⟨w, p⟩, member, rfl⟩ := List.mem_map.mp listed
    exact inv.not_listed away idle phase p member
  refine inv.rehome homeEq phaseEq ⟨⟨?_, ?_⟩, by simp⟩ trivial (fun _ => ⟨⟨by simp [Phase.Exclusive], ?_⟩, fun h => h⟩)
    (fun n _ other fits => ⟨⟨fits.not_exclusive_of_idle idle, ?_⟩, ?_⟩)
  · simpa [List.nodup_append, list.nodup] using fun x member => by
      rintro rfl
      exact fresh (List.mem_map.mpr ⟨x, member, rfl⟩)
  · intro x member
    rcases List.mem_append.mp member with old | new
    · exact list.away x old
    · rw [List.mem_singleton.mp new]; exact away
  · intro p listed _
    rcases List.mem_append.mp listed with old | new
    · exact absurd old (inv.not_listed away idle phase p)
    · simpa [Phase.Shares, eq_comm] using new
  · intro p listed _
    rcases List.mem_append.mp listed with old | new
    · exact fits.shares_of_idle idle old
    · exact absurd (congrArg GAddr.wid (List.mem_singleton.mp new)) other
  · refine fits.not_waits_of_settled ?_
    cases home : a.home <;> rw [home] at idle <;> trivial

/-- The requester of a line is not the owner of the block. -/
theorem not_owner {ai : Option Nat}
    (dirty : a.home = .dirty o) (phase : a.phase c = .miss op ptr id flag rq (.sent ai)) : c ≠ o.wid := by
  intro same
  have fits := inv.fits c away
  rw [dirty, phase] at fits
  exact fits.1.2 same

theorem readForwarded
    (dirty : a.home = .dirty o) (phase : a.phase c = .miss .read ptr id flag rq (.sent none))
    (homeEq : a'.home = .readForward ⟨.read, id, ptr, c⟩ newId flag o .opened)
    (phaseEq : a'.phase = update a.phase c (.miss .read ptr id flag rq .served)) : Consistent b a' := by
  have other := inv.not_owner away dirty phase
  have wf := inv.home
  rw [dirty] at wf
  refine inv.rehome homeEq phaseEq ⟨wf, away, other, rfl⟩ trivial
    (fun _ => ⟨⟨fun _ h => h, fun same => absurd same other⟩, fun h => absurd rfl h, fun _ => ⟨rq, rfl⟩⟩)
    (fun n _ ne fits => ?_)
  rw [dirty] at fits
  exact ⟨fits.1.opened, fun _ => fits.2, fun same => absurd same ne⟩

theorem writeForwarded
    (dirty : a.home = .dirty o) (phase : a.phase c = .miss op ptr id flag rq (.sent none)) (write : op ≠ .read)
    (homeEq : a'.home = .writeForward ⟨op, id, ptr, c⟩ newId flag o .opened)
    (phaseEq : a'.phase = update a.phase c (.miss op ptr id flag rq .served)) : Consistent b a' := by
  have other := inv.not_owner away dirty phase
  have wf := inv.home
  rw [dirty] at wf
  refine inv.rehome homeEq phaseEq ⟨wf, away, other, write⟩ trivial
    (fun _ => ⟨⟨fun _ h => h, fun same => absurd same other⟩, fun h => absurd rfl h, fun _ => ⟨rq, rfl⟩⟩)
    (fun n _ ne fits => ?_)
  rw [dirty] at fits
  exact ⟨fits.1.opened, fun _ => fits.2, fun same => absurd same ne⟩

/-- A worker becomes the owner of a block that no other worker caches. -/
theorem granted (idle : a.home.Idle) (write : op ≠ .read) (homeEq : a'.home = .dirty ⟨c, ptr⟩)
    (phaseEq : a'.phase = update a.phase c (.miss op ptr id flag rq (.reply true))) : Consistent b a' := by
  refine inv.rehome homeEq phaseEq away trivial
    (fun _ => ⟨⟨fun h => absurd rfl h, fun _ => ⟨write, rfl⟩⟩, fun h => h⟩)
    (fun n _ ne fits => ⟨⟨fun _ => fits.not_exclusive_of_idle idle, fun same => absurd same ne⟩, ?_⟩)
  refine fits.not_waits_of_settled ?_
  cases home : a.home <;> rw [home] at idle <;> trivial

theorem writeInvalidates {L : List (GAddr Node)} (shared : a.home = .shared L)
    (phase : a.phase c = .miss op ptr id flag rq (.sent none)) (write : op ≠ .read) (others : ∃ x ∈ L, x.wid ≠ c)
    (homeEq : a'.home = .invalidateForward ⟨op, id, ptr, c⟩ newId flag L
      (Home.askAll ((L.map GAddr.wid).filter fun n => decide (n ≠ c))) .success)
    (phaseEq : a'.phase = update a.phase c (.miss op ptr id flag rq .served)) : Consistent b a' := by
  have wf := inv.home
  rw [shared] at wf
  have round : Home.RoundOk L
      (Home.askAll ((L.map GAddr.wid).filter fun n => decide (n ≠ c))) (some c) .success := by
    constructor
    · intro n asked
      simpa [Home.askAll] using asked
    · obtain ⟨x, member, other⟩ := others
      exact ⟨x.wid, by simpa [Home.askAll, other] using ⟨x, member, rfl⟩⟩
    · intro _ x member other
      have ne : x.wid ≠ c := fun same => other (congrArg some same)
      simpa [Home.askAll, ne] using ⟨x, member, rfl⟩
    · exact fun h => absurd rfl h
    · exact Or.inl rfl
  refine inv.rehome homeEq phaseEq ⟨wf.1, round, away, write⟩ trivial
    (fun _ => ⟨⟨fun h => h, fun p listed _ => ?_⟩, fun h => absurd rfl h, fun _ => ⟨rq, rfl⟩⟩)
    (fun n _ ne fits => ?_)
  · have fits := inv.fits c away
    rw [shared, phase] at fits
    have shares := fits.1.2 p listed (by simp)
    simpa [Phase.Shares] using shares
  · rw [shared] at fits
    exact ⟨⟨fits.1.1, fun p listed _ => fits.1.2 p listed (by simp)⟩, fun _ => fits.2,
      fun same => absurd same ne⟩

/-- A line leaves the list of the home. -/
theorem cleared (settled : a.home.Settled) (homeEq : a'.home = a.home.clear ⟨c, ptr⟩)
    (phaseEq : a'.phase = update a.phase c ph) (wf : ph.WellFormed) (exclusive : ¬ ph.Exclusive) (waits : ¬ ph.Waits)
    (owns : ∀ p, (a.phase c).Owns p → p = ptr) (shares : ∀ p, (a.phase c).Shares p → p = ptr) : Consistent b a' := by
  have homeWf := inv.home
  have old := inv.fits c away
  cases home : a.home with
  | unshared =>
    rw [home] at homeEq old homeWf
    exact inv.rehome homeEq phaseEq homeWf wf (fun _ => ⟨exclusive, waits⟩)
      (fun n _ _ fits => by rwa [home] at fits)
  | shared L =>
    rw [home] at homeEq old homeWf
    have left : ∀ n, n ≠ c → ∀ p, ⟨n, p⟩ ∈ (L.filter fun x => decide (x ≠ ⟨c, ptr⟩)) → ⟨n, p⟩ ∈ L :=
      fun n _ p member => List.mem_of_mem_filter member
    have gone : ∀ p, ⟨c, p⟩ ∉ L.filter fun x => decide (x ≠ (⟨c, ptr⟩ : GAddr Node)) := by
      intro p member
      obtain ⟨listed, ne⟩ := List.mem_filter.mp member
      have same := shares p (old.1.2 p listed (by simp))
      simp [same] at ne
    by_cases empty : (L.filter fun x => decide (x ≠ (⟨c, ptr⟩ : GAddr Node))).isEmpty = true
    · have target : a'.home = .unshared := by rw [homeEq]; simp only [Home.clear, empty, if_true]
      refine inv.rehome target phaseEq trivial wf (fun _ => ⟨exclusive, waits⟩)
        (fun n _ _ fits => ?_)
      rw [home] at fits
      exact ⟨fits.1.1, fits.2⟩
    · have target : a'.home = .shared (L.filter fun x => decide (x ≠ (⟨c, ptr⟩ : GAddr Node))) := by
        rw [homeEq]; simp only [Home.clear, empty]; rfl
      refine inv.rehome target phaseEq ⟨homeWf.1.filter _, by simpa using empty⟩ wf
        (fun _ => ⟨⟨exclusive, fun p listed _ => absurd listed (gone p)⟩, waits⟩)
        (fun n _ ne fits => ?_)
      rw [home] at fits
      exact ⟨⟨fits.1.1, fun p listed h => fits.1.2 p (left n ne p listed) h⟩, fits.2⟩
  | dirty o =>
    rw [home] at homeEq old homeWf
    by_cases same : o = ⟨c, ptr⟩
    · have target : a'.home = .unshared := by rw [homeEq]; simp [Home.clear, same]
      refine inv.rehome target phaseEq trivial wf (fun _ => ⟨exclusive, waits⟩)
        (fun n _ ne fits => ?_)
      rw [home] at fits
      exact ⟨fits.1.1 (by rw [same]; exact ne), fits.2⟩
    · have target : a'.home = .dirty o := by rw [homeEq]; simp [Home.clear, same]
      have other : c ≠ o.wid := by
        intro isOwner
        have ptrEq := owns o.off (old.1.2 isOwner)
        exact same (by rw [isOwner, ← ptrEq])
      refine inv.rehome target phaseEq homeWf wf
        (fun _ => ⟨⟨fun _ => exclusive, fun isOwner => absurd isOwner other⟩, waits⟩)
        (fun n _ _ fits => by rwa [home] at fits)
  | _ => rw [home] at settled; exact settled.elim

end

end requests

/-! ### Answers of the owner -/

section owner
variable {rq : Req Node} {r : Remote Node} {id : Nat} {flag : Flag} {o : GAddr Node}

/-- The owner after it has shared the block: with a shared copy, or on its way out. -/
theorem keeps_shares (keeps : (a.phase o.wid = .dirty o.off ∧ ph = .shared o.off) ∨
      (∃ id', a.phase o.wid = .evicting o.off id') ∧ ph = a.phase o.wid) :
    ph.WellFormed ∧ ¬ ph.Exclusive ∧ ¬ ph.Waits ∧ ph.Shares o.off := by
  rcases keeps with ⟨-, rfl⟩ | ⟨⟨id', evicting⟩, rfl⟩
  · exact ⟨trivial, fun h => h, fun h => h, rfl⟩
  · rw [evicting]; exact ⟨trivial, fun h => h, fun h => h, rfl⟩

/-- The owner after it has handed the block over. -/
theorem gives_up
    (gives : (a.phase o.wid = .dirty o.off ∧ (a.locks o.wid).isBlockLocked = false ∧ ph = .leaving o.off newId flag) ∨
      (∃ id', a.phase o.wid = .evicting o.off id') ∧ ph = a.phase o.wid) :
    ph.WellFormed ∧ ¬ ph.Exclusive ∧ ¬ ph.Waits := by
  rcases gives with ⟨-, -, rfl⟩ | ⟨⟨id', evicting⟩, rfl⟩
  · exact ⟨trivial, fun h => h, fun h => h⟩
  · rw [evicting]; exact ⟨trivial, fun h => h, fun h => h⟩

section
variable (inv : Consistent b a)
include inv

theorem fetched (home : a.home = .fetchShared rq id flag o .opened)
    (keeps : (a.phase o.wid = .dirty o.off ∧ ph = .shared o.off) ∨
      (∃ id', a.phase o.wid = .evicting o.off id') ∧ ph = a.phase o.wid)
    (homeEq : a'.home = .fetchShared rq id flag o (.acked true))
    (phaseEq : a'.phase = update a.phase o.wid ph) : Consistent b a' := by
  have wf := inv.home
  rw [home] at wf
  obtain ⟨phWf, exclusive, waits, shares⟩ := keeps_shares keeps
  refine inv.rehome homeEq phaseEq wf phWf
    (fun _ => ⟨⟨fun h => absurd rfl h, fun _ => ⟨exclusive, fun _ => shares⟩⟩, waits⟩)
    (fun n _ ne fits => ?_)
  rw [home] at fits
  exact ⟨⟨fits.1.1, fun same => absurd same ne⟩, fits.2⟩

theorem taken (home : a.home = .fetchInvalidate rq id flag o .opened)
    (gives : (a.phase o.wid = .dirty o.off ∧ (a.locks o.wid).isBlockLocked = false ∧ ph = .leaving o.off newId flag) ∨
      (∃ id', a.phase o.wid = .evicting o.off id') ∧ ph = a.phase o.wid)
    (homeEq : a'.home = .fetchInvalidate rq id flag o (.acked true))
    (phaseEq : a'.phase = update a.phase o.wid ph) : Consistent b a' := by
  have wf := inv.home
  rw [home] at wf
  obtain ⟨phWf, exclusive, waits⟩ := gives_up gives
  refine inv.rehome homeEq phaseEq wf phWf
    (fun _ => ⟨⟨fun h => absurd rfl h, fun _ => ⟨exclusive, fun h => absurd h (by decide)⟩⟩, waits⟩)
    (fun n _ ne fits => ?_)
  rw [home] at fits
  exact ⟨⟨fits.1.1, fun same => absurd same ne⟩, fits.2⟩

theorem readForwardAnswered (home : a.home = .readForward r id flag o .opened)
    (keeps : (a.phase o.wid = .dirty o.off ∧ ph = .shared o.off) ∨
      (∃ id', a.phase o.wid = .evicting o.off id') ∧ ph = a.phase o.wid)
    (homeEq : a'.home = .readForward r id flag o (.acked true))
    (phaseEq : a'.phase = update (update a.phase o.wid ph) r.wid
      (.miss r.op r.ptr r.id flag rq (.peer o.wid true))) : Consistent b a' := by
  have wf := inv.home
  rw [home] at wf
  obtain ⟨phWf, exclusive, waits, shares⟩ := keeps_shares keeps
  refine inv.rehome_pair homeEq phaseEq wf phWf wf.2.2.2
    (fun _ => ⟨⟨fun h => absurd rfl h, fun _ => ⟨exclusive, fun _ => shares⟩⟩, fun _ => waits,
      fun same => absurd same.symm wf.2.2.1⟩)
    (fun _ => ⟨⟨fun _ h => h, fun same => absurd same wf.2.2.1⟩, fun h => absurd rfl h,
      fun _ => ⟨fun h => h, fun _ => rfl⟩⟩)
    (fun n _ notO notR fits => ?_)
  rw [home] at fits
  exact ⟨⟨fits.1.1, fun same => absurd same notO⟩, fits.2.1, fun same => absurd same notR⟩

theorem writeForwardAnswered (home : a.home = .writeForward r id flag o .opened)
    (gives : (a.phase o.wid = .dirty o.off ∧ (a.locks o.wid).isBlockLocked = false ∧ ph = .leaving o.off newId flag) ∨
      (∃ id', a.phase o.wid = .evicting o.off id') ∧ ph = a.phase o.wid)
    (homeEq : a'.home = .writeForward r id flag o (.acked true))
    (phaseEq : a'.phase = update (update a.phase o.wid ph) r.wid
      (.miss r.op r.ptr r.id flag rq (.hand o.wid true false .due))) : Consistent b a' := by
  have wf := inv.home
  rw [home] at wf
  obtain ⟨phWf, exclusive, waits⟩ := gives_up gives
  refine inv.rehome_pair homeEq phaseEq wf phWf ⟨wf.2.2.2, by simp⟩
    (fun _ => ⟨⟨fun h => absurd rfl h, fun _ => ⟨exclusive, fun h => absurd h (by decide)⟩⟩,
      fun _ => waits, fun same => absurd same.symm wf.2.2.1⟩)
    (fun _ => ⟨⟨fun _ h => h rfl, fun same => absurd same wf.2.2.1⟩, fun h => absurd rfl h, fun _ => ⟨rq, false, rfl⟩⟩)
    (fun n _ notO notR fits => ?_)
  rw [home] at fits
  exact ⟨⟨fits.1.1, fun same => absurd same notO⟩, fits.2.1, fun same => absurd same notR⟩

theorem readForwardRefused (home : a.home = .readForward r id flag o .opened)
    (homeEq : a'.home = .readForward r id flag o (.acked false)) (phaseEq : a'.phase = update a.phase r.wid
      (.miss r.op r.ptr r.id flag rq (.peer o.wid false))) : Consistent b a' := by
  have wf := inv.home
  rw [home] at wf
  refine inv.rehome homeEq phaseEq wf wf.2.2.2
    (fun _ => ⟨⟨fun _ h => h, fun same => absurd same wf.2.2.1⟩, fun h => absurd rfl h,
      fun _ => ⟨fun h => h, fun h => absurd h (by decide)⟩⟩)
    (fun n _ ne fits => ?_)
  rw [home] at fits
  exact ⟨fits.1.refused, fits.2.1, fun same => absurd same ne⟩

theorem writeForwardRefused (home : a.home = .writeForward r id flag o .opened)
    (homeEq : a'.home = .writeForward r id flag o (.acked false)) (phaseEq : a'.phase = update a.phase r.wid
      (.miss r.op r.ptr r.id flag rq (.hand o.wid false false .due))) : Consistent b a' := by
  have wf := inv.home
  rw [home] at wf
  refine inv.rehome homeEq phaseEq wf ⟨wf.2.2.2, by simp⟩
    (fun _ => ⟨⟨fun _ h => h, fun same => absurd same wf.2.2.1⟩, fun h => absurd rfl h, fun _ => ⟨rq, false, rfl⟩⟩)
    (fun n _ ne fits => ?_)
  rw [home] at fits
  exact ⟨fits.1.refused, fits.2.1, fun same => absurd same ne⟩

/-- The home ends a transaction in `DIR_SHARED` with the owner and perhaps one more worker. -/
theorem fetchDone (home : a.home = .fetchShared rq id flag o (.acked true))
    (homeEq : a'.home = .shared [o]) (phaseEq : a'.phase = a.phase) : Consistent b a' := by
  have wf := inv.home
  rw [home] at wf
  refine inv.rehome_only homeEq phaseEq
    ⟨⟨List.nodup_singleton _, fun x hx => by rw [List.mem_singleton.mp hx]; exact wf⟩, by simp⟩
    (fun n _ fits => ?_)
  rw [home] at fits
  refine ⟨⟨fits.1.released, fun p listed _ => ?_⟩, fits.2⟩
  obtain rfl := List.mem_singleton.mp listed
  exact (fits.1.2 rfl).2 rfl

theorem readForwardDone (home : a.home = .readForward r id flag o (.acked true))
    (homeEq : a'.home = .shared [o, ⟨r.wid, r.ptr⟩]) (phaseEq : a'.phase = a.phase) : Consistent b a' := by
  have wf := inv.home
  rw [home] at wf
  refine inv.rehome_only homeEq phaseEq
    ⟨⟨by simpa using fun h => wf.2.2.1 h.symm, fun x hx => ?_⟩, by simp⟩ (fun n _ fits => ?_)
  · simp only [List.mem_cons, List.not_mem_nil, or_false] at hx
    rcases hx with rfl | rfl
    · exact wf.1
    · exact wf.2.1
  · rw [home] at fits
    refine ⟨⟨fits.1.released, fun p listed _ => ?_⟩, ?_⟩
    · simp only [List.mem_cons, List.not_mem_nil, or_false] at listed
      rcases listed with rfl | same
      · exact (fits.1.2 rfl).2 rfl
      · obtain ⟨rfl, rfl⟩ := GAddr.mk.inj same
        exact (fits.2.2 rfl).2 rfl
    · by_cases isR : n = r.wid
      · exact (fits.2.2 isR).1
      · exact fits.2.1 isR

theorem readForwardFailed (home : a.home = .readForward r id flag o (.acked false))
    (homeEq : a'.home = .dirty o) (phaseEq : a'.phase = a.phase) : Consistent b a' := by
  have wf := inv.home
  rw [home] at wf
  refine inv.rehome_only homeEq phaseEq wf.1 (fun n _ fits => ?_)
  rw [home] at fits
  refine ⟨fits.1.restored, ?_⟩
  by_cases isR : n = r.wid
  · exact (fits.2.2 isR).1
  · exact fits.2.1 isR

theorem takeDone (home : a.home = .fetchInvalidate rq id flag o (.acked true))
    (homeEq : a'.home = .unshared) (phaseEq : a'.phase = a.phase) : Consistent b a' := by
  refine inv.rehome_only homeEq phaseEq trivial (fun n _ fits => ?_)
  rw [home] at fits
  exact ⟨fits.1.released, fits.2⟩

theorem writeForwardDone {ok got : Bool} (home : a.home = .writeForward r id flag o (.acked ok))
    (phase : a.phase r.wid = .miss r.op r.ptr r.id flag rq (.hand o.wid ok got .due))
    (homeEq : a'.home = .dirty (if ok then ⟨r.wid, r.ptr⟩ else o)) (phaseEq : a'.phase = update a.phase r.wid
      (.miss r.op r.ptr r.id flag rq (.hand o.wid ok got .onWay))) : Consistent b a' := by
  have wf := inv.home
  rw [home] at wf
  cases ok with
  | true =>
    refine inv.rehome homeEq phaseEq wf.2.1 ⟨wf.2.2.2, by simp⟩
      (fun _ => ⟨⟨fun h => absurd rfl h, fun _ => ⟨by simp, rfl⟩⟩, fun h => h⟩) (fun n _ ne fits => ?_)
    rw [home] at fits
    exact ⟨⟨fun _ => fits.1.released, fun same => absurd same ne⟩, fits.2.1 ne⟩
  | false =>
    refine inv.rehome homeEq phaseEq wf.1 ⟨wf.2.2.2, by simp⟩
      (fun _ => ⟨⟨fun _ h => h, fun same => absurd same wf.2.2.1⟩, fun h => h⟩)
      (fun n _ ne fits => ?_)
    rw [home] at fits
    exact ⟨fits.1.restored, fits.2.1 ne⟩

end

end owner

end Consistent

end Gam
