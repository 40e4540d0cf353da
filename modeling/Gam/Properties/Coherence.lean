import Gam.Properties.Entries
import Gam.Properties.Forwarded
import Gam.Properties.Lines

/-! What holds between the workers of the cluster, in every state of every run: who owns a block, which locks
there are, and what the home waits for. -/

namespace Gam
variable {Node : Type} [DecidableEq Node] {b : Block Node} {n : Node}

/-- Locks of one address, if one is exclusive, are locks of two workers, and the other is shared. -/
def Hold.Compatible (h h' : Hold Node) : Prop := h.addr = h'.addr → h.exclusive = true ∨ h'.exclusive = true →
  h.thread.node ≠ h'.thread.node ∧ (h.exclusive = false ∨ h'.exclusive = false)

section block
variable {s : BlockState Node} {a : Abs Node} {H : List (Hold Node)} {x : GAddr Node}

/-- The home knows who has a dirty line, and where. -/
theorem Home.Fits.sharers_of_dirty {home : Home Node} {ptr : Nat} (fits : home.Fits n (.dirty ptr)) :
    home.sharers = [⟨n, ptr⟩] := by
  have owner : ∀ {keep o answer}, OwnerFits keep o answer n (.dirty ptr) → [o] = [⟨n, ptr⟩] := by
    intro keep o answer fits
    have same : n = o.wid := Classical.byContradiction fun other => fits.1 other trivial
    have owns : ptr = o.off := by
      have mine := fits.2 same
      cases answer with
      | opened => exact mine
      | acked ok =>
        cases ok with
        | false => exact mine
        | true => exact absurd trivial mine.1
    rw [same, owns]
  cases home with
  | unshared => exact absurd trivial fits.1
  | shared | invalidate | invalidateForward => exact absurd trivial fits.1.1
  | dirty | fetchShared | readForward | fetchInvalidate | writeForward => exact owner fits.1

theorem Rel.listed_of_dirty (rel : Rel b s a) (inv : Consistent b a) {l : CacheLine Node} (line : s.line n = some l)
    (dirty : l.state = .dirty) : Directory.getSList s.entry = [⟨n, l.ptr⟩] := by
  obtain ⟨away, phase, -⟩ := rel.line_shown line
  have fits := inv.fits n away
  rw [dirty] at phase
  generalize a.phase n = ph at phase fits
  cases ph with
  | dirty ptr =>
    cases phase
    exact rel.home.entry.sharers.trans fits.sharers_of_dirty
  | miss op => cases op <;> cases phase
  | _ => cases phase

/-- Where there is an exclusive lock, the home lists nobody else. -/
theorem Booked.writer_listed (booked : Booked b H a) (inv : Consistent b a) (here : x.toBlock = b)
    (held : (holdsAt H n x).any Hold.exclusive = true) :
    ∃ ptr, a.home.sharers = if n = b.wid then [] else [⟨n, ptr⟩] := by
  by_cases home : n = b.wid
  · subst home
    refine ⟨0, ?_⟩
    rw [if_pos rfl, booked.writerHome ((booked.home.wLocked_iff booked.sound).mpr ⟨x, here, held⟩)]
    rfl
  · obtain ⟨ptr, phase⟩ := booked.writer n home (((booked.worker n home).wLocked_iff booked.sound).mpr ⟨x, here, held⟩)
    refine ⟨ptr, ?_⟩
    rw [if_neg home]
    exact (phase ▸ inv.fits n home).sharers_of_dirty

/-- The lock table of worker `n`: in the directory at the home, in the line elsewhere. -/
def BlockState.lockTable (b : Block Node) (s : BlockState Node) (n : Node) : Locks Node :=
  if n = b.wid then Directory.getLocks s.entry else (s.line n).elim ∅ CacheLine.locks

theorem Booked.tally (booked : Booked b H a) (rel : Rel b s a) (n : Node) : Tally H b n (s.lockTable b n) := by
  unfold BlockState.lockTable
  split
  next home =>
    subst home
    rw [rel.home.entry.locks]
    exact booked.home
  next away =>
    have tally := booked.worker n away
    cases line : s.line n with
    | some l => rwa [Option.elim_some, (rel.line_shown line).2.2]
    | none =>
      have shown : s.line n = (a.phase n).line.map fun l => ⟨l.2, l.1, a.locks n, a.raw n⟩ := (rel.node n away).line
      have bare : a.locks n = ∅ := (rel.node n away).bare (Option.map_eq_none_iff.mp (shown.symm.trans line))
      rwa [bare] at tally

/-- The messages of a command round between the home and worker `n`: to be answered, or the answer. -/
def BlockState.due (b : Block Node) (s : BlockState Node) (n : Node) : Nat :=
  (s.mail b n).commands.length + (s.mail b n).acks.length

theorem Rel.due_eq (rel : Rel b s a) {L : List (GAddr Node)} {answer : Node → Option Answer} {c : Command Node}
    {refusal : Reply} (list : Home.ListOk b.wid L) (cmd : ∀ n, a.home.cmd n = (answer n).elim .quiet (Answer.cmd c refusal)) :
    Home.outstanding L answer = L.countP (fun x => s.due b x.wid = 1) ∧ ∀ x ∈ L, s.due b x.wid ≤ 1 := by
  have due : ∀ x ∈ L, s.due b x.wid = if (answer x.wid).isSome then 1 else 0 := by
    intro x member
    have mail : s.mail b x.wid = (a.phase x.wid).mail (a.home.cmd x.wid) := (rel.node x.wid (list.away x member)).mail
    rw [BlockState.due, mail, cmd]
    cases answer x.wid with
    | none => rfl
    | some answer => rcases answer with _ | _ | _ <;> rfl
  refine ⟨congrArg Nat.cast (List.countP_congr fun x member => ?_), fun x member => ?_⟩ <;> rw [due x member]
  · simp [Option.isSome_iff_ne_none]
  · split <;> omega

end block

namespace Sys
variable {mem : Block Node → Data} {s : Sys Node}

section
variable (reach : Reach (fun _ _ => True) mem s)
include reach

/-- A worker with a dirty line is the only one, and the home lists it alone, with the address of the line. -/
theorem Reach.dirty_listed {l : CacheLine Node} (line : (s.blk b).line n = some l) (dirty : l.state = .dirty) :
    Directory.getSList (s.blk b).entry = [⟨n, l.ptr⟩] ∧ ∀ m l', (s.blk b).line m = some l' → l'.state = .dirty → m = n := by
  obtain ⟨abs, sim⟩ := reach.sim fun s act _ => Terms.any_meets s act
  have listed : ∀ {m l'}, (s.blk b).line m = some l' → l'.state = .dirty → _ :=
    (sim.described.rel b).listed_of_dirty (sim.described.consistent b)
  refine ⟨listed line dirty, fun m l' line' dirty' => ?_⟩
  exact congrArg GAddr.wid (List.head_eq_of_cons_eq ((listed line' dirty').symm.trans (listed line dirty)))

/-- An invalidation waits for the listed workers that have a message of the round, and each has one at most. -/
theorem Reach.round_counted {p : Pending Node} (asked : p ∈ (s.blk b).pending b.wid)
    (round : p.op = .invalidate ∨ ∃ r, p.op = .invalidateForward r) :
    p.counter = (Directory.getSList (s.blk b).entry).countP (fun x => (s.blk b).due b x.wid = 1) ∧
      ∀ x ∈ Directory.getSList (s.blk b).entry, (s.blk b).due b x.wid ≤ 1 := by
  obtain ⟨abs, sim⟩ := reach.sim fun s act _ => Terms.any_meets s act
  have rel := sim.described.rel b
  have home := (sim.described.consistent b).home
  rw [rel.home.pending] at asked
  rw [rel.home.entry.sharers]
  cases shown : (abs b).home with
  | unshared | shared | dirty => rw [shown] at asked; cases asked
  | invalidate | invalidateForward =>
    rw [shown] at asked home
    obtain rfl := List.mem_singleton.mp asked
    exact rel.due_eq home.1 fun n => by rw [shown]; rfl
  | _ =>
    rw [shown] at asked
    obtain rfl := List.mem_singleton.mp asked
    rcases round with round | ⟨r, round⟩ <;> cases round

end

theorem dirty_listed_forwarded : ∃ l, (forwardedRead.blk ⟨0, 0⟩).line 1 = some l ∧ l.state = .dirty ∧
    Directory.getSList (forwardedRead.blk ⟨0, 0⟩).entry = [⟨1, l.ptr⟩] :=
  ⟨_, rfl, rfl, (Reach.dirty_listed (Reach.init.play (allows_any _)) rfl rfl).1⟩

/-- The home writes the block that worker 1 shares. -/
def invalidated : Sys Nat :=
  (init fun _ _ => 0).play (sharedBlock ++ [.issue (ask 1 0 0 .write false), .run 0 fun _ => 0, .run 0 fun _ => 0])

theorem round_counted_invalidated : ∃ p ∈ (invalidated.blk ⟨0, 0⟩).pending 0, p.op = .invalidate ∧ p.counter =
    (Directory.getSList (invalidated.blk ⟨0, 0⟩).entry).countP fun x => (invalidated.blk ⟨0, 0⟩).due ⟨0, 0⟩ x.wid = 1 :=
  ⟨_, List.mem_cons_self, rfl, (Reach.round_counted (Reach.init.play (allows_any _)) List.mem_cons_self (Or.inl rfl)).1⟩

section
variable (reach : Reach (fun s act => s.Roomy act) mem s)
include reach

/-- The table of every worker counts the locks its threads were granted and have not released. -/
theorem Reach.lock_tables (n : Node) (x : GAddr Node) :
    ((s.blk x.toBlock).lockTable x.toBlock n).lookup x = lockEntry (holdsAt s.ledger n x) := by
  obtain ⟨abs, sim⟩ := reach.sim fun s act _ => Terms.any_meets s act
  have books := sim.books fun _ _ => id
  exact ((books.booked _).tally (sim.described.rel _) n).lookup rfl

/-- Exclusive locks exclude each other everywhere, and the other locks of their address at their worker. -/
theorem Reach.writers_excluded : s.ledger.Pairwise Hold.Compatible := by
  obtain ⟨abs, sim⟩ := reach.sim fun s act _ => Terms.any_meets s act
  refine List.pairwise_iff_forall_sublist.mpr fun {h h'} sub same writes => ?_
  have booked := (sim.books fun _ _ => id).booked h.addr.toBlock
  have held : ∀ g ∈ [h, h'], g.exclusive = true → (holdsAt s.ledger g.thread.node h.addr).any Hold.exclusive = true := by
    intro g member writes
    refine List.any_eq_true.mpr ⟨g, List.mem_filter.mpr ⟨sub.subset member, ?_⟩, writes⟩
    rcases List.mem_pair.mp member with rfl | rfl <;> simp [Hold.isAt, same]
  have apart : h.thread.node ≠ h'.thread.node := by
    intro node
    have two := sub.filter (Hold.isAt h.thread.node h.addr)
    rw [List.filter_eq_self.mpr (by simp [Hold.isAt, ← node, ← same])] at two
    have one := booked.sound.sole h.thread.node h.addr rfl (by
      rcases writes with writes | writes
      · exact held h (by simp) writes
      · rw [node]; exact held h' (by simp) writes)
    exact absurd two.length_le (by rw [← holdsAt, one]; simp)
  refine ⟨apart, ?_⟩
  by_contra both
  simp only [not_or, Bool.not_eq_false] at both
  obtain ⟨ptr, first⟩ := booked.writer_listed (sim.described.consistent _) rfl (held h (by simp) both.1)
  obtain ⟨ptr', second⟩ := booked.writer_listed (sim.described.consistent _) rfl (held h' (by simp) both.2)
  rw [first] at second
  split at second <;> rename_i home <;> split at second <;> rename_i home'
  · exact apart (home.trans home'.symm)
  · cases second
  · cases second
  · exact apart (congrArg GAddr.wid (List.head_eq_of_cons_eq second))

/-- The `UNLOCK`s of a thread start in the order in which they were issued. Those that wait have a lock to release. -/
theorem Reach.unlocks_in_order (th : Thread Node) :
    s.issues.filter (mine isUnlock th) = s.begun.filter (mine isUnlock th) ++ (s.ahead th).filter isUnlock ∧
      ∀ x, s.releasing.countP (isLock th x) = ((s.ahead th).filter isUnlock).countP fun rq => decide (rq.addr = x) := by
  obtain ⟨abs, sim⟩ := reach.sim fun s act _ => Terms.any_meets s act
  have books := sim.books fun _ _ => id
  exact ⟨books.fifo.inOrder th, books.owed th⟩

end

/-- A thread of worker 0 asks to release its read lock. -/
def unlocking : Sys Nat :=
  (init fun _ _ => 0).play (lockedEntry ++ [.issue { ask 2 0 0 .unlock false with thread := ⟨0, 1⟩ }])

theorem unlocking_reached : Reach (fun s act => s.Roomy act) (fun _ _ => 0) unlocking :=
  Reach.init.play (by decide +kernel)

theorem lock_tables_unlocking : ((unlocking.blk ⟨0, 0⟩).lockTable ⟨0, 0⟩ 0).lookup ⟨0, 0⟩ = some 1 :=
  Reach.lock_tables unlocking_reached 0 ⟨0, 0⟩

theorem writers_excluded_unlocking : unlocking.ledger.length = 1 ∧ unlocking.ledger.Pairwise Hold.Compatible :=
  ⟨rfl, Reach.writers_excluded unlocking_reached⟩

theorem unlocks_in_order_unlocking : unlocking.begun.filter (mine isUnlock ⟨0, 1⟩) = [] ∧
    unlocking.releasing.countP (isLock ⟨0, 1⟩ ⟨0, 0⟩) = 1 :=
  ⟨rfl, (Reach.unlocks_in_order unlocking_reached ⟨0, 1⟩).2 ⟨0, 0⟩⟩

end Sys

end Gam
