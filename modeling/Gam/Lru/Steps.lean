import Gam.Lru.Valid

/-! Every event keeps the invariant of a cache. -/

namespace Gam.Lru

open Function

variable {Node : Type} {strict : Prop} {s s' s'' : State Node} {lists lists' : Nat → List Nat} {p : Nat} {l : Line Node}

/-! ## Changes of one line -/

/-- Only the line at `p` changes, apart from the lists. -/
structure Only (p : Nat) (f : Core Node → Core Node) (s s' : State Node) : Prop extends Beside s s' where
  others : ∀ q, q ≠ p → s'.core q = s.core q
  own : s'.core p = (s.core p).map f

namespace Only

variable {f g : Core Node → Core Node}

theorem of_keeps (keeps : (∀ q, s'.core q = s.core q) ∧ Beside s s') : Only p id s s' :=
  ⟨keeps.2, fun q _ => keeps.1 q, by rw [keeps.1, Option.map_id]; rfl⟩

theorem trans (first : Only p f s s') (second : Only p g s' s'') : Only p (g ∘ f) s s'' :=
  ⟨first.toBeside.trans second.toBeside, fun q other => (second.others q other).trans (first.others q other),
    by rw [second.own, first.own, Option.map_map]⟩

theorem modify (h : Line Node → Line Node) (cores : ∀ l, (h l).core = f l.core) : Only p f s (s.modify p h) := by
  refine ⟨.modify .., fun q other => ?_, ?_⟩
  · rw [State.core, State.lines_modify, if_neg other]
    rfl
  · rw [State.core, State.lines_modify, if_pos rfl, State.core, Option.map_map, Option.map_map]
    exact congrArg (Option.map · _) (funext cores)

theorem setState (state : CacheState) : Only p (fun k => { k with state }) s (s.setState p state) := modify _ fun _ => rfl

theorem setLocks (locks : Locks Node) : Only p (fun k => { k with locks }) s (s.setLocks p locks) := modify _ fun _ => rfl

theorem linkLRU (pick : Pick) : Only p id s (s.linkLRU pick p) := of_keeps (s.linkLRU_keeps pick p)

theorem unLinkAt (i : Nat) : Only p id s (s.unLinkAt p i) := of_keeps (s.unLinkAt_keeps p i)

theorem unLinkLRU : Only p id s (s.unLinkLRU p) := of_keeps (s.unLinkLRU_keeps p)

theorem lines (only : Only p f s s') (found : s.lines p = some l) : ∃ l', s'.lines p = some l' ∧ l'.core = f l.core := by
  have own := only.own
  rw [State.core, State.core, found, Option.map_some, Option.map_some, Option.map_eq_some_iff] at own
  exact own

end Only

theorem core_of_lines (found : s.lines p = some l) : s.core p = some l.core := by rw [State.core, found]; rfl

/-- The lists do not depend on the pending requests and the counters. -/
theorem Shape.of_lines (shape : Shape s lists) (lines : s'.lines = s.lines) (heads : s'.heads = s.heads) (tails : s'.tails = s.tails) :
    Shape s' lists := by
  have next : s'.next = s.next := by funext p; rw [State.next, lines]; rfl
  have prev : s'.prev = s.prev := by funext p; rw [State.prev, lines]; rfl
  refine ⟨⟨?_, shape.apart, ?_, ?_⟩, ?_, shape.bounded⟩
  · rw [next, prev, heads, tails]
    exact shape.deque
  · rw [lines]
    exact shape.listed
  · rw [lines]
    exact shape.loose
  · rw [lines]
    exact shape.pos

/-- A step that changes one line and its place in the lists. -/
theorem Valid.change (valid : Valid s lists) (resident : strict → Resident s lists) (shape : Shape s' lists') (moves : Moves p lists lists')
    (found : s.lines p = some l) {k' : Core Node} (others : ∀ q, q ≠ p → s'.core q = s.core q) (own : s'.core p = some k')
    (same : k'.addr = l.addr) (caches : s'.caches = s.caches) (fits : Fits s l.addr k'.state s'.pending)
    (used : s'.usedBytes = s.usedBytes) (evicted : s'.toEvicted = s.toEvicted + leaving (some k') - leaving (some l.core))
    (fetched : k'.state = .toShared ∨ k'.state = .toDirty → ∀ i, p ∉ lists' i)
    (usable : strict → k'.state = .shared ∨ k'.state = .dirty → ∃ i, p ∈ lists' i) : Inv strict s' := by
  have core := core_of_lines found
  refine ⟨lists', ⟨shape, valid.toBooks.change core others own same caches fits, valid.toCounted.change (p := p) others ?_ ?_,
    fun q k there state i => ?_⟩, fun holds q k there state => ?_⟩
  · rw [used, own, core, alive, alive, sub_self, mul_zero, add_zero]
  · rw [evicted, own, core]
  · by_cases equal : q = p
    · subst equal
      obtain rfl := Option.some.inj (own.symm.trans there)
      exact fetched state i
    · rw [moves q equal]
      exact valid.fetched q k ((others q equal).symm.trans there) state i
  · by_cases equal : q = p
    · subst equal
      obtain rfl := Option.some.inj (own.symm.trans there)
      exact usable holds state
    · obtain ⟨i, member⟩ := resident holds q k ((others q equal).symm.trans there) state
      exact ⟨i, (moves q equal i).mpr member⟩

theorem leaving_of_ne {k : Core Node} (state : k.state ≠ .toInvalid) : leaving (some k) = 0 := if_neg state

/-- A line that is not in transition is not about to be deleted. -/
theorem leaving_steady {k : Core Node} (steady : k.state.inTransition = false) : leaving (some k) = 0 := by
  refine leaving_of_ne fun state => ?_
  rw [state] at steady
  cases steady

/-- A line that is not in transition is not fetched. -/
theorem CacheState.not_fetched {state : CacheState} (steady : state.inTransition = false) : ¬(state = .toShared ∨ state = .toDirty) := by
  rintro (rfl | rfl) <;> cases steady

namespace Inv

/-- A hit. -/
theorem touch (inv : Inv strict s) (pick : Pick) (found : s.lines p = some l) (steady : l.state.inTransition = false) :
    Inv strict (s.touch pick p) := by
  obtain ⟨lists, valid, resident⟩ := inv
  obtain ⟨lists₁, shape₁, absent, moves₁⟩ := valid.toShape.unLinkLRU found
  obtain ⟨l₁, found₁, _⟩ := (Only.unLinkLRU (s := s) (p := p)).lines found
  obtain ⟨lists₂, shape₂, present, moves₂⟩ := shape₁.linkLRU pick found₁ absent
  have only : Only p (id ∘ id) s (s.touch pick p) := Only.unLinkLRU.trans (Only.linkLRU pick)
  have own : (s.touch pick p).core p = some l.core := by rw [only.own, core_of_lines found]; rfl
  exact valid.change resident shape₂ (fun q other i => (moves₂ q other i).trans (moves₁ q other i)) found only.others own rfl only.caches
    (only.pending ▸ valid.fits_same (core_of_lines found)) only.usedBytes (by rw [only.toEvicted, add_sub_cancel_right])
    (fun fetching => absurd fetching (CacheState.not_fetched steady)) fun _ _ => present

/-- The locks of a line change. -/
theorem setLocks (inv : Inv strict s) (found : s.lines p = some l) (locks : Locks Node) : Inv strict (s.setLocks p locks) := by
  obtain ⟨lists, valid, resident⟩ := inv
  have only : Only p _ s (s.setLocks p locks) := Only.setLocks locks
  have own : (s.setLocks p locks).core p = some { l.core with locks } := by rw [only.own, core_of_lines found]; rfl
  exact valid.change resident (valid.toShape.modify (fun _ => rfl) (fun _ => rfl) fun _ => rfl) (fun _ _ _ => Iff.rfl) found only.others own rfl
    only.caches (only.pending ▸ valid.fits_same (core_of_lines found)) only.usedBytes
    (by rw [only.toEvicted]; exact (add_sub_cancel_right ..).symm) (fun fetching => valid.fetched p _ (core_of_lines found) fetching)
    fun holds usable => resident holds p _ (core_of_lines found) usable

/-- Write permission is asked for. -/
theorem upgrade (inv : Inv strict s) (found : s.lines p = some l) (steady : l.state.inTransition = false) (lock : Option (GAddr Node)) :
    Inv strict (s.upgrade p ⟨l.addr, .writePermissionOnly, lock⟩) := by
  obtain ⟨lists, valid, resident⟩ := inv
  have core := core_of_lines found
  have shape₀ : Shape (s.setState p .toDirty) lists := valid.toShape.modify (fun _ => rfl) (fun _ => rfl) fun _ => rfl
  obtain ⟨l₀, found₀, _⟩ := (Only.setState (s := s) (p := p) .toDirty).lines found
  obtain ⟨lists', shape, absent, moves⟩ := shape₀.unLinkLRU found₀
  have only : Only p _ s ((s.setState p .toDirty).unLinkLRU p) := (Only.setState .toDirty).trans Only.unLinkLRU
  have own : ((s.setState p .toDirty).unLinkLRU p).core p = some { l.core with state := .toDirty } := by rw [only.own, core]; rfl
  have waits : leaving (some { l.core with state := .toDirty }) = 0 := leaving_of_ne nofun
  refine valid.change resident (shape.of_lines rfl rfl rfl) moves found only.others own rfl only.caches ?_ only.usedBytes
    (only.toEvicted.trans (by rw [leaving_steady (k := l.core) steady, waits, add_zero, sub_zero])) (fun _ => absent) fun _ usable => ?_
  · show Fits s l.addr .toDirty (_ :: _)
    rw [only.pending]
    exact valid.toBooks.fits_await (q := ⟨l.addr, .writePermissionOnly, lock⟩) fun r member => valid.toBooks.not_awaited core steady member
  · rcases usable with impossible | impossible <;> cases impossible

/-- A miss. -/
theorem miss [DecidableEq Node] (inv : Inv strict s) (block : Block Node) (absent : s.caches block = none) (fresh : s.lines p = none)
    (q : Pending Node) (asks : q.block = block) (op : q.op = .read ∨ q.op = .write) :
    Inv strict ((s.newLine p block q.op.state).await q) := by
  obtain ⟨lists, valid, resident⟩ := inv
  have unlisted : ∀ i, p ∉ lists i := fun i member => by
    obtain ⟨l, found⟩ := valid.listed i p member
    rw [fresh] at found
    cases found
  have kept : ∀ y, y ≠ p → (s.newLine p block q.op.state).lines y = s.lines y := fun y other => update_of_ne other ..
  have made : (s.newLine p block q.op.state).lines p = some { addr := block, state := q.op.state, locks := ∅ } := update_self ..
  have fetching : q.op.state = .toShared ∨ q.op.state = .toDirty := by
    rcases op with op | op <;> rw [op]
    · exact Or.inl rfl
    · exact Or.inr rfl
  have others : ∀ y, y ≠ p → ((s.newLine p block q.op.state).await q).core y = s.core y := fun y other => by
    show ((s.newLine p block q.op.state).lines y).map _ = _
    rw [kept y other]
    rfl
  have own : ((s.newLine p block q.op.state).await q).core p = some ⟨block, q.op.state, ∅⟩ := by
    show ((s.newLine p block q.op.state).lines p).map _ = _
    rw [made]
    rfl
  have shape : Shape ((s.newLine p block q.op.state).await q) lists := by
    have links : ∀ i, ∀ y ∈ lists i, ((s.newLine p block q.op.state).await q).lines y = s.lines y := fun i y member =>
      kept y fun same => unlisted i (same ▸ member)
    refine ⟨⟨fun i => (valid.deque i).congr fun y member => ?_, valid.apart, fun i y member => ?_, fun y l found outside => ?_⟩,
      fun i y l member found => ?_, valid.bounded⟩
    · simp only [State.next, State.prev, links i y member, and_self]
    · rw [links i y member]
      exact valid.listed i y member
    · by_cases same : y = p
      · obtain rfl := Option.some.inj (made.symm.trans (same ▸ found))
        exact ⟨rfl, rfl⟩
      · exact valid.loose y l ((kept y same).symm.trans found) outside
    · exact valid.pos i y l member ((links i y member).symm.trans found)
  have alone : ∀ r ∈ s.pending, r.block ≠ q.block := fun r member same => by
    obtain ⟨y, k, cached, _⟩ := valid.awaited r member
    rw [same, asks, absent] at cached
    cases cached
  have nothing : s.core p = none := by rw [State.core, fresh]; rfl
  refine ⟨lists, ⟨shape, valid.toBooks.create (k := ⟨block, q.op.state, ∅⟩) nothing absent others own rfl ?_,
    valid.toCounted.change (p := p) others ?_ ?_, fun y k there state i => ?_⟩, fun holds y k there state => ?_⟩
  · rw [← asks]
    exact valid.toBooks.fits_await alone
  · rw [own, nothing, alive, alive, sub_zero, mul_one]
    rfl
  · rw [own, nothing, leaving_of_ne, leaving, add_zero, sub_zero]
    · rfl
    · rcases op with op | op <;> rw [op] <;> simp [PendingOp.state]
  · by_cases same : y = p
    · exact same ▸ unlisted i
    · exact valid.fetched y k ((others y same).symm.trans there) state i
  · by_cases same : y = p
    · obtain rfl := Option.some.inj (own.symm.trans (same ▸ there))
      rcases fetching with fetching | fetching <;> rw [fetching] at state <;> rcases state with impossible | impossible <;> cases impossible
    · exact resident holds y k ((others y same).symm.trans there) state

variable [DecidableEq Node]

theorem toEvicted_discount (l : Line Node) : (s.discount l).toEvicted = s.toEvicted - leaving (some l.core) := by
  show (if l.state = .toInvalid then _ else _) = _ - if l.state = .toInvalid then 1 else 0
  by_cases state : l.state = .toInvalid
  · rw [if_pos state, if_pos state]
  · rw [if_neg state, if_neg state, sub_zero]

/-- A line that is in no list any more is deleted, and no request is pending for it. -/
theorem dropLine (valid : Valid s lists) (resident : strict → Resident s lists) (found : s.lines p = some l) (shape : Shape s' lists')
    (absent : ∀ i, p ∉ lists' i) (moves : Moves p lists lists') (others : ∀ q, q ≠ p → s'.core q = s.core q) (caches : s'.caches = s.caches)
    (old : ∀ q ∈ s'.pending, q ∈ s.pending ∧ q.block ≠ l.addr) (once : (s'.pending.map Pending.block).Nodup)
    (used : s'.usedBytes = s.usedBytes - blockSize) (evicted : s'.toEvicted = s.toEvicted - leaving (some l.core)) :
    Inv strict (s'.dropLine p l.addr) := by
  have kept : ∀ y, y ≠ p → (s'.dropLine p l.addr).lines y = s'.lines y := fun y other => update_of_ne other ..
  have gone : (s'.dropLine p l.addr).lines p = none := update_self ..
  have none : (s'.dropLine p l.addr).core p = none := by rw [State.core, gone]; rfl
  have cores : ∀ y, y ≠ p → (s'.dropLine p l.addr).core y = s.core y := fun y other => by
    rw [State.core, kept y other]
    exact others y other
  have unlisted : ∀ i y, y ∈ lists' i → y ≠ p := fun i y member here => absent i (here ▸ member)
  have there : ∀ y k, (s'.dropLine p l.addr).core y = some k → y ≠ p ∧ s.core y = some k := by
    intro y k core
    have other : y ≠ p := by
      rintro rfl
      cases none.symm.trans core
    exact ⟨other, (cores y other).symm.trans core⟩
  refine ⟨lists', ⟨⟨⟨fun i => (shape.deque i).congr fun y member => ?_, shape.apart, fun i y member => ?_, fun y x line outside => ?_⟩,
    fun i y x member line => ?_, shape.bounded⟩, valid.toBooks.delete (core_of_lines found) cores none (congrArg (update · _ _) caches) old once,
    valid.toCounted.change (p := p) cores ?_ ?_, fun y k core state i => ?_⟩, fun holds y k core state => ?_⟩
  · simp only [State.next, State.prev, kept y (unlisted i y member), and_self]
  · rw [kept y (unlisted i y member)]
    exact shape.listed i y member
  · have other : y ≠ p := by
      rintro rfl
      cases gone.symm.trans line
    exact shape.loose y x ((kept y other).symm.trans line) outside
  · exact shape.pos i y x member ((kept y (unlisted i y member)).symm.trans line)
  · rw [none, core_of_lines found, alive, alive, zero_sub, mul_neg, mul_one]
    exact used
  · rw [none, core_of_lines found, leaving, add_zero]
    exact evicted
  · obtain ⟨other, before⟩ := there y k core
    rw [moves y other i]
    exact valid.fetched y k before state i
  · obtain ⟨other, before⟩ := there y k core
    obtain ⟨i, member⟩ := resident holds y k before state
    exact ⟨i, (moves y other i).mpr member⟩

/-- `ToInvalid` of a line that no request is pending for, in a state where only its place in the lists has
changed. -/
theorem toInvalid {l' : Line Node} (valid : Valid s lists) (resident : strict → Resident s lists) (found : s.lines p = some l)
    (shape : Shape s' lists') (moves : Moves p lists lists') (found' : s'.lines p = some l') (same : l'.core = l.core)
    (others : ∀ q, q ≠ p → s'.core q = s.core q) (caches : s'.caches = s.caches) (used : s'.usedBytes = s.usedBytes)
    (evicted : s'.toEvicted = s.toEvicted) (old : ∀ q ∈ s'.pending, q ∈ s.pending ∧ q.block ≠ l.addr)
    (once : (s'.pending.map Pending.block).Nodup) : Inv strict (s'.toInvalid p) := by
  have addr : l'.addr = l.addr := congrArg Core.addr same
  have shape₀ : Shape (s'.discount l') lists' := shape.of_lines rfl rfl rfl
  obtain ⟨lists'', shape'', absent, moves''⟩ := shape₀.unLinkLRU found'
  have only : Only p id (s'.discount l') ((s'.discount l').unLinkLRU p) := Only.unLinkLRU
  rw [State.toInvalid, found']
  show Inv strict (((s'.discount l').unLinkLRU p).dropLine p l'.addr)
  rw [addr]
  refine dropLine valid resident found shape'' absent (fun q other i => (moves'' q other i).trans (moves q other i))
    (fun q other => (only.others q other).trans (others q other)) (only.caches.trans caches) ?_ ?_ ?_ ?_
  · rw [only.pending]
    exact old
  · rw [only.pending]
    exact once
  · rw [only.usedBytes, ← used]
    rfl
  · rw [only.toEvicted, toEvicted_discount, same, evicted]

/-- `ToInvalid` of a line that does not wait. -/
theorem toInvalid_steady (inv : Inv strict s) (found : s.lines p = some l) (steady : l.state.inTransition = false) :
    Inv strict (s.toInvalid p) := by
  obtain ⟨lists, valid, resident⟩ := inv
  exact toInvalid valid resident found valid.toShape (fun _ _ _ => Iff.rfl) found rfl (fun _ _ => rfl) rfl rfl rfl
    (fun q member => ⟨member, valid.toBooks.not_awaited (core_of_lines found) steady member⟩) valid.once

/-- `ToInvalid` of a line whose request was answered. -/
theorem toInvalid_answered (inv : Inv strict s) (found : s.lines p = some l) {id : Nat} {q : Pending Node} (asked : s.pending[id]? = some q)
    (own : l.addr = q.block) : Inv strict (State.toInvalid p { s with pending := s.pending.eraseIdx id }) := by
  obtain ⟨lists, valid, resident⟩ := inv
  obtain ⟨old, once⟩ := valid.toBooks.answered asked
  refine toInvalid valid resident found (valid.toShape.of_lines rfl rfl rfl) (fun _ _ _ => Iff.rfl) found rfl (fun _ _ => rfl) rfl rfl rfl ?_ once
  rw [own]
  exact old

end Inv

end Gam.Lru
