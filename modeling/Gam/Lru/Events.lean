import Gam.Lru.Steps

/-!
# Runs of a cache

The replies, the requests of other nodes, eviction and the requests of the application keep the invariant,
so every run does.
-/

namespace Gam.Lru

variable {Node : Type} {strict : Prop} {s s' : State Node} {lists : Nat → List Nat} {p : Nat} {l : Line Node}

/-! ## Replies -/

/-- The line that an answered request is about. -/
theorem Valid.asked (valid : Valid s lists) {q : Pending Node} (member : q ∈ s.pending) (cached : s.caches q.block = some p) :
    ∃ l, s.lines p = some l ∧ l.addr = q.block ∧ l.state = q.op.state := by
  obtain ⟨p', k, cached', core, state⟩ := valid.awaited q member
  obtain rfl := Option.some.inj (cached'.symm.trans cached)
  obtain ⟨k', core', addr⟩ := valid.found _ _ cached
  obtain rfl := Option.some.inj (core'.symm.trans core)
  obtain ⟨l, found, rfl⟩ := Option.map_eq_some_iff.mp core
  exact ⟨l, found, addr, state⟩

namespace Inv

/-- A line arrives: it can be used and is in a list. -/
theorem arrive (valid : Valid s lists) (resident : strict → Resident s lists) (found : s.lines p = some l) {id : Nat} {q : Pending Node}
    (asked : s.pending[id]? = some q) (own : l.addr = q.block) (fetching : q.op.state ≠ .toInvalid) (waits : l.state = q.op.state)
    {state : CacheState} (steady : state.inTransition = false)
    (only : Only p (fun k => { k with state }) { s with pending := s.pending.eraseIdx id } s')
    {lists' : Nat → List Nat} (shape : Shape s' lists') (moves : Moves p lists lists') (present : ∃ i, p ∈ lists' i) : Inv strict s' := by
  have core : s'.core p = some { l.core with state } := by
    rw [only.own]
    show Option.map _ (s.core p) = _
    rw [core_of_lines found]
    rfl
  refine valid.change resident shape moves found only.others core rfl only.caches ?_ only.usedBytes ?_
    (fun fetched => absurd fetched (CacheState.not_fetched steady)) fun _ _ => present
  · rw [only.pending, own]
    exact valid.toBooks.fits_answered asked state
  · rw [only.toEvicted, leaving_steady steady, leaving_of_ne (by rw [← waits] at fetching; exact fetching), add_zero, sub_zero]

variable [DecidableEq Node]

/-- The locks are all that `takeLock` changes. -/
theorem takeLock (inv : Inv strict s) (p : Nat) (exclusive : Bool) (addr : Option (GAddr Node)) :
    Inv strict (s.takeLock p exclusive addr) := by
  cases addr with
  | none => exact inv
  | some addr =>
    cases found : s.lines p with
    | none =>
      have same : s.takeLock p exclusive (some addr) = s := by
        rw [State.takeLock, State.modify, found, Option.map_none, ← found, Function.update_eq_self]
      rw [same]
      exact inv
    | some l =>
      by_cases taken : Cache.isWLocked addr l.locks || (exclusive && Cache.isRLocked addr l.locks)
      · have same : s.takeLock p exclusive (some addr) = s.setLocks p l.locks := by
          rw [State.takeLock, State.setLocks, State.modify, State.modify, found, Option.map_some, Option.map_some, if_pos taken]
        rw [same]
        exact inv.setLocks found _
      · have same : s.takeLock p exclusive (some addr) = s.setLocks p (if exclusive then l.locks.exclude addr else l.locks.share addr) := by
          rw [State.takeLock, State.setLocks, State.modify, State.modify, found, Option.map_some, Option.map_some, if_neg taken]
        rw [same]
        exact inv.setLocks found _

section
variable (valid : Valid s lists) (resident : strict → Resident s lists) (found : s.lines p = some l) {id : Nat}
    {q : Pending Node} (asked : s.pending[id]? = some q) (own : l.addr = q.block) (waits : l.state = q.op.state)
include valid resident found id q asked own waits

/-- The answer to a read. -/
theorem toShared_answered (read : q.op = .read)
    (pick : Pick) : Inv strict (State.toShared pick p { s with pending := s.pending.eraseIdx id }) := by
  have state : l.state = .toShared := by rw [waits, read]; rfl
  have fetching : ∀ i, p ∉ lists i := valid.fetched p l.core (core_of_lines found) (Or.inl state)
  have shape : Shape { s with pending := s.pending.eraseIdx id } lists := valid.toShape.of_lines rfl rfl rfl
  obtain ⟨lists', shape', present, moves⟩ := shape.linkLRU pick found fetching
  rw [State.toShared, found, Option.map_some, if_pos (congrArg some state)]
  refine arrive valid resident found asked own (by rw [read]; exact nofun) waits rfl ((Only.linkLRU pick).trans (Only.setState .shared))
    (shape'.modify (fun _ => rfl) (fun _ => rfl) fun _ => rfl) moves present

/-- The answer to a write. -/
theorem toDirty_answered (write : q.op = .write ∨ q.op = .writePermissionOnly) (pick : Pick) :
    Inv strict (State.toDirty pick p { s with pending := s.pending.eraseIdx id }) := by
  have state : q.op.state = .toDirty := by rcases write with write | write <;> rw [write] <;> rfl
  have fetching : ∀ i, p ∉ lists i := valid.fetched p l.core (core_of_lines found) (Or.inr (waits.trans state))
  have shape₀ : Shape { s with pending := s.pending.eraseIdx id } lists := valid.toShape.of_lines rfl rfl rfl
  have shape : Shape (State.setState p .dirty { s with pending := s.pending.eraseIdx id }) lists :=
    shape₀.modify (fun _ => rfl) (fun _ => rfl) fun _ => rfl
  have only : Only p _ { s with pending := s.pending.eraseIdx id } (State.setState p .dirty { s with pending := s.pending.eraseIdx id }) :=
    Only.setState .dirty
  obtain ⟨l', found', _⟩ := only.lines found
  obtain ⟨lists', shape', present, moves⟩ := shape.linkLRU pick found' fetching
  exact arrive valid resident found asked own (by rw [state]; exact nofun) waits rfl (only.trans (Only.linkLRU pick)) shape' moves present

end

/-- Write permission is refused: the line is shared again, and in no list. -/
theorem undoShared (valid : Valid s lists) (lenient : ¬strict) (found : s.lines p = some l) {id : Nat} {q : Pending Node}
    (asked : s.pending[id]? = some q) (own : l.addr = q.block) (waits : l.state = q.op.state) (upgrade : q.op = .writePermissionOnly) :
    Inv strict (State.setState p .shared { s with pending := s.pending.eraseIdx id }) := by
  have only : Only p _ { s with pending := s.pending.eraseIdx id } (State.setState p .shared { s with pending := s.pending.eraseIdx id }) :=
    Only.setState .shared
  have state : l.state = .toDirty := by rw [waits, upgrade]; rfl
  have core : (State.setState p .shared { s with pending := s.pending.eraseIdx id }).core p = some { l.core with state := .shared } := by
    rw [only.own]
    show Option.map _ (s.core p) = _
    rw [core_of_lines found]
    rfl
  have shared : leaving (some { l.core with state := .shared }) = 0 := leaving_steady rfl
  have shape : Shape { s with pending := s.pending.eraseIdx id } lists := valid.toShape.of_lines rfl rfl rfl
  refine valid.change (fun holds => absurd holds lenient) (shape.modify (fun _ => rfl) (fun _ => rfl) fun _ => rfl) (fun _ _ _ => Iff.rfl) found only.others core rfl only.caches ?_ only.usedBytes ?_ (fun fetched => absurd fetched (CacheState.not_fetched rfl))
    fun holds => absurd holds lenient
  · rw [only.pending, own]
    exact valid.toBooks.fits_answered asked .shared
  · rw [only.toEvicted, shared, leaving_of_ne (by rw [Line.core, state]; exact nofun), add_zero, sub_zero]

/-- The last answer to a pending request. -/
theorem reply (inv : Inv strict s) (id : Nat) (ok : Bool) (pick : Pick)
    (granted : strict → ok = false → ∀ q, s.pending[id]? = some q → q.op ≠ .writePermissionOnly) : Inv strict (s.reply id ok pick) := by
  obtain ⟨lists, valid, resident⟩ := inv
  rw [State.reply]
  cases asked : s.pending[id]? with
  | none => exact ⟨lists, valid, resident⟩
  | some q =>
    have member : q ∈ s.pending := List.mem_of_getElem? asked
    obtain ⟨p, k, cached, _⟩ := valid.awaited q member
    obtain ⟨l, found, own, waits⟩ := valid.asked member cached
    have invalid : Inv strict (State.toInvalid p { s with pending := s.pending.eraseIdx id }) :=
      toInvalid_answered ⟨lists, valid, resident⟩ found asked own
    simp only [cached]
    show Inv strict (State.answer q ok pick p _)
    unfold State.answer
    cases op : q.op with
    | read =>
      cases ok with
      | false => exact invalid
      | true => exact (toShared_answered valid resident found asked own waits op pick).takeLock p false q.lock
    | write =>
      cases ok with
      | false => exact invalid
      | true => exact (toDirty_answered valid resident found asked own waits (Or.inl op) pick).takeLock p true q.lock
    | writePermissionOnly =>
      cases ok with
      | false => exact undoShared valid (fun holds => granted holds rfl q asked op) found asked own waits op
      | true => exact (toDirty_answered valid resident found asked own waits (Or.inr op) pick).takeLock p true q.lock
    | writeBack => cases ok <;> exact invalid
    | invalidate => cases ok <;> exact invalid

/-! ## Requests of other nodes -/

/-- The data of a line was fetched for a reader elsewhere; the line keeps its place. -/
theorem toShared_steady (inv : Inv strict s) (pick : Pick) (found : s.lines p = some l) (steady : l.state.inTransition = false) :
    Inv strict (s.toShared pick p) := by
  obtain ⟨lists, valid, resident⟩ := inv
  have usable : l.state = .shared ∨ l.state = .dirty := by
    cases state : l.state <;> rw [state] at steady
    case shared => exact Or.inl rfl
    case dirty => exact Or.inr rfl
    all_goals cases steady
  have linked : (s.lines p).map Line.state ≠ some .toShared := by
    rw [found, Option.map_some]
    rintro same
    rw [Option.some.inj same] at steady
    cases steady
  rw [State.toShared, if_neg linked]
  have only : Only p _ s (s.setState p .shared) := Only.setState .shared
  have own : (s.setState p .shared).core p = some { l.core with state := .shared } := by rw [only.own, core_of_lines found]; rfl
  have shared : leaving (some { l.core with state := .shared }) = 0 := leaving_steady rfl
  refine valid.change resident (valid.toShape.modify (fun _ => rfl) (fun _ => rfl) fun _ => rfl) (fun _ _ _ => Iff.rfl) found only.others own rfl
    only.caches (only.pending ▸ valid.toBooks.fits_steady (core_of_lines found) steady .shared) only.usedBytes ?_
    (fun fetched => absurd fetched (CacheState.not_fetched rfl)) fun holds _ => resident holds p _ (core_of_lines found) usable
  rw [only.toEvicted, shared, leaving_steady (k := l.core) steady, add_zero, sub_zero]

/-- A line is given away or written back: it waits for the completion of the write, in the list or not. -/
theorem giveAway (valid : Valid s lists) (resident : strict → Resident s lists) (found : s.lines p = some l)
    (steady : l.state.inTransition = false) (only : Only p id s s') {lists' : Nat → List Nat} (shape : Shape s' lists')
    (moves : Moves p lists lists') (q : Pending Node) (asks : q.block = l.addr) (waits : q.op.state = .toInvalid) :
    Inv strict ((s'.toToInvalid p).await q) := by
  have both : Only p _ s (s'.setState p .toInvalid) := only.trans (Only.setState .toInvalid)
  have own : ((s'.toToInvalid p).await q).core p = some { l.core with state := .toInvalid } := by
    show (s'.setState p .toInvalid).core p = _
    rw [both.own, core_of_lines found]
    rfl
  have leaves : leaving (some { l.core with state := .toInvalid }) = 1 := by rw [leaving, if_pos rfl]
  have shape' : Shape (s'.setState p .toInvalid) lists' := shape.modify (fun _ => rfl) (fun _ => rfl) fun _ => rfl
  refine valid.change resident (shape'.of_lines rfl rfl rfl) moves found both.others own rfl both.caches ?_ both.usedBytes ?_ ?_ ?_
  · show Fits s l.addr .toInvalid (q :: (s'.setState p .toInvalid).pending)
    rw [both.pending, ← asks, ← waits]
    refine valid.toBooks.fits_await fun r member => ?_
    rw [asks]
    exact valid.toBooks.not_awaited (core_of_lines found) steady member
  · rw [leaves, leaving_steady (k := l.core) steady, sub_zero, ← both.toEvicted]
    rfl
  · rintro (impossible | impossible) <;> cases impossible
  · rintro _ (impossible | impossible) <;> cases impossible

theorem getCLine_eq {block : Block Node} (found : s.getCLine block = some (p, l)) : s.caches block = some p ∧ s.lines p = some l := by
  obtain ⟨p', cached, line⟩ := Option.bind_eq_some_iff.mp found
  obtain ⟨l', line, same⟩ := Option.map_eq_some_iff.mp line
  cases same
  exact ⟨cached, line⟩

/-- A line in the table is one of its block. -/
theorem addr_of_getCLine {block : Block Node} (valid : Valid s lists) (found : s.getCLine block = some (p, l)) : l.addr = block := by
  obtain ⟨cached, line⟩ := getCLine_eq found
  obtain ⟨k, core, addr⟩ := valid.found block p cached
  obtain rfl := Option.some.inj ((core_of_lines line).symm.trans core)
  exact addr

theorem fetchShared (inv : Inv strict s) (block : Block Node) (pick : Pick) : Inv strict (s.fetchShared block pick) := by
  rw [State.fetchShared]
  cases cached : s.getCLine block with
  | none => exact inv
  | some line =>
    obtain ⟨p, l⟩ := line
    dsimp only
    by_cases busy : (l.state.inTransition || l.locks.isBlockWLocked) = true
    · rw [if_pos busy]
      exact inv
    · rw [if_neg busy]
      rw [Bool.or_eq_true, not_or, Bool.not_eq_true] at busy
      exact inv.toShared_steady pick (getCLine_eq cached).2 busy.1

theorem fetchInvalidate (inv : Inv strict s) (block : Block Node) : Inv strict (s.fetchInvalidate block) := by
  rw [State.fetchInvalidate]
  cases cached : s.getCLine block with
  | none => exact inv
  | some line =>
    obtain ⟨p, l⟩ := line
    dsimp only
    by_cases busy : (l.state.inTransition || l.locks.isBlockLocked) = true
    · rw [if_pos busy]
      exact inv
    · rw [if_neg busy]
      rw [Bool.or_eq_true, not_or, Bool.not_eq_true] at busy
      obtain ⟨lists, valid, resident⟩ := inv
      refine giveAway valid resident (getCLine_eq cached).2 busy.1 (.of_keeps ⟨fun _ => rfl, .refl⟩) valid.toShape (fun _ _ _ => Iff.rfl) _ ?_ rfl
      exact (addr_of_getCLine valid cached).symm

theorem invalidate (inv : Inv strict s) (block : Block Node) : Inv strict (s.invalidate block) := by
  rw [State.invalidate]
  cases cached : s.getCLine block with
  | none => exact inv
  | some line =>
    obtain ⟨p, l⟩ := line
    dsimp only
    by_cases busy : (l.state.inTransition || l.locks.isBlockLocked) = true
    · rw [if_pos busy]
      exact inv
    · rw [if_neg busy]
      rw [Bool.or_eq_true, not_or, Bool.not_eq_true] at busy
      exact inv.toInvalid_steady (getCLine_eq cached).2 busy.1

/-! ## Eviction -/

/-- `Evict` takes the line out of its list first. -/
theorem unLinkOwn (valid : Valid s lists) (found : s.lines p = some l) :
    Only p id s (s.unLinkOwn p l) ∧ ∃ lists', Shape (s.unLinkOwn p l) lists' ∧ Moves p lists lists' := by
  rw [State.unLinkOwn]
  cases place : l.pos with
  | none => exact ⟨.of_keeps ⟨fun _ => rfl, .refl⟩, lists, valid.toShape, fun _ _ _ => Iff.rfl⟩
  | some i =>
    obtain ⟨lists', shape, _, moves⟩ := valid.toShape.unLinkAt found place
    exact ⟨.unLinkAt i, lists', shape, moves⟩

theorem evict (inv : Inv strict s) (list : Nat) (free : Bool) : Inv strict (s.evict list free) := by
  rw [State.evict]
  cases last : s.tails (list % lruNum) with
  | none => exact inv
  | some p =>
    cases found : s.lines p with
    | none =>
      dsimp only
      rw [found]
      exact inv
    | some l =>
      dsimp only
      rw [found]
      dsimp only
      by_cases busy : (!free || l.locks.isBlockLocked || l.state.inTransition) = true
      · rw [if_pos busy]
        exact inv
      · rw [if_neg busy]
        rw [Bool.or_eq_true, not_or, Bool.not_eq_true, Bool.not_eq_true] at busy
        obtain ⟨lists, valid, resident⟩ := inv
        obtain ⟨only, lists', shape, moves⟩ := unLinkOwn valid found
        obtain ⟨l', found', core⟩ := only.lines found
        by_cases shared : l.state = .shared
        · rw [if_pos shared]
          refine toInvalid valid resident found shape moves found' core only.others only.caches only.usedBytes only.toEvicted ?_ ?_
          · rw [only.pending]
            exact fun q member => ⟨member, valid.toBooks.not_awaited (core_of_lines found) busy.2 member⟩
          · rw [only.pending]
            exact valid.once
        · rw [if_neg shared]
          exact giveAway valid resident found busy.2 only shape moves ⟨l.addr, .writeBack, none⟩ rfl rfl

/-! ## Requests of the application -/

/-- A request for a block that is cached. -/
theorem upgrade_found (inv : Inv strict s) {block : Block Node} (cached : s.getCLine block = some (p, l)) (steady : l.state.inTransition = false)
    (lock : Option (GAddr Node)) : Inv strict (s.upgrade p ⟨block, .writePermissionOnly, lock⟩) := by
  have own : l.addr = block := by
    obtain ⟨_, valid, _⟩ := inv
    exact addr_of_getCLine valid cached
  subst own
  exact inv.upgrade (getCLine_eq cached).2 steady lock

/-- A block that is not cached is not in the table. -/
theorem absent_of_getCLine (valid : Valid s lists) {block : Block Node} (missing : s.getCLine block = none) : s.caches block = none := by
  cases cached : s.caches block with
  | none => rfl
  | some p =>
    obtain ⟨k, core, _⟩ := valid.found block p cached
    obtain ⟨l, line, _⟩ := Option.map_eq_some_iff.mp core
    rw [State.getCLine, cached, Option.bind_some, line] at missing
    cases missing

theorem miss_of_getCLine (inv : Inv strict s) {block : Block Node} (missing : s.getCLine block = none) {fresh : Nat}
    (free : ¬(s.lines fresh).isSome = true) (op : PendingOp) (fetches : op = .read ∨ op = .write) (lock : Option (GAddr Node)) :
    Inv strict ((s.newLine fresh block op.state).await ⟨block, op, lock⟩) := by
  have absent : s.caches block = none := by
    obtain ⟨_, valid, _⟩ := inv
    exact absent_of_getCLine valid missing
  refine inv.miss block absent ?_ ⟨block, op, lock⟩ rfl fetches
  rwa [Bool.not_eq_true, Option.isSome_eq_false_iff, Option.isNone_iff_eq_none] at free

theorem readWrite (inv : Inv strict s) {write : Bool} {block : Block Node} {pick : Pick} {fresh : Nat}
    (done : s.readWrite write block pick fresh = some s') : Inv strict s' := by
  rw [State.readWrite] at done
  cases cached : s.getCLine block with
  | some line =>
    obtain ⟨p, l⟩ := line
    rw [cached] at done
    dsimp only at done
    by_cases busy : l.state.inTransition = true
    · rw [if_pos busy] at done
      exact Option.some.inj done ▸ inv
    · rw [if_neg busy] at done
      rw [Bool.not_eq_true] at busy
      split at done
      · exact Option.some.inj done ▸ inv.upgrade_found cached busy none
      · exact Option.some.inj done ▸ inv.touch pick (getCLine_eq cached).2 busy
  | none =>
    rw [cached] at done
    dsimp only at done
    by_cases used : (s.lines fresh).isSome = true
    · rw [if_pos used] at done
      cases done
    · rw [if_neg used] at done
      split at done
      · exact Option.some.inj done ▸ inv.miss_of_getCLine cached used .write (Or.inr rfl) none
      · exact Option.some.inj done ▸ inv.miss_of_getCLine cached used .read (Or.inl rfl) none

theorem lock (inv : Inv strict s) {exclusive : Bool} {addr : GAddr Node} {pick : Pick} {fresh : Nat}
    (done : s.lock exclusive addr pick fresh = some s') : Inv strict s' := by
  rw [State.lock] at done
  cases cached : s.getCLine addr.toBlock with
  | some line =>
    obtain ⟨p, l⟩ := line
    have found := (getCLine_eq cached).2
    rw [cached] at done
    dsimp only at done
    by_cases busy : l.state.inTransition = true
    · rw [if_pos busy] at done
      exact Option.some.inj done ▸ inv
    · rw [if_neg busy] at done
      rw [Bool.not_eq_true] at busy
      split at done
      · split at done
        · exact Option.some.inj done ▸ inv.upgrade_found cached busy (some addr)
        · split at done
          · exact Option.some.inj done ▸ inv.touch pick found busy
          · have only : Only p (id ∘ id) s (s.touch pick p) := Only.unLinkLRU.trans (Only.linkLRU pick)
            obtain ⟨l', found', _⟩ := only.lines found
            exact Option.some.inj done ▸ (inv.touch pick found busy).setLocks found' _
      · split at done
        · exact Option.some.inj done ▸ inv
        · obtain ⟨l', found', core⟩ := (Only.setLocks (s := s) (p := p) (l.locks.share addr)).lines found
          have state : l'.state = l.state := congrArg Core.state core
          exact Option.some.inj done ▸ (inv.setLocks found _).touch pick found' (state ▸ busy)
  | none =>
    rw [cached] at done
    dsimp only at done
    by_cases used : (s.lines fresh).isSome = true
    · rw [if_pos used] at done
      cases done
    · rw [if_neg used] at done
      split at done
      · exact Option.some.inj done ▸ inv.miss_of_getCLine cached used .write (Or.inr rfl) (some addr)
      · exact Option.some.inj done ▸ inv.miss_of_getCLine cached used .read (Or.inl rfl) (some addr)

theorem unLock (inv : Inv strict s) (addr : GAddr Node) : Inv strict (s.unLock addr) := by
  rw [State.unLock]
  cases cached : s.getCLine addr.toBlock with
  | none => exact inv
  | some line => exact inv.setLocks (getCLine_eq cached).2 _

/-! ## Runs -/

/-- An empty cache. -/
theorem init (strict : Prop) : Inv strict (State.init : State Node) := by
  have nothing : ∀ p, (State.init : State Node).core p = none := fun _ => rfl
  have no : ∀ {f : Option (Core Node) → Int}, f none = 0 → {p | f ((State.init : State Node).core p) = 1} = ∅ := fun zero =>
    Set.eq_empty_iff_forall_notMem.mpr fun p there => by rw [Set.mem_ofPred_eq, nothing, zero] at there; cases there
  refine ⟨fun _ => [], ⟨⟨⟨fun i => ⟨rfl, rfl, List.nodup_nil⟩, nofun, nofun, nofun⟩, nofun, nofun⟩, ⟨nofun, nofun, nofun, List.nodup_nil⟩, ⟨⟨0, ?_, rfl⟩, ?_⟩,
    nofun⟩, fun _ => nofun⟩
  · rw [no rfl]
    exact Census.empty
  · rw [no rfl]
    exact Census.empty

end Inv

/-- Write permission is not refused: the event is not a failed reply to such a request. -/
def Granted (s : State Node) : Event Node → Prop
  | .reply id false _ => ∀ q, s.pending[id]? = some q → q.op ≠ .writePermissionOnly
  | _ => True

section runs

variable [DecidableEq Node]

theorem Inv.step (inv : Inv strict s) {event : Event Node} (granted : strict → Granted s event) (done : s.step event = some s') :
    Inv strict s' := by
  cases event with
  | readWrite write block pick fresh => exact inv.readWrite done
  | lock exclusive addr pick fresh => exact inv.lock done
  | unLock addr => exact Option.some.inj done ▸ inv.unLock addr
  | reply id ok pick =>
    refine Option.some.inj done ▸ inv.reply id ok pick fun holds refused => ?_
    subst refused
    exact granted holds
  | fetchShared block pick => exact Option.some.inj done ▸ inv.fetchShared block pick
  | fetchInvalidate block => exact Option.some.inj done ▸ inv.fetchInvalidate block
  | invalidate block => exact Option.some.inj done ▸ inv.invalidate block
  | evict list free => exact Option.some.inj done ▸ inv.evict list free

/-- No event of a run refuses write permission. -/
def GrantedAll (s : State Node) : List (Event Node) → Prop
  | [] => True
  | event :: events => Granted s event ∧ ∀ s', s.step event = some s' → GrantedAll s' events

theorem Inv.run (inv : Inv strict s) {events : List (Event Node)} (granted : strict → GrantedAll s events)
    (done : s.run events = some s') : Inv strict s' := by
  induction events generalizing s with
  | nil => exact Option.some.inj done ▸ inv
  | cons event events ih =>
    rw [State.run, List.foldlM_cons] at done
    obtain ⟨middle, first, rest⟩ := Option.bind_eq_some_iff.mp done
    exact ih (inv.step (fun holds => (granted holds).1) first) (fun holds => (granted holds).2 middle first) rest

end runs

end Gam.Lru
