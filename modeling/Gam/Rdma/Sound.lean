import Mathlib.Data.List.TakeWhile
import Gam.Rdma.Served

/-!
# The invariant of a connection

Each event keeps the context steady, and the work requests, in the order they were posted, together
with the queue carry exactly what was submitted, in the order it was submitted.
-/

namespace Gam.Rdma

variable {c : Config}

/-! ## What a call posts -/

/-- What a call with the requests `queue` to serve leaves: the new work requests `wrs` carry
`groups`, and the rest waits. -/
structure Outcome (c : Config) (ctx : RdmaContext) (sq : List SendWr) (queue : List RdmaRequest)
    (ctx' : RdmaContext) (wrs : List SendWr) (groups : List (List RdmaRequest)) : Prop where
  serving : Serving c ctx' (sq ++ wrs)
  inSlots : InSlots wrs
  carries : List.Forall₂ Carries wrs groups
  flat : groups.flatten ++ ctx'.pendingRequests = queue
  holds : (∀ r ∈ groups.flatten, r.Fits) → List.Forall₂ (Holds ctx'.sendBuf) wrs groups
  kept : (∀ r ∈ groups.flatten, r.Fits) → Kept sq ctx.sendBuf ctx'.sendBuf

variable {ctx : RdmaContext} {sq : List SendWr} {r : RdmaRequest}

theorem Posts.outcome {ctx' : RdmaContext} {w : SendWr} (posts : Posts c ctx sq r ctx' w)
    (steady : Steady c ctx sq) (free : sq.length < c.maxPendingMsg)
    (none : ctx.pendingRequests = []) :
    Outcome c ctx sq (ctx.pendingRequests ++ [r]) ctx' [w] [[r]] := by
  have serving : ∀ {mem addr}, Enlisted c ctx sq r mem addr ctx' w →
      Serving c ctx' (sq ++ [w]) := by
    intro mem addr enlisted
    have queue := enlisted.queue.trans none
    exact { enlisted.steady with
      busy := fun waits => absurd queue waits
      placed := by simp [queue] }
  cases posts with
  | send data op src len enlisted =>
    refine ⟨serving enlisted, ?_, .cons enlisted.carries .nil, ?_, ?_, ?_⟩
    · intro x member _
      rw [List.mem_singleton.mp member]
      exact ⟨_, enlisted.addr⟩
    · simp [enlisted.queue, none]
    · intro fits
      have small := fits r (by simp) op
      refine .cons ?_ .nil
      rw [enlisted.sendBuf]
      refine holds_store enlisted.addr (enlisted.length.trans len) ?_ (by omega) [0]
      simp [RdmaRequest.data, src]
    · intro fits
      have small := fits r (by simp) op
      rw [enlisted.sendBuf, ← Nat.add_zero (slotAddr ctx.slotHead)]
      refine kept_store (steady.slotHead_fresh free).1 ?_
      simp only [List.length_append, List.length_singleton]
      omega
  | write op enlisted =>
    have other : w.opcode ≠ .send := by rwa [enlisted.opcode]
    refine ⟨serving enlisted, ?_, .cons enlisted.carries .nil, ?_, ?_, ?_⟩
    · intro x member send
      rw [List.mem_singleton.mp member] at send
      exact absurd send other
    · simp [enlisted.queue, none]
    · exact fun _ => .cons (fun send => absurd send other) .nil
    · intro _
      rw [enlisted.sendBuf]
      exact Kept.refl

/-- A submission is posted at once or joins the queue. -/
theorem Serving.submit (serving : Serving c ctx sq) (placed : r.Placed) :
    ∃ ctx' wrs groups, ctx.submit c r = some (ctx', wrs) ∧
      Outcome c ctx sq (ctx.pendingRequests ++ [r]) ctx' wrs groups := by
  by_cases busy : sq.length = c.maxPendingMsg
  · refine ⟨_, [], [], serving.submit_busy busy placed, ⟨?_, by simp [InSlots], .nil, rfl,
      fun _ => .nil, fun _ => Kept.refl⟩⟩
    rw [List.append_nil]
    refine { serving.alike (alike_refl sq) ctx.sendBuf _ with
      busy := fun _ => busy
      placed := ?_ }
    intro m member
    rcases List.mem_append.mp member with earlier | last
    · exact serving.placed m earlier
    · rw [List.mem_singleton.mp last]
      exact placed
  · have free : sq.length < c.maxPendingMsg := Nat.lt_of_le_of_ne serving.bound busy
    have none : ctx.pendingRequests = [] := by
      by_contra waits
      exact busy (serving.busy waits)
    obtain ⟨ctx', w, posted, posts⟩ := serving.submit_free free placed
    exact ⟨ctx', [w], [[r]], posted, posts.outcome serving.toSteady free none⟩

theorem setInline_alike (wrs : List SendWr) :
    List.Forall₂ Alike wrs (wrs.map (SendWr.setInline c)) := by
  rw [List.forall₂_map_right_iff]
  exact List.forall₂_same.mpr fun w _ => ⟨rfl, rfl, rfl⟩

/-- A batch of up to `n` work requests is posted for the queue, and none is left over unless the
device is busy again. -/
theorem Steady.process {n : Nat} (steady : Steady c ctx sq) (some : 0 < n)
    (room : sq.length + n ≤ c.maxPendingMsg) (placed : ∀ r ∈ ctx.pendingRequests, r.Placed)
    (busy : ctx.pendingRequests ≠ [] → sq.length + n = c.maxPendingMsg) :
    ∃ ctx' wrs groups, ctx.processPendingRequests c n = .some (ctx', wrs) ∧
      Outcome c ctx sq ctx.pendingRequests ctx' wrs groups ∧
      (ctx.pendingRequests ≠ [] → groups ≠ []) := by
  have empty : Filling c n sq ctx.sendBuf ctx [] 0 [] := by
    refine ⟨by simpa using steady, Nat.zero_le _, by simp [InSlots], by simp, .nil,
      fun _ => .nil, fun _ => Kept.refl⟩
  obtain ⟨ctx', wrs, bufPos, groups, batched, filled, flat, full⟩ := empty.batch room placed
  simp only [List.reverse_nil, List.flatten_nil, List.nil_append] at flat
  have posted : ctx.pendingRequests ≠ [] → groups ≠ [] := by
    rintro waits rfl
    simp only [List.reverse_nil, List.flatten_nil, List.nil_append] at flat
    have length := full (by rwa [flat])
    rw [filled.carries.length_eq] at length
    exact absurd length (Nat.ne_of_lt some)
  have fits : (∀ r ∈ groups.reverse.flatten, r.Fits) → ∀ r ∈ groups.flatten, r.Fits := by
    intro fits m member
    apply fits
    simpa using member
  have inlined : List.Forall₂ Alike wrs.reverse (wrs.map (SendWr.setInline c)).reverse :=
    List.rel_reverse (setInline_alike wrs)
  refine ⟨ctx', (wrs.map (SendWr.setInline c)).reverse, groups.reverse, ?_, ⟨?_, ?_, ?_, flat, ?_, ?_⟩,
    fun waits none => posted waits (List.reverse_eq_nil_iff.mp none)⟩
  · simp only [RdmaContext.processPendingRequests, batched]
    rw [if_neg]
    rintro ⟨waits, rfl⟩
    have length := filled.carries.length_eq
    exact posted waits (List.eq_nil_of_length_eq_zero length.symm)
  · have steady' := filled.steady.alike (List.rel_append (alike_refl sq) inlined) ctx'.sendBuf
      ctx'.pendingRequests
    refine { steady' with busy := ?_, placed := ?_ }
    · intro waits
      have length := full waits
      have before : ctx.pendingRequests ≠ [] := by
        rw [← flat]
        simp [waits]
      simp only [List.length_append, List.length_reverse, List.length_map, length]
      exact busy before
    · intro m member
      apply placed m
      rw [← flat]
      exact List.mem_append_right _ member
  · intro x member
    obtain ⟨w, earlier, rfl⟩ := List.mem_map.mp (List.mem_reverse.mp member)
    exact filled.inSlots w earlier
  · apply List.rel_reverse
    rw [List.forall₂_map_left_iff]
    refine filled.carries.imp fun w g carries => ?_
    cases g with
    | nil => exact carries
    | cons first joined => exact carries
  · intro all
    apply List.rel_reverse
    rw [List.forall₂_map_left_iff]
    exact filled.holds (fits all)
  · exact fun all => filled.kept (fits all)

/-! ## Packets -/

/-- The packet of a work request that carries a group. -/
def packetOf : List RdmaRequest → Packet
  | [] => .send []
  | r :: joined =>
    match r.op with
    | .send => .send (wire (r :: joined))
    | .rdmaWrite => .write r.dest r.src r.len none
    | .rdmaWriteWithImm => .write r.dest r.src r.len (some r.imm)

/-- A posted send has its bytes, copied or in its slot. -/
def Ready (mem : Memory) (p : Posted) (g : List RdmaRequest) : Prop :=
  Holds mem p.wr g ∧ ∀ data, p.copied = some data → p.wr.opcode = .send → data = wire g

theorem Ready.packet {mem : Memory} {p : Posted} {g : List RdmaRequest}
    (carries : Carries p.wr g) (ready : Ready mem p g) : p.packet mem = some (packetOf g) := by
  cases g with
  | nil => exact carries.elim
  | cons r joined =>
    obtain ⟨opcode, _, _, _, whole⟩ := carries
    cases op : r.op with
    | send =>
      have send : p.wr.opcode = .send := opcode.trans op
      obtain ⟨i, slot, _, bytes⟩ := ready.1 send
      cases copied : p.copied with
      | none => simp only [Posted.packet, packetOf, send, op, copied, slot, bytes]
      | some data =>
        simp only [Posted.packet, packetOf, send, op, copied, ready.2 data copied send]
    | rdmaWrite =>
      obtain ⟨src, len, dest, _⟩ := whole (by simp [op])
      simp only [Posted.packet, packetOf, opcode, op, src, len, dest]
    | rdmaWriteWithImm =>
      obtain ⟨src, len, dest, imm⟩ := whole (by simp [op])
      simp only [Posted.packet, packetOf, opcode, op, src, len, dest, imm]

theorem packet_isSome {mem : Memory} {p : Posted}
    (slot : p.wr.opcode = .send → ∃ i, p.wr.addr = .slot i) : ∃ packet, p.packet mem = some packet := by
  unfold Posted.packet
  cases op : p.wr.opcode with
  | send =>
    obtain ⟨i, place⟩ := slot op
    cases copied : p.copied with
    | none => exact ⟨_, by simp only [place]; rfl⟩
    | some data => exact ⟨_, rfl⟩
  | rdmaWrite => exact ⟨_, rfl⟩
  | rdmaWriteWithImm => exact ⟨_, rfl⟩

theorem ready_kept {mem mem' : Memory} {ps : List Posted} {groups : List (List RdmaRequest)}
    (ready : List.Forall₂ (Ready mem) ps groups) (kept : Kept (ps.map (·.wr)) mem mem') :
    List.Forall₂ (Ready mem') ps groups := by
  induction ready with
  | nil => exact .nil
  | @cons p g ps groups first _ ih =>
    have whole : slots ((p :: ps).map (·.wr)) = slots [p.wr] ++ slots (ps.map (·.wr)) := by
      rw [← slots_append, List.singleton_append, List.map_cons]
    refine .cons ⟨first.1.kept (kept.mono ?_), first.2⟩ (ih (kept.mono ?_))
    · rw [whole]
      exact List.subset_append_left _ _
    · rw [whole]
      exact List.subset_append_right _ _

theorem ready_post {wrs : List SendWr} {groups : List (List RdmaRequest)}
    (holds : List.Forall₂ (Holds ctx.sendBuf) wrs groups) :
    List.Forall₂ (Ready ctx.sendBuf) (wrs.map ctx.post) groups := by
  rw [List.forall₂_map_left_iff]
  refine holds.imp fun w g held => ⟨held, ?_⟩
  intro data copied send
  obtain ⟨i, slot, _, bytes⟩ := held send
  simp only [RdmaContext.post] at copied
  split at copied
  · rw [← Option.some.inj copied, slot]
    exact bytes
  · cases copied

/-! ## The invariant -/

/-- `past` are the groups of the work requests that were transmitted, `coming` those of the others;
together with the queue they are what was submitted. -/
structure Accounts (l : Link) (past coming : List (List RdmaRequest)) : Prop where
  sent : List.Forall₂ Carries ((l.completed ++ l.sent).map (·.wr)) past
  waiting : List.Forall₂ Carries (l.waiting.map (·.wr)) coming
  flat : (past ++ coming).flatten ++ l.ctx.pendingRequests = l.submitted
  received : (∀ r ∈ l.submitted, r.Fits) → l.received = past.map packetOf
  ready : (∀ r ∈ l.submitted, r.Fits) → List.Forall₂ (Ready l.ctx.sendBuf) l.waiting coming

structure Link.Sound (c : Config) (l : Link) : Prop where
  serving : Serving c l.ctx l.outstanding
  inSlots : InSlots (l.waiting.map (·.wr))
  completions : l.completions = ((l.completed.map (·.wr)).filter (·.signaled)).map (·.id)
  accounts : ∃ past coming, Accounts l past coming

theorem Link.Sound.init : Link.init.Sound c where
  serving := Serving.init
  inSlots := by simp [InSlots, Link.init]
  completions := rfl
  accounts := ⟨[], [], .nil, .nil, rfl, fun _ => rfl, fun _ => .nil⟩

variable {l l' : Link}

theorem post_wr (ctx : RdmaContext) (wrs : List SendWr) : (wrs.map ctx.post).map (·.wr) = wrs := by
  rw [List.map_map]
  exact List.map_id' wrs

/-- What a call that posts `wrs` does to the accounts. -/
theorem Accounts.post {past coming groups : List (List RdmaRequest)} {ctx' : RdmaContext}
    {queue : List RdmaRequest} {wrs : List SendWr} {completed sent : List Posted}
    {submitted : List RdmaRequest} {completions : List UInt32} (accounts : Accounts l past coming)
    (outcome : Outcome c ctx ((sent ++ l.waiting).map (·.wr)) queue ctx' wrs groups)
    (same : ctx.sendBuf = l.ctx.sendBuf) (done : completed ++ sent = l.completed ++ l.sent)
    (all : (past ++ coming).flatten ++ queue = submitted)
    (more : ∀ r ∈ l.submitted, r ∈ submitted) :
    Accounts { l with
      ctx := ctx'
      completed := completed
      sent := sent
      waiting := l.waiting ++ wrs.map ctx'.post
      completions := completions
      submitted := submitted } past (coming ++ groups) := by
  have before : (∀ r ∈ submitted, r.Fits) → ∀ r ∈ l.submitted, r.Fits :=
    fun fits r member => fits r (more r member)
  have fresh : (∀ r ∈ submitted, r.Fits) → ∀ r ∈ groups.flatten, r.Fits := by
    intro fits m member
    apply fits
    rw [← all, ← outcome.flat]
    exact List.mem_append_right _ (List.mem_append_left _ member)
  constructor
  case sent =>
    simp only [done]
    exact accounts.sent
  case waiting =>
    rw [List.map_append, post_wr]
    exact List.rel_append accounts.waiting outcome.carries
  case flat =>
    rw [← all, ← outcome.flat]
    simp only [List.flatten_append, List.append_assoc]
  case received => exact fun fits => accounts.received (before fits)
  case ready =>
    intro fits
    refine List.rel_append (ready_kept (accounts.ready (before fits)) ?_)
      (ready_post (outcome.holds (fresh fits)))
    rw [← same]
    refine (outcome.kept (fresh fits)).mono ?_
    rw [List.map_append, slots_append]
    exact List.subset_append_right _ _

/-! ## The events -/

theorem inSlots_append {older newer : List SendWr} (first : InSlots older) (second : InSlots newer) :
    InSlots (older ++ newer) := by
  intro w member
  rcases List.mem_append.mp member with earlier | later
  · exact first w earlier
  · exact second w later

theorem Link.Sound.submit (sound : l.Sound c) (placed : r.Placed) :
    ∃ l', l.submit c r = some l' ∧ l'.Sound c ∧ l'.submitted = l.submitted ++ [r] := by
  obtain ⟨ctx', wrs, groups, posted, outcome⟩ := sound.serving.submit placed
  obtain ⟨past, coming, accounts⟩ := sound.accounts
  have stepped : l.submit c r = some { l with
      ctx := ctx'
      waiting := l.waiting ++ wrs.map ctx'.post
      submitted := l.submitted ++ [r] } := by simp only [Link.submit, posted]
  refine ⟨_, stepped, ⟨?_, ?_, sound.completions, past, coming ++ groups, ?_⟩, rfl⟩
  · have serving := outcome.serving
    simpa only [Link.outstanding, List.map_append, post_wr, List.append_assoc] using serving
  · rw [List.map_append, post_wr]
    exact inSlots_append sound.inSlots outcome.inSlots
  · refine accounts.post outcome rfl rfl ?_ fun m member => List.mem_append_left _ member
    rw [← List.append_assoc, accounts.flat]

theorem Link.Sound.transmit (sound : l.Sound c) :
    ∃ l', l.transmit = some l' ∧ l'.Sound c ∧ l'.submitted = l.submitted := by
  cases waits : l.waiting with
  | nil => exact ⟨l, by simp only [Link.transmit, waits], sound, rfl⟩
  | cons p rest =>
    obtain ⟨past, coming, accounts⟩ := sound.accounts
    have inSlots := sound.inSlots
    rw [waits] at inSlots
    obtain ⟨packet, given⟩ : ∃ packet, p.packet l.ctx.sendBuf = some packet :=
      packet_isSome (inSlots p.wr (by simp))
    obtain ⟨g, later, carries, others, rfl⟩ : ∃ g later, Carries p.wr g ∧
        List.Forall₂ Carries (rest.map (·.wr)) later ∧ coming = g :: later := by
      have waiting := accounts.waiting
      rw [waits, List.map_cons] at waiting
      cases waiting with
      | cons carries others => exact ⟨_, _, carries, others, rfl⟩
    have ready : (∀ r ∈ l.submitted, r.Fits) → Ready l.ctx.sendBuf p g ∧
        List.Forall₂ (Ready l.ctx.sendBuf) rest later := by
      intro fits
      have ready := accounts.ready fits
      rw [waits] at ready
      cases ready with
      | cons first behind => exact ⟨first, behind⟩
    have stepped : l.transmit = some { l with
        sent := l.sent ++ [p]
        waiting := rest
        received := l.received ++ [packet] } := by simp only [Link.transmit, waits, given]
    refine ⟨_, stepped, ⟨?_, ?_, sound.completions, past ++ [g], later, ?_⟩, rfl⟩
    · have serving := sound.serving
      simpa only [Link.outstanding, waits, List.append_assoc, List.singleton_append] using serving
    · exact fun w member => inSlots w (by simpa using Or.inr (by simpa using member))
    · constructor
      case sent =>
        rw [← List.append_assoc, List.map_append]
        exact List.rel_append accounts.sent (.cons carries .nil)
      case waiting => exact others
      case flat =>
        have flat := accounts.flat
        simpa only [List.append_assoc, List.singleton_append] using flat
      case received =>
        intro fits
        have same := (ready fits).1.packet carries
        rw [given] at same
        simp only [accounts.received fits, Option.some.inj same, List.map_append, List.map_cons,
          List.map_nil]
      case ready => exact fun fits => (ready fits).2

/-- The oldest signalled work request among those transmitted, with those before it. -/
theorem sent_split {ps rest : List Posted} {p : Posted}
    (found : ps.dropWhile (fun p => !p.wr.signaled) = p :: rest) :
    ps = ps.takeWhile (fun p => !p.wr.signaled) ++ p :: rest ∧ p.wr.signaled = true ∧
      ∀ x ∈ (ps.takeWhile (fun p => !p.wr.signaled)).map (·.wr), x.signaled = false := by
  refine ⟨?_, ?_, ?_⟩
  · rw [← found, List.takeWhile_append_dropWhile]
  · have first := List.head_dropWhile_not (l := ps) (fun p => !p.wr.signaled) (by simp [found])
    simpa [found] using first
  · intro x member
    obtain ⟨q, before, rfl⟩ := List.mem_map.mp member
    simpa using List.mem_takeWhile_imp before

theorem Link.Sound.complete (sound : l.Sound c) :
    ∃ l', l.complete c = some l' ∧ l'.Sound c ∧ l'.submitted = l.submitted := by
  cases found : l.sent.dropWhile (fun p => !p.wr.signaled) with
  | nil => exact ⟨l, by simp only [Link.complete, found], sound, rfl⟩
  | cons p rest =>
    obtain ⟨split, marked, plain⟩ := sent_split found
    generalize early : l.sent.takeWhile (fun p => !p.wr.signaled) = older at split plain
    have serving := sound.serving
    have whole : l.outstanding = older.map (·.wr) ++ p.wr :: (rest ++ l.waiting).map (·.wr) := by
      simp only [Link.outstanding, split, List.append_assoc, List.map_append, List.map_cons,
        List.cons_append]
    rw [whole] at serving
    have released := serving.release plain marked
    obtain ⟨_, size, _⟩ := serving.tagged.batch plain marked
    have bound := serving.bound
    have busy := serving.busy
    simp only [List.length_append, List.length_cons] at bound busy
    obtain ⟨ctx', wrs, groups, served, outcome, _⟩ := released.process
      (n := p.wr.currSend + p.wr.currWR) (by omega) (by omega) serving.placed
      (fun waits => by have := busy waits; omega)
    have completes : l.ctx.sendComp c p.wr.wrId = some (p.wr.id, ctx', wrs) := by
      dsimp only [RdmaContext.sendComp]
      erw [served]
      rfl
    obtain ⟨past, coming, accounts⟩ := sound.accounts
    have stepped : l.complete c = some { l with
        ctx := ctx'
        completed := l.completed ++ older ++ [p]
        sent := rest
        waiting := l.waiting ++ wrs.map ctx'.post
        completions := l.completions ++ [p.wr.id] } := by
      simp only [Link.complete, found, completes, early]
    refine ⟨_, stepped, ⟨?_, ?_, ?_, past, coming ++ groups, ?_⟩, rfl⟩
    · have serving' := outcome.serving
      simpa only [Link.outstanding, List.map_append, post_wr, List.append_assoc] using serving'
    · rw [List.map_append, post_wr]
      exact inSlots_append sound.inSlots outcome.inSlots
    · have none : (older.map (·.wr)).filter (·.signaled) = [] := by
        rw [List.filter_eq_nil_iff]
        intro x member
        simp [plain x member]
      simp only [List.map_append, List.filter_append, none, sound.completions, List.map_cons,
        List.map_nil, List.append_nil, List.filter_cons, marked, if_true, List.filter_nil]
    · refine accounts.post outcome rfl ?_ accounts.flat fun m member => member
      rw [split]
      simp only [List.append_assoc, List.singleton_append]

end Gam.Rdma
