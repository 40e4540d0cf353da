import Gam.Rdma.Content

/-!
# Submissions and the queue

The specifications of `submit` and of one turn of the loop of `ProcessPendingRequests`, and from the
second, by induction over the queue, that of the whole loop.
-/

namespace Gam.Rdma

variable {c : Config} {ctx : RdmaContext} {sq : List SendWr}
variable {groups : List (List RdmaRequest)} {w : SendWr} {r : RdmaRequest} {mem : Memory}

/-- What holds of the context between two calls: requests wait only while the device is busy. -/
structure Serving (c : Config) (ctx : RdmaContext) (sq : List SendWr) : Prop extends Steady c ctx sq where
  busy : ctx.pendingRequests ≠ [] → sq.length = c.maxPendingMsg
  placed : ∀ r ∈ ctx.pendingRequests, r.Placed

theorem Serving.init : Serving c RdmaContext.init [] where
  toSteady := Steady.init
  busy := fun waits => absurd rfl waits
  placed := by simp [RdmaContext.init]

/-! ## Submissions -/

/-- What is posted for `r`, and the send buffer after it: a send goes through the slot at the head,
a write is posted as it is. -/
inductive Posts (c : Config) (ctx : RdmaContext) (sq : List SendWr) (r : RdmaRequest)
    (ctx' : RdmaContext) (w : SendWr) : Prop where
  | send (data : List UInt8) (op : r.op = .send) (src : r.src = .heap data)
      (len : r.len = data.length)
      (enlisted : Enlisted c ctx sq r (ctx.sendBuf.store (slotAddr ctx.slotHead) (data ++ [0]))
        (.slot ctx.slotHead) ctx' w)
  | write (op : r.op ≠ .send) (enlisted : Enlisted c ctx sq r ctx.sendBuf r.src ctx' w)

theorem Carries.of_send {r r' : RdmaRequest} (carries : Carries w [r])
    (send : r.op = .send) (op : r'.op = r.op) (id : r'.id = r.id)
    (signaled : r'.signaled = r.signaled) : Carries w [r'] := by
  obtain ⟨same, marked, named, _, _⟩ := carries
  refine ⟨by rw [op, same], by rwa [signaled], by rwa [id], by simp, ?_⟩
  intro other
  rw [op, send] at other
  exact absurd rfl other

theorem Steady.send_free (steady : Steady c ctx sq) (free : sq.length < c.maxPendingMsg)
    (data : List UInt8) (id : UInt32) (signaled : Bool) : ∃ ctx' w, ctx.send c data id signaled = some (ctx', [w]) ∧
      Posts c ctx sq { op := .send, src := .heap data, len := data.length, id := id, signaled := signaled } ctx' w := by
  have idle : ¬ (c.maxPendingMsg : Int) ≤ ctx.pendingMsg := by rw [steady.pending]; omega
  obtain ⟨enlisted, _⟩ := steady.enlistedSlot free
    (r := { op := .send, src := .slot ctx.slotHead, len := data.length, id := id,
            signaled := signaled })
    (ctx.sendBuf.store (slotAddr ctx.slotHead) (data ++ [0]))
    (decide (data.length ≤ c.maxRdmaInlineSize)) rfl
  refine ⟨_, _, ?_, .send data rfl rfl rfl { enlisted with carries := enlisted.carries.of_send rfl rfl rfl rfl }⟩
  unfold RdmaContext.send
  rw [steady.getFreeSlot_eq, if_neg (Nat.ne_of_lt free)]
  simp only [RdmaContext.rdma, idle, if_false, RdmaContext.locate, Src.isRegistered,
    Bool.true_eq_false, false_and, if_true]
  rfl

theorem Steady.write_free (steady : Steady c ctx sq) (free : sq.length < c.maxPendingMsg)
    (other : r.op ≠ .send) (placed : r.Placed) :
    ∃ ctx' w, ctx.rdma c r = some (ctx', [w]) ∧ Posts c ctx sq r ctx' w := by
  have idle : ¬ (c.maxPendingMsg : Int) ≤ ctx.pendingMsg := by rw [steady.pending]; omega
  have away : r.src.isRegistered = false := by
    unfold RdmaRequest.Placed at placed
    cases op : r.op <;> simp only [op] at placed <;> obtain ⟨addr, place⟩ := placed
    · exact absurd op other
    all_goals rw [place]; rfl
  obtain ⟨enlisted, _⟩ := steady.enlistedOther free (decide (r.len ≤ c.maxRdmaInlineSize)) away
  refine ⟨_, _, ?_, .write other enlisted⟩
  have located : ctx.locate c r = some (ctx, r.src) := by
    unfold RdmaContext.locate
    cases op : r.op with
    | send => exact absurd op other
    | rdmaWrite => rfl
    | rdmaWriteWithImm => rfl
  simp only [RdmaContext.rdma, idle, if_false, located]

/-- While the device is busy a submission is queued. -/
theorem Steady.submit_busy (steady : Steady c ctx sq) (busy : sq.length = c.maxPendingMsg)
    (placed : r.Placed) :
    ctx.submit c r = some ({ ctx with pendingRequests := ctx.pendingRequests ++ [r] }, []) := by
  have full : (c.maxPendingMsg : Int) ≤ ctx.pendingMsg := by rw [steady.pending, busy]
  have queued : ctx.rdma c r =
      some ({ ctx with pendingRequests := ctx.pendingRequests ++ [r] }, []) := by
    simp only [RdmaContext.rdma, full, if_true]
  cases op : r.op with
  | send =>
    simp only [RdmaRequest.Placed, op] at placed
    obtain ⟨data, id, signaled, rfl⟩ := placed
    simp only [RdmaContext.submit, RdmaContext.send]
    rw [steady.getFreeSlot_eq, if_pos busy]
    exact queued
  | rdmaWrite => simpa only [RdmaContext.submit, op] using queued
  | rdmaWriteWithImm => simpa only [RdmaContext.submit, op] using queued

/-- While the device is not busy a submission is posted at once. -/
theorem Steady.submit_free (steady : Steady c ctx sq) (free : sq.length < c.maxPendingMsg)
    (placed : r.Placed) : ∃ ctx' w, ctx.submit c r = some (ctx', [w]) ∧ Posts c ctx sq r ctx' w := by
  cases op : r.op with
  | send =>
    simp only [RdmaRequest.Placed, op] at placed
    obtain ⟨data, id, signaled, rfl⟩ := placed
    exact steady.send_free free data id signaled
  | rdmaWrite =>
    obtain ⟨ctx', w, posted, posts⟩ := steady.write_free free (by simp [op]) placed
    exact ⟨ctx', w, by simpa only [RdmaContext.submit, op] using posted, posts⟩
  | rdmaWriteWithImm =>
    obtain ⟨ctx', w, posted, posts⟩ := steady.write_free free (by simp [op]) placed
    exact ⟨ctx', w, by simpa only [RdmaContext.submit, op] using posted, posts⟩

/-! ## The loop -/

/-- What one turn of the loop can come to, for a batch `wrs` of at most `n` work requests over the
outstanding ones `sq`. -/
inductive Goes (c : Config) (n : Nat) (sq : List SendWr) (ctx : RdmaContext) (r : RdmaRequest) :
    List SendWr → Nat → Turn → Prop
  /-- The batch has its `n` work requests. -/
  | stop {wrs : List SendWr} {bufPos : Nat} (enough : wrs.length = n) :
      Goes c n sq ctx r wrs bufPos .stop
  /-- The request joins the newest work request. -/
  | merge {prev : SendWr} {older : List SendWr} {bufPos i : Nat} (op : r.op = .send)
      (before : prev.opcode = .send) (slot : prev.addr = .slot i)
      (room : bufPos + r.len + 1 + 1 ≤ maxRequestSize) (quiet : r.signaled = false) :
      Goes c n sq ctx r (prev :: older) bufPos (.go { ctx with sendBuf := ctx.join i bufPos r }
        ({ prev with length := bufPos + (1 + r.len) } :: older) (bufPos + (1 + r.len)))
  /-- The request is a send and takes the slot at the head. -/
  | send {wrs : List SendWr} {bufPos : Nat} {ctx' : RdmaContext} {w : SendWr}
      (few : wrs.length < n) (op : r.op = .send)
      (enlisted : Enlisted c ctx (sq ++ wrs.reverse) r
        (ctx.sendBuf.store (slotAddr ctx.slotHead) (ctx.bytes r.src r.len)) (.slot ctx.slotHead)
        ctx' w) :
      Goes c n sq ctx r wrs bufPos (.go ctx' (w :: wrs) r.len)
  /-- The request is a write. -/
  | write {wrs : List SendWr} {bufPos : Nat} {ctx' : RdmaContext} {w : SendWr}
      (few : wrs.length < n) (op : r.op ≠ .send)
      (enlisted : Enlisted c ctx (sq ++ wrs.reverse) r ctx.sendBuf r.src ctx' w) :
      Goes c n sq ctx r wrs bufPos (.go ctx' (w :: wrs) 0)

section Loop

variable {n bufPos : Nat} {wrs : List SendWr} {r : RdmaRequest}

theorem Placed.away (other : r.op ≠ .send) (placed : r.Placed) : r.src.isRegistered = false := by
  unfold RdmaRequest.Placed at placed
  cases op : r.op <;> simp only [op] at placed
  · exact absurd op other
  all_goals obtain ⟨addr, place⟩ := placed; rw [place]; rfl

theorem Steady.append_goes (steady : Steady c ctx (sq ++ wrs.reverse))
    (room : sq.length + n ≤ c.maxPendingMsg) (few : wrs.length ≤ n) (placed : r.Placed) :
    ∃ t, ctx.append c n wrs r = some t ∧ Goes c n sq ctx r wrs bufPos t := by
  by_cases enough : wrs.length = n
  · exact ⟨.stop, by simp [RdmaContext.append, enough], .stop enough⟩
  have fewer : wrs.length < n := Nat.lt_of_le_of_ne few enough
  have free : (sq ++ wrs.reverse).length < c.maxPendingMsg := by
    rw [List.length_append, List.length_reverse]
    omega
  unfold RdmaContext.append
  rw [if_neg enough]
  cases op : r.op with
  | send =>
    obtain ⟨enlisted, _⟩ := steady.enlistedSlot free
      (ctx.sendBuf.store (slotAddr ctx.slotHead) (ctx.bytes r.src r.len)) false op
    simp only [steady.copyToSlot_eq free]
    exact ⟨_, rfl, .send fewer op enlisted⟩
  | rdmaWrite =>
    have other : r.op ≠ .send := by simp [op]
    obtain ⟨enlisted, _⟩ := steady.enlistedOther free false (Placed.away other placed)
    exact ⟨_, rfl, .write fewer other enlisted⟩
  | rdmaWriteWithImm =>
    have other : r.op ≠ .send := by simp [op]
    obtain ⟨enlisted, _⟩ := steady.enlistedOther free false (Placed.away other placed)
    exact ⟨_, rfl, .write fewer other enlisted⟩

/-- A work request of the batch that carries a send has a slot. -/
def InSlots (wrs : List SendWr) : Prop :=
  ∀ w ∈ wrs, w.opcode = .send → ∃ i, w.addr = .slot i

/-- The turn never fails. -/
theorem Steady.turn_goes (steady : Steady c ctx (sq ++ wrs.reverse))
    (room : sq.length + n ≤ c.maxPendingMsg) (few : wrs.length ≤ n) (placed : r.Placed) (inSlots : InSlots wrs) :
    ∃ t, ctx.turn c n wrs bufPos r = some t ∧ Goes c n sq ctx r wrs bufPos t := by
  cases wrs with
  | nil => exact steady.append_goes room few placed
  | cons prev older =>
    simp only [RdmaContext.turn]
    split
    · rename_i joins
      obtain ⟨op, before, fits, quiet⟩ := joins
      obtain ⟨i, slot⟩ := inSlots prev (List.mem_cons_self ..) before
      have same : Steady c { ctx with sendBuf := ctx.join i bufPos r }
          (sq ++ (prev :: older).reverse) := steady.alike (alike_refl _) _ _
      refine ⟨_, ?_, .merge op before slot fits quiet⟩
      simp only [RdmaContext.merge, slot, same.signal_quiet quiet]
    · exact steady.append_goes room few placed

/-- The batch under construction: its work requests, newest first, carry `groups`, and their slots
hold the bytes of the groups. `mem` is the send buffer before the batch. -/
structure Filling (c : Config) (n : Nat) (sq : List SendWr) (mem : Memory) (ctx : RdmaContext)
    (wrs : List SendWr) (bufPos : Nat) (groups : List (List RdmaRequest)) : Prop where
  steady : Steady c ctx (sq ++ wrs.reverse)
  few : wrs.length ≤ n
  inSlots : InSlots wrs
  position : ∀ w ∈ wrs.head?, w.opcode = .send → w.length = bufPos
  carries : List.Forall₂ Carries wrs groups
  holds : (∀ r ∈ groups.flatten, r.Fits) → List.Forall₂ (Holds ctx.sendBuf) wrs groups
  kept : (∀ r ∈ groups.flatten, r.Fits) → Kept sq mem ctx.sendBuf

theorem Carries.join {g : List RdmaRequest} (carries : Carries w g)
    (before : w.opcode = .send) (op : r.op = .send) (quiet : r.signaled = false) (length : Nat) :
    Carries { w with length := length } (g ++ [r]) := by
  cases g with
  | nil => exact carries.elim
  | cons first joined =>
    obtain ⟨same, marked, named, sends, _⟩ := carries
    have send : first.op = .send := by rw [← same, before]
    refine ⟨same, marked, named, ?_, fun other => absurd send other⟩
    intro m member
    rcases List.mem_append.mp member with earlier | last
    · exact sends m earlier
    · rw [List.mem_singleton.mp last]
      exact ⟨send, op, quiet⟩

theorem Carries.nonempty {g : List RdmaRequest} (carries : Carries w g) : g ≠ [] := by
  rintro rfl
  exact carries

theorem Counted.slots_nodup (counted : Counted c ctx sq) : (slots sq).Nodup := by
  rw [counted.used]
  exact Ring.nodup_window (Nat.le_trans length_slots_le counted.bound)

/-- A new work request with a group of its own. -/
theorem Filling.grow {mem mem' : Memory} {addr : Src} {ctx' : RdmaContext}
    (filling : Filling c n sq mem ctx wrs bufPos groups)
    (enlisted : Enlisted c ctx (sq ++ wrs.reverse) r mem' addr ctx' w) (few : wrs.length < n)
    (slot : w.opcode = .send → ∃ i, w.addr = .slot i) (position : w.opcode = .send → w.length = bufPos')
    (holds : r.Fits → Holds ctx'.sendBuf w [r]) (kept : r.Fits → Kept (sq ++ wrs.reverse) ctx.sendBuf ctx'.sendBuf) :
    Filling c n sq mem ctx' (w :: wrs) bufPos' ([r] :: groups) := by
  have split : (∀ m ∈ ([r] :: groups).flatten, m.Fits) → r.Fits ∧ ∀ m ∈ groups.flatten, m.Fits := by
    intro fits
    exact ⟨fits r (by simp), fun m member => fits m (by simp [-List.mem_flatten, member])⟩
  constructor
  case steady => simpa using enlisted.steady
  case few => exact few
  case inSlots =>
    intro x member
    rcases List.mem_cons.mp member with rfl | earlier
    · exact slot
    · exact filling.inSlots x earlier
  case position =>
    intro x newest
    obtain rfl : w = x := by simpa using newest
    exact position
  case carries => exact .cons enlisted.carries filling.carries
  case holds =>
    intro fits
    obtain ⟨fit, before⟩ := split fits
    refine .cons (holds fit) (holds_kept (filling.holds before) ((kept fit).mono ?_))
    intro i member
    rw [slots_append]
    refine List.mem_append_right _ ?_
    simpa [slots] using member
  case kept =>
    intro fits
    obtain ⟨fit, before⟩ := split fits
    refine (filling.kept before).trans ((kept fit).mono ?_)
    rw [slots_append]
    exact List.subset_append_left _ _

/-- A request that joins the newest group. -/
theorem Filling.join {prev : SendWr} {older : List SendWr} {i : Nat}
    (filling : Filling c n sq mem ctx (prev :: older) bufPos groups) (placed : r.Placed)
    (op : r.op = .send) (before : prev.opcode = .send) (slot : prev.addr = .slot i)
    (room : bufPos + r.len + 1 + 1 ≤ maxRequestSize) (quiet : r.signaled = false) : ∃ g rest, groups = g :: rest ∧
      Filling c n sq mem { ctx with sendBuf := ctx.join i bufPos r }
        ({ prev with length := bufPos + (1 + r.len) } :: older) (bufPos + (1 + r.len))
        ((g ++ [r]) :: rest) := by
  obtain ⟨g, rest, carries, others, rfl⟩ : ∃ g rest, Carries prev g ∧
      List.Forall₂ Carries older rest ∧ groups = g :: rest := by
    cases filling.carries with
    | cons carries others => exact ⟨_, _, carries, others, rfl⟩
  have length : prev.length = bufPos := filling.position prev rfl before
  obtain ⟨copied, size⟩ := bytes_placed ctx placed op
  -- the slot of the newest work request is none of the others
  have fresh : i ∉ slots (sq ++ older.reverse) := by
    have distinct := filling.steady.slots_nodup
    rw [List.reverse_cons, ← List.append_assoc, slots_append] at distinct
    have last : slots [prev] = [i] := by simp [slots, SendWr.slot?, slot]
    rw [last] at distinct
    exact fun member => (List.nodup_append.mp distinct).2.2 i member i (by simp) rfl
  have kept : Kept (sq ++ older.reverse) ctx.sendBuf (ctx.join i bufPos r) := by
    have separated : Kept (sq ++ older.reverse) ctx.sendBuf
        (ctx.sendBuf.store (slotAddr i + bufPos) [0]) :=
      kept_store fresh (by simp only [List.length_singleton]; omega)
    refine separated.trans ?_
    unfold RdmaContext.join
    rw [Nat.add_assoc]
    apply kept_store fresh
    rw [copied, size]
    omega
  have earlier : (∀ m ∈ ((g ++ [r]) :: rest).flatten, m.Fits) → ∀ m ∈ (g :: rest).flatten, m.Fits := by
    intro fits m member
    apply fits
    rw [List.flatten_cons, List.mem_append] at member ⊢
    exact member.imp_left (List.mem_append_left _)
  refine ⟨g, rest, rfl, ?_⟩
  constructor
  case steady =>
    apply filling.steady.alike
    rw [List.reverse_cons, List.reverse_cons, ← List.append_assoc, ← List.append_assoc]
    exact List.rel_append (alike_refl _) (.cons ⟨rfl, rfl, rfl⟩ .nil)
  case few => exact filling.few
  case inSlots =>
    intro x member
    rcases List.mem_cons.mp member with rfl | behind
    · exact fun _ => ⟨i, slot⟩
    · exact filling.inSlots x (List.mem_cons_of_mem _ behind)
  case position =>
    intro x newest _
    obtain rfl : ({ prev with length := bufPos + (1 + r.len) } : SendWr) = x := by
      simpa using newest
    rfl
  case carries => exact .cons (carries.join before op quiet _) others
  case holds =>
    intro fits
    cases filling.holds (earlier fits) with
    | cons first behind =>
      subst length
      refine .cons (first.join carries.nonempty before slot placed op room) ?_
      apply holds_kept behind (kept.mono _)
      intro j member
      rw [slots_append]
      refine List.mem_append_right _ ?_
      simpa [slots] using member
  case kept =>
    intro fits
    refine (filling.kept (earlier fits)).trans (kept.mono ?_)
    rw [slots_append]
    exact List.subset_append_left _ _

/-- A turn adds its request to the newest group or starts a group with it. -/
theorem Filling.turn {ctx' : RdmaContext}
    {wrs' : List SendWr} {bufPos' : Nat} (filling : Filling c n sq mem ctx wrs bufPos groups)
    (placed : r.Placed) (room : sq.length + n ≤ c.maxPendingMsg)
    (goes : Goes c n sq ctx r wrs bufPos (.go ctx' wrs' bufPos')) :
    ∃ groups', Filling c n sq mem ctx' wrs' bufPos' groups' ∧
      groups'.reverse.flatten = groups.reverse.flatten ++ [r] := by
  cases goes with
  | merge op before slot fits quiet =>
    obtain ⟨g, rest, rfl, joined⟩ := filling.join placed op before slot fits quiet
    exact ⟨_, joined, by simp⟩
  | @send _ _ _ w few op enlisted =>
    obtain ⟨copied, size⟩ := bytes_placed ctx placed op
    refine ⟨[r] :: groups, filling.grow enlisted few (fun _ => ⟨_, enlisted.addr⟩)
      (fun _ => enlisted.length) ?_ ?_, by simp⟩
    · intro fits
      have small := fits op
      rw [enlisted.sendBuf, copied, ← List.append_nil r.data]
      exact holds_store enlisted.addr (by rw [size, enlisted.length]) rfl (by omega) []
    · intro fits
      have small := fits op
      rw [enlisted.sendBuf, ← Nat.add_zero (slotAddr ctx.slotHead)]
      have free : (sq ++ wrs.reverse).length < c.maxPendingMsg := by
        rw [List.length_append, List.length_reverse]
        omega
      refine kept_store (filling.steady.slotHead_fresh free).1 ?_
      rw [copied, size]
      omega
  | @write _ _ _ w few op enlisted =>
    have other : w.opcode ≠ .send := by rwa [enlisted.opcode]
    refine ⟨[r] :: groups, filling.grow enlisted few (fun send => absurd send other)
      (fun send => absurd send other) (fun _ send => absurd send other) ?_, by simp⟩
    intro _
    rw [enlisted.sendBuf]
    exact Kept.refl

/-- The loop takes requests from the front of the queue, and stops before the end of it only with a
full batch. -/
theorem Filling.batch {queue : List RdmaRequest}
    (filling : Filling c n sq mem ctx wrs bufPos groups)
    (room : sq.length + n ≤ c.maxPendingMsg) (placed : ∀ r ∈ queue, r.Placed) : ∃ ctx' wrs' bufPos' groups',
      RdmaContext.batch c n queue ctx wrs bufPos = some (ctx', wrs') ∧ Filling c n sq mem ctx' wrs' bufPos' groups' ∧
      groups'.reverse.flatten ++ ctx'.pendingRequests = groups.reverse.flatten ++ queue ∧
      (ctx'.pendingRequests ≠ [] → wrs'.length = n) := by
  induction queue generalizing ctx wrs bufPos groups with
  | nil =>
    refine ⟨{ ctx with pendingRequests := [] }, wrs, bufPos, groups, rfl, ?_, rfl, ?_⟩
    · exact { filling with steady := filling.steady.alike (alike_refl _) _ _ }
    · exact fun waits => absurd rfl waits
  | cons r rest ih =>
    have first := placed r (List.mem_cons_self ..)
    obtain ⟨t, turned, goes⟩ : ∃ t, ctx.turn c n wrs bufPos r = some t ∧
        Goes c n sq ctx r wrs bufPos t :=
      filling.steady.turn_goes room filling.few first filling.inSlots
    cases t with
    | stop =>
      cases goes with
      | stop enough =>
        refine ⟨{ ctx with pendingRequests := r :: rest }, wrs, bufPos, groups,
          by simp only [RdmaContext.batch, turned], ?_, rfl, fun _ => enough⟩
        exact { filling with steady := filling.steady.alike (alike_refl _) _ _ }
    | go ctx' wrs' bufPos' =>
      obtain ⟨groups', filling', grown⟩ := filling.turn first room goes
      obtain ⟨ctx'', wrs'', bufPos'', groups'', batched, filled, flat, full⟩ := ih filling'
        (fun r member => placed r (List.mem_cons_of_mem _ member))
      refine ⟨ctx'', wrs'', bufPos'', groups'', ?_, filled, ?_, full⟩
      · simp only [RdmaContext.batch, turned]
        exact batched
      · rw [flat, grown, List.append_assoc, List.singleton_append]

end Loop

end Gam.Rdma
