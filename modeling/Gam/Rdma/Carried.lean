import Gam.Rdma.Steady

/-!
# What a work request carries

A work request carries the request it was built for and the sends that were merged into its buffer.
The specification of each function of the context says which requests the new work requests carry
and which stay in the queue.
-/

namespace Gam.Rdma

/-- The first request gives the work request its operation and its id; the others are unsignalled
sends. -/
def Carries (w : SendWr) : List RdmaRequest → Prop
  | [] => False
  | r :: joined =>
    w.opcode = r.op ∧ (r.signaled = true → w.signaled = true) ∧ (w.signaled = true → w.id = r.id) ∧
      (∀ m ∈ joined, r.op = .send ∧ m.op = .send ∧ m.signaled = false) ∧ (r.op ≠ .send →
        w.addr = r.src ∧ w.length = r.len ∧ w.remoteAddr = r.dest ∧ w.imm = r.imm)

/-- The bytes of a send are its own, those of a write lie in registered memory. -/
def RdmaRequest.Placed (r : RdmaRequest) : Prop :=
  match r.op with
  | .send => ∃ data id signaled,
    r = { op := .send, src := .heap data, len := data.length, id := id, signaled := signaled }
  | .rdmaWrite | .rdmaWriteWithImm => ∃ addr, r.src = .region addr

theorem Act.request_placed {act : Act} {r : RdmaRequest} (asked : act.request = some r) : r.Placed := by
  cases act <;> simp only [Act.request, Option.some.injEq, reduceCtorEq] at asked <;> subst asked
  · exact ⟨_, _, _, rfl⟩
  · exact ⟨_, rfl⟩
  · exact ⟨_, rfl⟩

/-! ## Changes the counters do not see -/

/-- Two work requests the counters cannot tell apart. -/
def Alike (w w' : SendWr) : Prop :=
  w'.slot? = w.slot? ∧ w'.signaled = w.signaled ∧ w'.wrId = w.wrId

theorem Alike.refl (w : SendWr) : Alike w w := ⟨rfl, rfl, rfl⟩

theorem alike_refl (sq : List SendWr) : List.Forall₂ Alike sq sq :=
  List.forall₂_same.mpr fun w _ => Alike.refl w

section Alike

variable {sq sq' : List SendWr} {s w : Nat}

theorem slots_alike (alike : List.Forall₂ Alike sq sq') : slots sq' = slots sq := by
  induction alike with
  | nil => rfl
  | cons same _ ih =>
    simp only [slots] at ih
    simp only [slots, List.filterMap_cons, same.1, ih]

theorem openFrom_alike (alike : List.Forall₂ Alike sq sq') : openFrom s w sq' = openFrom s w sq := by
  induction alike generalizing s w with
  | nil => rfl
  | cons same _ ih =>
    simp only [openFrom, SendWr.sends, SendWr.others, same.1, same.2.1, ih]

theorem tagged_alike (alike : List.Forall₂ Alike sq sq') (tagged : Tagged s w sq) : Tagged s w sq' := by
  induction alike generalizing s w with
  | nil => exact tagged
  | cons same _ ih =>
    simp only [Tagged, SendWr.sends, SendWr.others, SendWr.currSend, SendWr.currWR, same.1,
      same.2.1, same.2.2] at tagged ⊢
    split
    · rename_i marked
      rw [if_pos marked] at tagged
      exact ⟨tagged.1, tagged.2.1, ih tagged.2.2⟩
    · rename_i plain
      rw [if_neg plain] at tagged
      exact ih tagged

end Alike

variable {c : Config} {ctx : RdmaContext} {sq sq' : List SendWr}

theorem Steady.alike (steady : Steady c ctx sq) (alike : List.Forall₂ Alike sq sq')
    (mem : Memory) (queue : List RdmaRequest) : Steady c { ctx with sendBuf := mem, pendingRequests := queue } sq' := by
  have same := slots_alike alike
  have length := alike.length_eq
  constructor
  case toCounted =>
    constructor
    case pending => rw [← length]; exact steady.pending
    case sends => rw [same]; exact steady.sends
    case used => rw [same]; exact steady.used
    case tail_lt => exact steady.tail_lt
    case head => rw [same]; exact steady.head
    case full => rw [same]; exact steady.full
    case bound => rw [← length]; exact steady.bound
    case tagged => exact tagged_alike alike steady.tagged
    case openSends => rw [openFrom_alike alike]; exact steady.openSends
    case openOthers => rw [openFrom_alike alike]; exact steady.openOthers
    case small => rw [openFrom_alike alike]; exact steady.small
  case unsignaled => rw [openFrom_alike alike]; exact steady.unsignaled

/-! ## What `signal` leaves alone -/

section Signal

variable {w : SendWr} (r : RdmaRequest)

@[simp] theorem signal_sendBuf : (ctx.signal c r w).1.sendBuf = ctx.sendBuf := by
  unfold RdmaContext.signal
  dsimp only
  split <;> rfl

@[simp] theorem signal_pendingRequests : (ctx.signal c r w).1.pendingRequests = ctx.pendingRequests := by
  unfold RdmaContext.signal
  dsimp only
  split <;> rfl

@[simp] theorem signal_opcode : (ctx.signal c r w).2.opcode = w.opcode := by
  unfold RdmaContext.signal
  dsimp only
  split <;> rfl

@[simp] theorem signal_addr : (ctx.signal c r w).2.addr = w.addr := by
  unfold RdmaContext.signal
  dsimp only
  split <;> rfl

@[simp] theorem signal_length : (ctx.signal c r w).2.length = w.length := by
  unfold RdmaContext.signal
  dsimp only
  split <;> rfl

@[simp] theorem signal_inlined : (ctx.signal c r w).2.inlined = w.inlined := by
  unfold RdmaContext.signal
  dsimp only
  split <;> rfl

end Signal

/-- A work request built for `r` carries it. -/
theorem Counted.carries_signal {r : RdmaRequest} {w : SendWr} (counted : Counted c ctx sq)
    (op : w.opcode = r.op) (plain : w.signaled = false) (whole : r.op ≠ .send →
      w.addr = r.src ∧ w.length = r.len ∧ w.remoteAddr = r.dest ∧ w.imm = r.imm) :
    Carries (ctx.signal c r w).2 [r] := by
  have small := counted.small
  have limit := c.unsignaled_le
  have width := c.pending_lt
  rw [counted.signal_eq]
  split
  · exact ⟨op, fun _ => rfl, fun _ => id_packed rfl (by omega) (by omega), by simp, whole⟩
  · rename_i unsignaled
    refine ⟨op, fun marked => absurd (Or.inr marked) unsignaled, ?_, by simp, whole⟩
    intro marked
    rw [plain] at marked
    cases marked

/-! ## New work requests -/

/-- The context after the slot at the head is taken for one more send message, with `mem` in the
send buffer. -/
def RdmaContext.takeSlot (c : Config) (ctx : RdmaContext) (sq : List SendWr) (mem : Memory) : RdmaContext :=
  { ctx with
    slotHead := (ctx.slotTail + ((slots sq).length + 1)) % c.maxPendingMsg
    full := decide ((slots sq).length + 1 = c.maxPendingMsg)
    sendBuf := mem
    pendingSendMsg := ctx.pendingSendMsg + 1
    pendingMsg := ctx.pendingMsg + 1 }

/-- `w` is a new work request for `r` and `ctx'` the context after it, given the send buffer. -/
structure Enlisted (c : Config) (ctx : RdmaContext) (sq : List SendWr) (r : RdmaRequest)
    (mem : Memory) (addr : Src) (ctx' : RdmaContext) (w : SendWr) : Prop where
  steady : Steady c ctx' (sq ++ [w])
  carries : Carries w [r]
  queue : ctx'.pendingRequests = ctx.pendingRequests
  sendBuf : ctx'.sendBuf = mem
  addr : w.addr = addr
  length : w.length = r.len
  opcode : w.opcode = r.op

section Enlisted

variable {r : RdmaRequest} (steady : Steady c ctx sq) (free : sq.length < c.maxPendingMsg)
include steady free

/-- A send that takes the slot at the head. -/
theorem Steady.enlistedSlot (mem : Memory) (inlined : Bool) (send : r.op = .send) :
    let out := (ctx.takeSlot c sq mem).signal c r (SendWr.new r (.slot ctx.slotHead) inlined)
    Enlisted c ctx sq r mem (.slot ctx.slotHead) out.1 out.2 ∧ out.2.inlined = inlined := by
  have counted := steady.enlistSlot free (w := SendWr.new r (.slot ctx.slotHead) inlined) rfl rfl
    mem ctx.pendingRequests
  refine ⟨⟨counted.signal rfl r, ?_, signal_pendingRequests r, signal_sendBuf r, signal_addr r,
    signal_length r, signal_opcode r⟩, signal_inlined r⟩
  exact counted.carries_signal rfl rfl fun other => absurd send other

/-- A write, or a send that goes inline from the heap. -/
theorem Steady.enlistedOther (inlined : Bool) (away : r.src.isRegistered = false) :
    let out := { ctx with pendingMsg := ctx.pendingMsg + 1 }.signal c r (SendWr.new r r.src inlined)
    Enlisted c ctx sq r ctx.sendBuf r.src out.1 out.2 ∧ out.2.inlined = inlined := by
  have untaken : (SendWr.new r r.src inlined).slot? = none := by
    cases place : r.src with
    | slot i => simp [place, Src.isRegistered] at away
    | heap data => simp [SendWr.slot?, SendWr.new]
    | region addr => simp [SendWr.slot?, SendWr.new]
  have counted := steady.enlistOther free (w := SendWr.new r r.src inlined) rfl untaken
    ctx.pendingRequests
  refine ⟨⟨counted.signal rfl r, ?_, signal_pendingRequests r, signal_sendBuf r, signal_addr r,
    signal_length r, signal_opcode r⟩, signal_inlined r⟩
  exact counted.carries_signal rfl rfl fun _ => ⟨rfl, rfl, rfl, rfl⟩

/-- `memcpy` into a fresh slot is always possible then. -/
theorem Steady.copyToSlot_eq : ctx.copyToSlot c r = some ({ ctx with
      slotHead := (ctx.slotTail + ((slots sq).length + 1)) % c.maxPendingMsg
      full := decide ((slots sq).length + 1 = c.maxPendingMsg)
      sendBuf := ctx.sendBuf.store (slotAddr ctx.slotHead) (ctx.bytes r.src r.len)
      pendingSendMsg := ctx.pendingSendMsg + 1 }, .slot ctx.slotHead) := by
  unfold RdmaContext.copyToSlot
  rw [steady.getFreeSlot_eq, if_neg (Nat.ne_of_lt free)]
  rfl

end Enlisted

end Gam.Rdma
