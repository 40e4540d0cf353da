import Gam.Rdma.Link
import Gam.Rdma.Content

/-!
# The length of packets

A request that fits a slot with its zero byte leaves room for the zero byte that the peer writes behind
the packet, also when several requests are merged into one packet.
-/

namespace Gam.Rdma

variable {c : Config} {ctx ctx' : RdmaContext} {r : RdmaRequest} {wrs wrs' : List SendWr} {n bufPos bufPos' : Nat}

/-- A send whose packet leaves room for a zero byte in a slot. -/
def SendWr.Fits (w : SendWr) : Prop := w.opcode = .send → w.length + 1 ≤ maxRequestSize

theorem SendWr.fits_new (fits : r.Fits) (addr : Src) (inlined : Bool) : (SendWr.new r addr inlined).Fits := fits

/-- The signal flag and the work id do not matter. -/
theorem fits_signal (c : Config) (ctx : RdmaContext) (r : RdmaRequest) {w : SendWr} (fits : w.Fits) : (ctx.signal c r w).2.Fits := by
  unfold RdmaContext.signal
  dsimp only
  split
  · exact fits
  · exact fits

theorem signal_queue (c : Config) (ctx : RdmaContext) (r : RdmaRequest) (w : SendWr) : (ctx.signal c r w).1.pendingRequests = ctx.pendingRequests := by
  unfold RdmaContext.signal
  dsimp only
  split <;> rfl

theorem getFreeSlot_queue {i : Nat} (free : ctx.getFreeSlot_ c = some (i, ctx')) : ctx'.pendingRequests = ctx.pendingRequests := by
  unfold RdmaContext.getFreeSlot_ at free
  dsimp only at free
  generalize (if rminus ctx.slotTail ctx.slotHead c.maxPendingMsg = 0 ∧ ctx.full = false then (c.maxPendingMsg : Int)
    else rminus ctx.slotTail ctx.slotHead c.maxPendingMsg) = avail at free
  split at free
  · cases free
  · obtain ⟨_, rfl⟩ := Prod.mk.inj (Option.some.inj free)
    rfl

theorem copyToSlot_queue {addr : Src} (copied : ctx.copyToSlot c r = some (ctx', addr)) : ctx'.pendingRequests = ctx.pendingRequests := by
  unfold RdmaContext.copyToSlot at copied
  split at copied
  · cases copied
  · next i ctx₁ free =>
    obtain ⟨rfl, _⟩ := Prod.mk.inj (Option.some.inj copied)
    show ctx₁.pendingRequests = ctx.pendingRequests
    exact getFreeSlot_queue free

/-! ## A batch -/

/-- One turn keeps the work requests short. The position in the buffer of the newest send is its length. -/
theorem fits_turn (fits : r.Fits) (short : ∀ w ∈ wrs, w.Fits)
    (went : ctx.turn c n wrs bufPos r = some (.go ctx' wrs' bufPos')) : ∀ w ∈ wrs', w.Fits := by
  have appended : ctx.append c n wrs r = some (.go ctx' wrs' bufPos') → ∀ w ∈ wrs', w.Fits := by
    intro went
    unfold RdmaContext.append at went
    split at went
    · cases went
    · split at went
      · split at went
        · cases went
        · next addr _ =>
          obtain ⟨_, rfl, _⟩ := Turn.go.inj (Option.some.inj went)
          exact List.forall_mem_cons.mpr ⟨fits_signal _ _ _ (SendWr.fits_new fits addr false), short⟩
      · obtain ⟨_, rfl, _⟩ := Turn.go.inj (Option.some.inj went)
        exact List.forall_mem_cons.mpr ⟨fits_signal _ _ _ (SendWr.fits_new fits _ false), short⟩
      · obtain ⟨_, rfl, _⟩ := Turn.go.inj (Option.some.inj went)
        exact List.forall_mem_cons.mpr ⟨fits_signal _ _ _ (SendWr.fits_new fits _ false), short⟩
  unfold RdmaContext.turn at went
  split at went
  · next prev older =>
    split at went
    · next joins =>
      unfold RdmaContext.merge at went
      split at went
      · obtain ⟨_, rfl, _⟩ := Turn.go.inj (Option.some.inj went)
        refine List.forall_mem_cons.mpr ⟨fits_signal _ _ _ fun _ => ?_, (List.forall_mem_cons.mp short).2⟩
        have room := joins.2.2.1
        show bufPos + (1 + r.len) + 1 ≤ maxRequestSize
        omega
      · cases went
    · exact appended went
  · exact appended went

theorem fits_batch (queue : List RdmaRequest) (fits : ∀ r ∈ queue, r.Fits) (short : ∀ w ∈ wrs, w.Fits)
    (done : RdmaContext.batch c n queue ctx wrs bufPos = some (ctx', wrs')) :
    (∀ w ∈ wrs', w.Fits) ∧ ∀ r ∈ ctx'.pendingRequests, r.Fits := by
  induction queue generalizing ctx wrs bufPos with
  | nil =>
    obtain ⟨rfl, rfl⟩ := Prod.mk.inj (Option.some.inj done)
    exact ⟨short, fun r member => nomatch member⟩
  | cons r rest ih =>
    obtain ⟨first, later⟩ := List.forall_mem_cons.mp fits
    rw [RdmaContext.batch] at done
    split at done
    · cases done
    · obtain ⟨rfl, rfl⟩ := Prod.mk.inj (Option.some.inj done)
      exact ⟨short, fits⟩
    · next went => exact ih later (fits_turn first short went) done

theorem fits_process (fits : ∀ r ∈ ctx.pendingRequests, r.Fits) (done : ctx.processPendingRequests c n = some (ctx', wrs')) :
    (∀ w ∈ wrs', w.Fits) ∧ ∀ r ∈ ctx'.pendingRequests, r.Fits := by
  unfold RdmaContext.processPendingRequests at done
  split at done
  · cases done
  · next wrs batched =>
    obtain ⟨short, fits'⟩ := fits_batch _ fits (fun w member => absurd member List.not_mem_nil) batched
    split at done
    · cases done
    · obtain ⟨rfl, rfl⟩ := Prod.mk.inj (Option.some.inj done)
      refine ⟨fun w member => ?_, fits'⟩
      obtain ⟨w', inside, rfl⟩ := List.mem_map.mp (List.mem_reverse.mp member)
      exact short w' inside

/-! ## A submission -/

theorem locate_queue {addr : Src} (found : ctx.locate c r = some (ctx', addr)) : ctx'.pendingRequests = ctx.pendingRequests := by
  unfold RdmaContext.locate at found
  split at found
  · split at found
    · exact copyToSlot_queue found
    · split at found
      · obtain ⟨rfl, _⟩ := Prod.mk.inj (Option.some.inj found)
        rfl
      · obtain ⟨rfl, _⟩ := Prod.mk.inj (Option.some.inj found)
        rfl
  · obtain ⟨rfl, _⟩ := Prod.mk.inj (Option.some.inj found)
    rfl
  · obtain ⟨rfl, _⟩ := Prod.mk.inj (Option.some.inj found)
    rfl

theorem fits_rdma (fits : r.Fits) (queue : ∀ r ∈ ctx.pendingRequests, r.Fits) (done : ctx.rdma c r = some (ctx', wrs')) :
    (∀ w ∈ wrs', w.Fits) ∧ ∀ r ∈ ctx'.pendingRequests, r.Fits := by
  unfold RdmaContext.rdma at done
  split at done
  · obtain ⟨rfl, rfl⟩ := Prod.mk.inj (Option.some.inj done)
    exact ⟨fun w member => (nomatch member), List.forall_mem_append.mpr ⟨queue, List.forall_mem_singleton.mpr fits⟩⟩
  · split at done
    · cases done
    · next ctx₁ addr located =>
      have short := fits_signal c { ctx₁ with pendingMsg := ctx₁.pendingMsg + 1 } r
        (SendWr.fits_new fits addr (decide (r.len ≤ c.maxRdmaInlineSize)))
      have kept := signal_queue c { ctx₁ with pendingMsg := ctx₁.pendingMsg + 1 } r
        (SendWr.new r addr (decide (r.len ≤ c.maxRdmaInlineSize)))
      obtain ⟨rfl, rfl⟩ := Prod.mk.inj (Option.some.inj done)
      exact ⟨List.forall_mem_singleton.mpr short, fun r' member => queue r' (locate_queue located ▸ kept ▸ member)⟩

theorem fits_submit (fits : r.Fits) (placed : r.Placed) (queue : ∀ r ∈ ctx.pendingRequests, r.Fits)
    (done : ctx.submit c r = some (ctx', wrs')) : (∀ w ∈ wrs', w.Fits) ∧ ∀ r ∈ ctx'.pendingRequests, r.Fits := by
  unfold RdmaContext.submit at done
  split at done
  · next data send src =>
    have len : r.len = data.length := by
      rw [RdmaRequest.Placed, send] at placed
      obtain ⟨data', _, _, rfl⟩ := placed
      exact congrArg List.length (Src.heap.inj src)
    have fits' : ∀ src : Src, RdmaRequest.Fits { op := .send, src := src, len := data.length, id := r.id, signaled := r.signaled } :=
      fun _ _ => len ▸ fits send
    unfold RdmaContext.send at done
    split at done
    · next free => exact fits_rdma (fits' _) (by rw [getFreeSlot_queue free]; exact queue) done
    · exact fits_rdma (fits' _) queue done
  · exact fits_rdma fits queue done

/-! ## A connection -/

/-- A packet that leaves room for a zero byte in the slot it is received in. -/
def Packet.Fits : Packet → Prop
  | .send data => data.length + 1 ≤ maxRequestSize
  | .write .. => True

/-- A work request in the device that fits, with no more bytes copied than its length. -/
def Posted.Fits (p : Posted) : Prop := p.wr.Fits ∧ ∀ data, p.copied = some data → data.length ≤ p.wr.length

theorem length_bytes_le (ctx : RdmaContext) (src : Src) (len : Nat) : (ctx.bytes src len).length ≤ len := by
  cases src with
  | slot i => exact (Memory.length_load ..).le
  | heap data => exact List.length_take_le ..
  | region addr => exact Nat.zero_le _

theorem fits_post (ctx : RdmaContext) {w : SendWr} (fits : w.Fits) : (ctx.post w).Fits := by
  refine ⟨fits, fun data copied => ?_⟩
  unfold RdmaContext.post at copied
  dsimp only at copied
  split at copied
  · rw [← Option.some.inj copied]
    exact length_bytes_le ..
  · cases copied

theorem Posted.Fits.packet {p : Posted} {mem : Memory} {packet : Packet} (fits : p.Fits) (made : p.packet mem = some packet) :
    packet.Fits := by
  unfold Posted.packet at made
  split at made
  · next send =>
    have room := fits.1 send
    split at made
    · next data copied =>
      have short := fits.2 data copied
      rw [← Option.some.inj made]
      show data.length + 1 ≤ maxRequestSize
      omega
    · rw [← Option.some.inj made]
      show (mem.load _ _).length + 1 ≤ maxRequestSize
      rwa [Memory.length_load]
    · cases made
  · rw [← Option.some.inj made]
    trivial
  · rw [← Option.some.inj made]
    trivial

/-- Everything on a connection is short enough. -/
structure Link.Short (l : Link) : Prop where
  queue : ∀ r ∈ l.ctx.pendingRequests, r.Fits
  sent : ∀ p ∈ l.sent, p.Fits
  waiting : ∀ p ∈ l.waiting, p.Fits
  received : ∀ packet ∈ l.received, packet.Fits

theorem Link.Short.init : Link.init.Short :=
  ⟨fun _ member => (nomatch member), fun _ member => (nomatch member), fun _ member => (nomatch member),
    fun _ member => (nomatch member)⟩

theorem fits_posts {ps : List Posted} (older : ∀ p ∈ ps, p.Fits) (short : ∀ w ∈ wrs, w.Fits) :
    ∀ p ∈ ps ++ wrs.map ctx.post, p.Fits := by
  refine List.forall_mem_append.mpr ⟨older, fun p member => ?_⟩
  obtain ⟨w, inside, rfl⟩ := List.mem_map.mp member
  exact fits_post ctx (short w inside)

theorem Link.Short.submit {l l' : Link} (short : l.Short) (fits : r.Fits) (placed : r.Placed) (done : l.submit c r = some l') : l'.Short := by
  unfold Link.submit at done
  split at done
  · cases done
  · next ctx wrs submitted =>
    obtain ⟨wrsFit, queue⟩ := fits_submit fits placed short.queue submitted
    rw [← Option.some.inj done]
    exact ⟨queue, short.sent, fits_posts short.waiting wrsFit, short.received⟩

theorem Link.Short.transmit {l l' : Link} (short : l.Short) (done : l.transmit = some l') : l'.Short := by
  unfold Link.transmit at done
  split at done
  · rw [← Option.some.inj done]
    exact short
  · next p rest waits =>
    have waiting := short.waiting
    rw [waits] at waiting
    obtain ⟨first, later⟩ := List.forall_mem_cons.mp waiting
    split at done
    · cases done
    · next packet made =>
      rw [← Option.some.inj done]
      exact ⟨short.queue, List.forall_mem_append.mpr ⟨short.sent, List.forall_mem_singleton.mpr first⟩, later,
        List.forall_mem_append.mpr ⟨short.received, List.forall_mem_singleton.mpr (first.packet made)⟩⟩

theorem Link.Short.complete {l l' : Link} (short : l.Short) (done : l.complete c = some l') : l'.Short := by
  unfold Link.complete at done
  split at done
  · rw [← Option.some.inj done]
    exact short
  · next p rest front =>
    split at done
    · cases done
    · next id ctx wrs completed =>
      have sent : ∀ q ∈ rest, q.Fits := fun q member =>
        short.sent q ((List.dropWhile_suffix _).subset (front ▸ List.mem_cons_of_mem _ member))
      unfold RdmaContext.sendComp at completed
      dsimp only at completed
      split at completed
      · cases completed
      · next processed =>
        obtain ⟨_, rfl, rfl⟩ := completed
        have waits : ∀ r ∈ (l.ctx.release c (uint16 (p.wr.wrId >>> 48 : Nat)) (uint16 ((p.wr.wrId >>> 32) &&& 0xffff : Nat))).pendingRequests,
          r.Fits := short.queue
        obtain ⟨wrsFit, queue⟩ := fits_process waits processed
        rw [← Option.some.inj done]
        exact ⟨queue, sent, fits_posts short.waiting wrsFit, short.received⟩

/-- Every send of the run leaves room for its zero byte. -/
theorem Link.Short.run {l l' : Link} {acts : List Act} (short : l.Short)
    (fits : ∀ act ∈ acts, ∀ r, act.request = some r → r.Fits) (ran : l.run c acts = some l') : l'.Short := by
  induction acts generalizing l with
  | nil =>
    obtain rfl := Option.some.inj ran
    exact short
  | cons act rest ih =>
    obtain ⟨first, later⟩ := List.forall_mem_cons.mp fits
    rw [Link.run, List.foldlM_cons] at ran
    obtain ⟨l₁, stepped, ran⟩ := Option.bind_eq_some_iff.mp ran
    refine ih ?_ later ran
    unfold Link.step at stepped
    split at stepped
    · next r asked => exact short.submit (first r asked) (Act.request_placed asked) stepped
    · split at stepped
      · exact short.complete stepped
      · exact short.transmit stepped

end Gam.Rdma
