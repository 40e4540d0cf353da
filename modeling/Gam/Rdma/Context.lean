import Gam.Memory

/-!
# The send side of one connection

`RdmaContext` of `rdma.cc`: the ring of send slots, the counters of outstanding work requests and
the queue of requests that wait because the device is busy. `ibv_post_send` is assumed to succeed,
and a function that would follow a null pointer or index out of its arrays returns `none`.
-/

namespace Gam.Rdma

/-- `MAX_REQUEST_SIZE`, the size of one send slot. -/
def maxRequestSize : Nat := 1024

/-- The limits of a connection: `max_pending_msg`, `max_unsignaled_msg` and the inline size the
device supports. The constructor of `RdmaContext` cuts the second down to the first, and the
counters of a batch are 16 bits wide. -/
structure Config where
  maxPendingMsg : Nat
  maxUnsignaledMsg : Nat
  maxRdmaInlineSize : Nat
  unsignaled_pos : 0 < maxUnsignaledMsg
  unsignaled_le : maxUnsignaledMsg ≤ maxPendingMsg
  pending_lt : maxPendingMsg < 2 ^ 16

/-- The operations the library submits. -/
inductive Opcode where
  | send
  | rdmaWrite
  | rdmaWriteWithImm
deriving DecidableEq, Repr

/-- Where the bytes of a request lie: in a slot of the send buffer, in a buffer of the heap that
belongs to the request, or in the registered memory of the node. -/
inductive Src where
  | slot (i : Nat)
  | heap (data : List UInt8)
  | region (addr : Nat)
deriving DecidableEq, Repr

/-- `IsRegistered`: the address lies in the send buffer. -/
def Src.isRegistered : Src → Bool
  | slot _ => true
  | _ => false

structure RdmaRequest where
  op : Opcode
  src : Src
  len : Nat
  id : UInt32 := 0
  signaled : Bool := false
  dest : Nat := 0
  imm : UInt32 := 0
deriving DecidableEq, Repr

/-- `ibv_send_wr` with its one scatter/gather element. -/
structure SendWr where
  opcode : Opcode
  wrId : Nat
  addr : Src
  length : Nat
  signaled : Bool
  inlined : Bool
  remoteAddr : Nat
  imm : UInt32
deriving DecidableEq, Repr

structure RdmaContext where
  slotHead : Nat
  slotTail : Nat
  full : Bool
  pendingMsg : Int
  pendingSendMsg : Int
  toSignaledSendMsg : Int
  toSignaledWRMsg : Int
  pendingRequests : List RdmaRequest
  sendBuf : Memory

/-- The state the constructor leaves. -/
def RdmaContext.init : RdmaContext where
  slotHead := 0
  slotTail := 0
  full := false
  pendingMsg := 0
  pendingSendMsg := 0
  toSignaledSendMsg := 0
  toSignaledWRMsg := 0
  pendingRequests := []
  sendBuf := fun _ => 0

/-- The macro `RMINUS`. -/
def rminus (a b rz : Nat) : Int := if b ≤ a then (a : Int) - b else a + rz - b

/-- Conversion to `uint16_t`. -/
def uint16 (x : Int) : Nat := (x % 2 ^ 16).toNat

/-- The address of a slot in the send buffer. -/
def slotAddr (i : Nat) : Nat := i * maxRequestSize

variable (c : Config)

/-- `GetFreeSlot_`: the slot at the head of the ring, `none` when every slot is busy. -/
def RdmaContext.getFreeSlot_ (ctx : RdmaContext) : Option (Nat × RdmaContext) :=
  let free := rminus ctx.slotTail ctx.slotHead c.maxPendingMsg
  let avail := if free = 0 ∧ ctx.full = false then (c.maxPendingMsg : Int) else free
  if avail ≤ 0 ∨ c.maxPendingMsg ≤ ctx.pendingMsg then
    none
  else
    let head := if ctx.slotHead + 1 = c.maxPendingMsg then 0 else ctx.slotHead + 1
    some (ctx.slotHead, { ctx with
      slotHead := head
      full := if head = ctx.slotTail then true else ctx.full })

/-- The work id of a signalled request, from higher to lower: send messages (16 bits), other
messages (16 bits), id (32 bits). -/
@[irreducible] def packWrId (id : UInt32) (send wr : Nat) : Nat :=
  (id.toNat &&& 0xffffffff) + ((send &&& 0xffff) <<< 48) + ((wr &&& 0xffff) <<< 32)

/-- The end of `Rdma` and of each turn of `ProcessPendingRequests`: the work request is signalled
if its submitter asked for it or if it closes a batch of `max_unsignaled_msg`. -/
def RdmaContext.signal (ctx : RdmaContext) (r : RdmaRequest) (wr : SendWr) : RdmaContext × SendWr :=
  let currSend := uint16 (ctx.pendingSendMsg - ctx.toSignaledSendMsg)
  let currWR := uint16 (ctx.pendingMsg - ctx.pendingSendMsg - ctx.toSignaledWRMsg)
  if currSend + currWR = c.maxUnsignaledMsg ∨ r.signaled = true then
    ({ ctx with
        toSignaledSendMsg := ctx.toSignaledSendMsg + currSend
        toSignaledWRMsg := ctx.toSignaledWRMsg + currWR },
      { wr with signaled := true, wrId := packWrId r.id currSend currWR })
  else
    (ctx, wr)

/-- The bytes a request points to. -/
def RdmaContext.bytes (ctx : RdmaContext) (src : Src) (len : Nat) : List UInt8 :=
  match src with
  | .slot i => ctx.sendBuf.load (slotAddr i) len
  | .heap data => data.take len
  | .region _ => []

/-- A new work request for `r` whose bytes are at `addr`, with `wr_id = -1`. -/
def SendWr.new (r : RdmaRequest) (addr : Src) (inlined : Bool) : SendWr where
  opcode := r.op
  wrId := 2 ^ 64 - 1
  addr := addr
  length := r.len
  signaled := false
  inlined := inlined
  remoteAddr := r.dest
  imm := r.imm

/-- `memcpy` of the bytes of a request into a fresh slot, and the count of a send message. -/
def RdmaContext.copyToSlot (ctx : RdmaContext) (r : RdmaRequest) : Option (RdmaContext × Src) :=
  match ctx.getFreeSlot_ c with
  | none => none
  | some (i, ctx') =>
    some ({ ctx' with
        sendBuf := ctx'.sendBuf.store (slotAddr i) (ctx'.bytes r.src r.len)
        pendingSendMsg := ctx'.pendingSendMsg + 1 }, .slot i)

/-- The part of `Rdma` that finds the bytes of a request: a send whose bytes are not in a slot is
copied into one unless it is small enough to go inline. -/
def RdmaContext.locate (ctx : RdmaContext) (r : RdmaRequest) : Option (RdmaContext × Src) :=
  match r.op with
  | .send =>
    if r.src.isRegistered = false ∧ c.maxRdmaInlineSize < r.len then
      ctx.copyToSlot c r
    else if r.src.isRegistered then
      some ({ ctx with pendingSendMsg := ctx.pendingSendMsg + 1 }, r.src)
    else
      some (ctx, r.src)
  | .rdmaWrite | .rdmaWriteWithImm => some (ctx, r.src)

/-- `Rdma`: queues the request while the device is busy, else posts it. The second component is
what is given to `ibv_post_send`. -/
def RdmaContext.rdma (ctx : RdmaContext) (r : RdmaRequest) : Option (RdmaContext × List SendWr) :=
  if c.maxPendingMsg ≤ ctx.pendingMsg then
    some ({ ctx with pendingRequests := ctx.pendingRequests ++ [r] }, [])
  else
    match ctx.locate c r with
    | none => none
    | some (ctx', addr) =>
      let wr := SendWr.new r addr (decide (r.len ≤ c.maxRdmaInlineSize))
      let (ctx', wr) := { ctx' with pendingMsg := ctx'.pendingMsg + 1 }.signal c r wr
      some (ctx', [wr])

/-- What one turn of the loop of `ProcessPendingRequests` comes to. The work requests of the batch
are kept newest first. -/
inductive Turn where
  | stop
  | go (ctx : RdmaContext) (wrs : List SendWr) (bufPos : Nat)

/-- The send buffer after the bytes of `r` are copied behind the `bufPos` bytes in slot `i`, with a
zero byte as separator. -/
def RdmaContext.join (ctx : RdmaContext) (i bufPos : Nat) (r : RdmaRequest) : Memory :=
  (ctx.sendBuf.store (slotAddr i + bufPos) [0]).store (slotAddr i + bufPos + 1)
    (ctx.bytes r.src r.len)

/-- A request that joins the buffer of the newest work request. -/
def RdmaContext.merge (ctx : RdmaContext) (prev : SendWr) (older : List SendWr) (bufPos : Nat)
    (r : RdmaRequest) : Option Turn :=
  match prev.addr with
  | .slot i =>
    let (ctx', wr) := { ctx with sendBuf := ctx.join i bufPos r }.signal c r
      { prev with length := bufPos + (1 + r.len) }
    some (.go ctx' (wr :: older) (bufPos + (1 + r.len)))
  | _ => none

/-- A request that gets a work request of its own, unless the batch has its `n` already. -/
def RdmaContext.append (ctx : RdmaContext) (n : Nat) (wrs : List SendWr) (r : RdmaRequest) : Option Turn :=
  if wrs.length = n then
    some .stop
  else
    match r.op with
    | .send =>
      match ctx.copyToSlot c r with
      | none => none
      | some (ctx', addr) =>
        let (ctx', wr) := { ctx' with pendingMsg := ctx'.pendingMsg + 1 }.signal c r
          (SendWr.new r addr false)
        some (.go ctx' (wr :: wrs) r.len)
    | .rdmaWrite | .rdmaWriteWithImm =>
      let (ctx', wr) := { ctx with pendingMsg := ctx.pendingMsg + 1 }.signal c r
        (SendWr.new r r.src false)
      some (.go ctx' (wr :: wrs) 0)

/-- One turn of the loop: an unsignalled send joins the send before it if there is room for it, a
separator and the byte after it. -/
def RdmaContext.turn (ctx : RdmaContext) (n : Nat) (wrs : List SendWr) (bufPos : Nat) (r : RdmaRequest) : Option Turn :=
  match wrs with
  | prev :: older =>
    if r.op = .send ∧ prev.opcode = .send ∧ bufPos + r.len + 1 + 1 ≤ maxRequestSize
        ∧ r.signaled = false then
      ctx.merge c prev older bufPos r
    else
      ctx.append c n wrs r
  | [] => ctx.append c n wrs r

/-- The loop of `ProcessPendingRequests` over the requests in the queue. -/
def RdmaContext.batch (n : Nat) : List RdmaRequest → RdmaContext → List SendWr → Nat →
    Option (RdmaContext × List SendWr)
  | [], ctx, wrs, _ => some ({ ctx with pendingRequests := [] }, wrs)
  | r :: rest, ctx, wrs, bufPos =>
    match ctx.turn c n wrs bufPos r with
    | none => none
    | some .stop => some ({ ctx with pendingRequests := r :: rest }, wrs)
    | some (.go ctx' wrs' bufPos') => batch n rest ctx' wrs' bufPos'

/-- The flag set on each work request of a batch before it is posted. -/
def SendWr.setInline (wr : SendWr) : SendWr :=
  { wr with inlined := decide (wr.length ≤ c.maxRdmaInlineSize) }

/-- `ProcessPendingRequests`: posts at most `n` work requests for the requests in the queue. With
requests in the queue it reads `wrs[j - 1]`, so it needs at least one work request. -/
def RdmaContext.processPendingRequests (ctx : RdmaContext) (n : Nat) : Option (RdmaContext × List SendWr) :=
  match RdmaContext.batch c n ctx.pendingRequests ctx [] 0 with
  | none => none
  | some (ctx', wrs) =>
    if ctx.pendingRequests ≠ [] ∧ wrs = [] then none
    else some (ctx', (wrs.map (SendWr.setInline c)).reverse)

/-- The first part of `SendComp`: the slots and the counts of a completed batch are given back. -/
def RdmaContext.release (ctx : RdmaContext) (currSend currWR : Nat) : RdmaContext :=
  let tail := ctx.slotTail + currSend
  { ctx with
    slotTail := if c.maxPendingMsg ≤ tail then tail - c.maxPendingMsg else tail
    toSignaledSendMsg := ctx.toSignaledSendMsg - currSend
    toSignaledWRMsg := ctx.toSignaledWRMsg - currWR
    pendingMsg := ctx.pendingMsg - (currSend + currWR)
    pendingSendMsg := ctx.pendingSendMsg - currSend
    full := if ctx.full = true ∧ currSend ≠ 0 then false else ctx.full }

/-- `SendComp` for a completion with the work id `wrId`: gives the batch back, then serves the
queue. -/
def RdmaContext.sendComp (ctx : RdmaContext) (wrId : Nat) : Option (UInt32 × RdmaContext × List SendWr) :=
  let id := UInt32.ofNat (wrId &&& 0xffffffff)
  let currSend := uint16 (wrId >>> 48 : Nat)
  let currWR := uint16 ((wrId >>> 32) &&& 0xffff : Nat)
  match (ctx.release c currSend currWR).processPendingRequests c (currSend + currWR) with
  | none => none
  | some (ctx', wrs) => some (id, ctx', wrs)

end Gam.Rdma
